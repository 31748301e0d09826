import ImsCall.Proofs.View.Basic

/-!
# Applying a view

Applying a view to a bag overrides it, field by field. What the view has is what the bag says
afterwards, whatever was under the field's key before and whichever spelling it was read from. What
the view does not have stays as it was, and every key that is not written keeps its value: the
second spelling of the radio technology is never written, so an outdated text there stays, and is
outdone by the usual spelling.

So views that are applied one after the other add up to one view, the later ones taking precedence.
Only the fields count in this. The residual of a view is of no consequence for the bags that it is
applied to.

## Main definitions

* `View.override` — the fields of one view in front of those of another
* `View.Overrides` — what a view makes of a bag

## Main results

* `View.Overrides.unique` — a view makes one thing of a bag
* `View.Overrides.trans` — what two views make of a bag, one after the other
* `View.applyTo_overrides_fields` — applying a view is a field-wise override
-/

namespace ImsCall

namespace View

variable {v w : View} {before middle after other : Extras} {f : Field}

/-- The fields of `w` where they are present, and those of `v` elsewhere. -/
def override (v w : View) : View where
  field f := (w.field f).or (v.field f)
  residual := v.residual

/-- What a view makes of a bag: its fields are read there, and where it has none, the ones that were
read before. It does so by writing the fields that are present under their keys, and nothing
else. -/
structure Overrides (v : View) (before after : Extras) : Prop where
  /-- A field is read as the view has it, and as before if the view does not have it. -/
  field : ∀ f, after.view.field f = (v.field f).or (before.view.field f)
  /-- The key of a field that is present holds the field. -/
  written : ∀ f c, v.field f = some c → after.get? f.key = some (f.shape.write c)
  /-- Every key but those holds what it held. -/
  kept : ∀ k, (∀ f, (v.field f).isSome → f.key ≠ k) → after.get? k = before.get? k

namespace Overrides

/-- The key of a field that is absent is no key of another one that is present, so it holds what it
held. -/
theorem kept_key (h : v.Overrides before after) (absent : v.field f = none) :
    after.get? f.key = before.get? f.key := by
  apply h.kept
  intro g present hkey
  rw [Field.key_injective hkey, absent] at present
  cases present

/-- A view makes one thing of a bag: every key is the key of a field that is present, or keeps what
it held. -/
theorem unique (h : v.Overrides before after) (h' : v.Overrides before other) : after = other := by
  apply Extras.ext_get?
  intro k
  by_cases written : ∃ f, (v.field f).isSome ∧ f.key = k
  · obtain ⟨f, present, rfl⟩ := written
    obtain ⟨c, hc⟩ := Option.isSome_iff_exists.mp present
    rw [h.written f c hc, h'.written f c hc]
  · have free : ∀ f, (v.field f).isSome → f.key ≠ k := fun f present hkey =>
      written ⟨f, present, hkey⟩
    rw [h.kept k free, h'.kept k free]

/-- Only the fields of a view count. -/
theorem congr (h : v.Overrides before after) (same : ∀ f, w.field f = v.field f) :
    w.Overrides before after where
  field f := by rw [same, h.field]
  written f c present := h.written f c (same f ▸ present)
  kept k free := h.kept k fun f present => free f (same f ▸ present)

/-- A second view overrides what the first one wrote, and leaves the rest of it. -/
theorem trans (h : v.Overrides before middle) (h' : w.Overrides middle after) :
    (v.override w).Overrides before after where
  field f := by rw [h'.field, h.field, ← Option.or_assoc]; rfl
  written f c present := by
    rcases Option.or_eq_some_iff.mp present with hw | ⟨absent, hv⟩
    · exact h'.written f c hw
    · rw [h'.kept_key absent, h.written f c hv]
  kept k free := by
    have free' : ∀ f, (v.field f).isSome ∨ (w.field f).isSome → f.key ≠ k := by
      intro f present
      apply free
      rw [override, Option.isSome_or, Bool.or_eq_true, or_comm]
      exact present
    rw [h'.kept k fun f present => free' f (.inr present),
      h.kept k fun f present => free' f (.inl present)]

end Overrides

theorem overrides_applyTo (v : View) (e : Extras) : v.Overrides e (v.applyTo e) where
  field f := f.read?_applyTo v e
  written f c present := by rw [get?_applyTo_key, present, Option.map_some, Option.some_or]
  kept k free := by
    by_cases known : ∃ f : Field, f.key = k
    · obtain ⟨f, rfl⟩ := known
      have absent : v.field f = none :=
        Option.not_isSome_iff_eq_none.mp fun present => free f present rfl
      rw [get?_applyTo_key, absent, Option.map_none, Option.none_or]
    · exact v.get?_applyTo_of_forall_ne e (not_exists.mp known)

/-- **Applying a view is a field-wise override.** What a view makes of a bag is what applying it
gives. The residual of the view has no influence, applying the view again changes nothing, and
applying another one afterwards is applying the view that has the fields of the other one where
they are present, and those of the first elsewhere. -/
theorem applyTo_overrides_fields (v : View) (e : Extras) :
    (∀ after, v.Overrides e after ↔ after = v.applyTo e) ∧
      (∀ residual, { v with residual := residual }.applyTo e = v.applyTo e) ∧
      v.applyTo (v.applyTo e) = v.applyTo e ∧
      ∀ w : View, w.applyTo (v.applyTo e) = (v.override w).applyTo e := by
  have made := v.overrides_applyTo e
  refine ⟨fun after => ⟨fun h => h.unique made, ?this⟩, fun residual => ?residual, ?again, ?later⟩
  case this =>
    rintro rfl
    exact made
  case residual =>
    have withResidual := overrides_applyTo { v with residual := residual } e
    exact withResidual.unique (made.congr fun _ => rfl)
  case again =>
    have twice := made.trans (v.overrides_applyTo (v.applyTo e))
    exact (twice.congr fun _ => Option.or_self.symm).unique made
  case later =>
    intro w
    have both := made.trans (w.overrides_applyTo (v.applyTo e))
    exact both.unique (overrides_applyTo (v.override w) e)

end View

end ImsCall
