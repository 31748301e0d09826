import Mathlib
import ImsCall.Extras.Sanitize

/-!
# What sanitizing does to a bag

`Extras.strip` takes unapproved objects out, at any depth, and `Extras.isSafe` says that there is
none. The fixed points of the one are the bags of the other: a safe bag is left as it is, and
what is left of any bag is safe. So handing a safe bag back as it is, as `Extras.sanitize` does,
makes no difference to the bag that comes out.

A nested bag is stripped in place and never dropped. Only objects go, and they do not nest, so
the depth of a bag stays.

## Implementation notes

Proofs about bags at every depth go by `Entries.nestedInduction`. It offers the entries one by
one, with the claim for the bag in an entry if there is one; what all other kinds of values have
in common is then said once, by `Value.strip?_of_plain`.

## Main results

* `Entries.strip_of_isSafe`, `Entries.isSafe_strip`, `Entries.strip_strip` — fixed points
* `Entries.depth_strip` — the depth stays
* `Extras.extras_sanitize` — sanitizing yields the stripped bag
-/

namespace ImsCall

/-! ### Values at every depth -/

theorem Value.eq_bundle_of_bundle? {v : Value} {bag : Extras} (h : v.bundle? = some bag) :
    v = .bundle bag := by
  cases v <;> cases h
  rfl

/-- A value is plain, or it is a bag. -/
theorem Value.plain_or_bundle (v : Value) : v.bundle? = none ∨ ∃ bag, v = .bundle bag := by
  cases h : v.bundle? with
  | none => exact .inl rfl
  | some bag => exact .inr ⟨bag, Value.eq_bundle_of_bundle? h⟩

theorem Value.depth_of_plain {v : Value} (isPlain : v.bundle? = none) : v.depth = 0 := by
  cases v <;> first | rfl | cases isPlain

namespace Entries

/-- Induction over the entries of a bag and of the bags nested in it. -/
theorem nestedInduction {motive : (low : Option String) → Entries low → Prop}
    (nil : ∀ {low : Option String}, motive low .nil)
    (cons : ∀ {low : Option String} (key : String) (above : Above low key) (value : Value)
      (rest : Entries (some key)), (∀ bag, value = .bundle bag → motive none bag) →
      motive (some key) rest → motive low (.cons key above value rest))
    {low : Option String} : (e : Entries low) → motive low e
  | .nil => nil
  | .cons key above value rest =>
    cons key above value rest (fun bag _ => nestedInduction nil cons bag)
      (nestedInduction nil cons rest)
termination_by e => sizeOf e
decreasing_by
  all_goals
    subst_vars
    simp only [Entries.cons.sizeOf_spec, Value.bundle.sizeOf_spec]
    omega

theorem one_le_depth {low : Option String} (e : Entries low) : 1 ≤ e.depth := by
  cases e with
  | nil => exact Nat.le_refl 1
  | cons key above value rest =>
    rw [depth]
    omega

@[simp] theorem depth_weaken {low : Option String} {key : String} (h : Above low key)
    (e : Entries (some key)) : (e.weaken h).depth = e.depth := by
  cases e <;> rfl

@[simp] theorem isSafe_weaken {low : Option String} {key : String} (h : Above low key)
    (e : Entries (some key)) (p : Policy) : (e.weaken h).isSafe p = e.isSafe p := by
  cases e <;> rfl

end Entries

/-! ### Stripping -/

variable {p : Policy} {v : Value} {low : Option String}

/-- A plain value is kept as it is or goes, and it goes only if it is unsafe. -/
theorem Value.strip?_of_plain (isPlain : v.bundle? = none) :
    v.strip? p = if v.isSafe p then some v else none := by
  cases v <;> first | rfl | cases isPlain

@[simp] theorem Value.strip?_bundle (bag : Extras) :
    (Value.bundle bag).strip? p = some (.bundle (Entries.strip p bag)) := rfl

@[simp] theorem Value.isSafe_bundle (bag : Extras) :
    (Value.bundle bag).isSafe p = Entries.isSafe p bag := rfl

namespace Entries

@[simp] theorem strip_nil : (nil : Entries low).strip p = nil := rfl

theorem strip_cons_of_some {key : String} {above : Above low key} {kept : Value}
    {rest : Entries (some key)} (h : v.strip? p = some kept) :
    (cons key above v rest).strip p = cons key above kept (rest.strip p) := by
  rw [strip, h]

theorem strip_cons_of_none {key : String} {above : Above low key} {rest : Entries (some key)}
    (h : v.strip? p = none) :
    (cons key above v rest).strip p = (rest.strip p).weaken above := by
  rw [strip, h]

theorem isSafe_cons_iff {key : String} {above : Above low key} {rest : Entries (some key)} :
    (cons key above v rest).isSafe p = true ↔ v.isSafe p = true ∧ rest.isSafe p = true := by
  rw [isSafe, Bool.and_eq_true]

/-- What holds of the entries without unapproved objects, by the three things that may happen to
an entry: its bag is stripped, it is kept, or it goes. -/
theorem strip_induction (p : Policy)
    {motive : (low : Option String) → Entries low → Entries low → Prop}
    (nil : ∀ {low : Option String}, motive low .nil .nil)
    (bundle : ∀ {low : Option String} (key : String) (above : Above low key) (bag : Extras)
      (rest : Entries (some key)), motive none bag (bag.strip p) →
      motive (some key) rest (rest.strip p) →
      motive low (.cons key above (.bundle bag) rest)
        (.cons key above (.bundle (bag.strip p)) (rest.strip p)))
    (keep : ∀ {low : Option String} (key : String) (above : Above low key) (value : Value)
      (rest : Entries (some key)), value.bundle? = none → value.isSafe p = true →
      motive (some key) rest (rest.strip p) →
      motive low (.cons key above value rest) (.cons key above value (rest.strip p)))
    (drop : ∀ {low : Option String} (key : String) (above : Above low key) (value : Value)
      (rest : Entries (some key)), value.bundle? = none → value.isSafe p = false →
      motive (some key) rest (rest.strip p) →
      motive low (.cons key above value rest) ((rest.strip p).weaken above))
    {low : Option String} (e : Entries low) : motive low e (e.strip p) := by
  induction e using nestedInduction with
  | nil => exact nil
  | cons key above value rest inner ih =>
    rcases value.plain_or_bundle with isPlain | ⟨bag, rfl⟩
    · cases safe : value.isSafe p with
      | true =>
        rw [strip_cons_of_some (by rw [Value.strip?_of_plain isPlain, if_pos safe])]
        exact keep key above value rest isPlain safe ih
      | false =>
        rw [strip_cons_of_none (by rw [Value.strip?_of_plain isPlain, safe]; rfl)]
        exact drop key above value rest isPlain safe ih
    · exact bundle key above bag rest (inner bag rfl) ih

/-- What is left holds no unapproved object. -/
theorem isSafe_strip (e : Entries low) : (e.strip p).isSafe p = true := by
  induction e using strip_induction p with
  | nil => rfl
  | bundle key above bag rest inner ih => exact isSafe_cons_iff.mpr ⟨inner, ih⟩
  | keep key above value rest isPlain safe ih => exact isSafe_cons_iff.mpr ⟨safe, ih⟩
  | drop key above value rest isPlain bad ih => rwa [isSafe_weaken]

/-- Entries without unapproved objects are left as they are. -/
theorem strip_of_isSafe {e : Entries low} (safe : e.isSafe p = true) : e.strip p = e := by
  induction e using strip_induction p with
  | nil => rfl
  | bundle key above bag rest inner ih =>
    obtain ⟨hbag, hrest⟩ := isSafe_cons_iff.mp safe
    rw [inner hbag, ih hrest]
  | keep key above value rest isPlain hvalue ih =>
    rw [ih (isSafe_cons_iff.mp safe).2]
  | drop key above value rest isPlain bad ih =>
    rw [(isSafe_cons_iff.mp safe).1] at bad
    cases bad

/-- The fixed points of stripping are the safe bags. -/
theorem strip_eq_self_iff {e : Entries low} : e.strip p = e ↔ e.isSafe p = true := by
  constructor
  · intro h
    rw [← h]
    exact isSafe_strip e
  · exact strip_of_isSafe

theorem strip_strip (e : Entries low) : (e.strip p).strip p = e.strip p :=
  strip_of_isSafe (isSafe_strip e)

/-- Stripping leaves the depth alone, as bags stay and objects do not nest. -/
theorem depth_strip (e : Entries low) : (e.strip p).depth = e.depth := by
  induction e using strip_induction p with
  | nil => rfl
  | bundle key above bag rest inner ih => rw [depth, depth, Value.depth, Value.depth, inner, ih]
  | keep key above value rest isPlain safe ih => rw [depth, depth, ih]
  | drop key above value rest isPlain bad ih =>
    have := rest.one_le_depth
    rw [depth_weaken, ih, depth, Value.depth_of_plain isPlain]
    omega

end Entries

/-! ### Sanitizing -/

namespace Extras

/-- Sanitizing yields the stripped bag, also where it hands the bag back as it is. -/
theorem extras_sanitize (e : Extras) (p : Policy) : (e.sanitize p).value.extras = e.strip p := by
  rw [sanitize]
  split
  · next safe => exact (Entries.strip_of_isSafe safe).symm
  · dsimp only
    split <;> rfl

end Extras

end ImsCall
