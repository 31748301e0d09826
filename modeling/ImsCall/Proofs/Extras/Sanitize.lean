import ImsCall.Proofs.Extras.Path

/-!
# Sanitizing at every depth

Sanitizing first asks whether a bag holds anything to take out, and only if it does, builds another
bag. The question and the building are two recursions over the same nested bags, and they have to
classify every value alike: an object that the question passes over would leave the process
through a bag that is handed back as it is.

They are compared here, and what sanitizing takes out is said by paths. At the end of a path an
object stays if its type name starts with one of the namespaces and goes otherwise, a bag stays,
however little is left in it, and everything else stays as it is.

## Main definitions

* `Policy.Covers` — a type name starts with one of the namespaces of a policy

## Main results

* `Extras.strip_eq_ofList` — the stripped bag, as it is built entry by entry
* `Extras.keeps_sanitize` — what is left at the end of every path
* `Extras.sanitize_shortcut` — handing the bag back is the same as building it
-/

namespace ImsCall

variable {p : Policy}

/-! ### Type names -/

/-- A type name starts with one of the namespaces of a policy. -/
def Policy.Covers (p : Policy) (typeName : String) : Prop :=
  ∃ ns ∈ p.namespaces, ∃ rest, typeName = ns ++ rest

theorem Policy.approves_iff_covers {typeName : String} :
    p.approves typeName = true ↔ p.Covers typeName := by
  have starts : ∀ ns : String,
      ns.toList.isPrefixOf typeName.toList = true ↔ ∃ rest, typeName = ns ++ rest := by
    intro ns
    rw [List.isPrefixOf_iff_prefix]
    constructor
    · rintro ⟨rest, h⟩
      refine ⟨String.ofList rest, String.toList_inj.mp ?_⟩
      rw [String.toList_append, String.toList_ofList, h]
    · rintro ⟨rest, rfl⟩
      rw [String.toList_append]
      exact List.prefix_append ns.toList rest.toList
  rw [approves, List.any_eq_true]
  simp only [starts]
  rfl

/-! ### Building the stripped bag -/

namespace Entries

/-- Writing entries into a bag overrides it where they answer. -/
theorem get?_extend_toList : {low : Option String} → (e : Entries low) → (bag : Extras) →
    (k : String) → (bag.extend e.toList).get? k = (e.get? k).or (bag.get? k)
  | _, .nil, _, _ => rfl
  | _, .cons key above value rest, bag, k => by
    rw [toList_cons, Extras.extend_cons, get?_extend_toList rest, Extras.get?_insert, get?]
    by_cases hk : k = key
    · subst hk
      rw [if_pos rfl, if_pos rfl, get?_eq_none rest (String.lt_irrefl k)]
      rfl
    · rw [if_neg hk, if_neg hk]

/-- Stripping goes entry by entry: each is kept under its key, or goes. -/
theorem toList_strip (p : Policy) : {low : Option String} → (e : Entries low) →
    (e.strip p).toList =
      e.toList.filterMap fun entry => (entry.2.strip? p).map fun kept => (entry.1, kept)
  | _, .nil => rfl
  | _, .cons key above value rest => by
    rw [toList_cons, List.filterMap_cons]
    cases h : value.strip? p with
    | none => rw [strip_cons_of_none h, toList_weaken, toList_strip p rest]; rfl
    | some kept => rw [strip_cons_of_some h, toList_cons, toList_strip p rest]; rfl

end Entries

namespace Extras

/-- A bag is made again of its entries. -/
theorem ofList_toList (e : Extras) : ofList e.toList = e := by
  apply ext_get?
  intro k
  rw [ofList, Entries.get?_extend_toList, get?_empty, Option.or_none]
  rfl

/-- **The stripped bag is built entry by entry**: what is kept of a value is written under its key,
into a bag that has no entries at first. -/
theorem strip_eq_ofList (e : Extras) (p : Policy) :
    e.strip p =
      ofList (e.toList.filterMap fun entry =>
        (entry.2.strip? p).map fun kept => (entry.1, kept)) := by
  rw [← Entries.toList_strip]
  exact (ofList_toList (e.strip p)).symm

/-! ### What is left -/

/-- Of a bag, sanitizing keeps the objects of the types that the policy covers. -/
theorem keeps_strip (e : Extras) (p : Policy) : e.Keeps p.Covers (e.strip p) := by
  refine (keeps_foldl_strip [p] e).congr fun name => ?_
  rw [List.forall_mem_singleton, Policy.approves_iff_covers]

/-- **What is left at the end of every path.** Objects of types that the policy does not cover are
gone, and nothing else is. A nested bag is sanitized in its place, also if that leaves nothing of
it, and bags nest as deep as before. -/
theorem keeps_sanitize (e : Extras) (p : Policy) :
    e.Keeps p.Covers (e.sanitize p).value.extras ∧
      (∀ path (bag : Extras), e.at? path = some (.bundle bag) →
        (e.sanitize p).value.extras.at? path = some (.bundle (bag.sanitize p).value.extras)) ∧
      (e.sanitize p).value.extras.depth = e.depth := by
  simp only [extras_sanitize]
  refine ⟨e.keeps_strip p, ?nested, Entries.depth_strip e⟩
  case nested =>
    intro path bag found
    rw [at?_strip, found, Option.bind_some]
    exact Value.strip?_bundle bag

/-! ### Handing a bag back -/

theorem sanitize_of_isSafe {e : Extras} (safe : e.isSafe p = true) :
    e.sanitize p = pure ⟨e, true⟩ := by
  rw [sanitize, if_pos safe]

theorem untouched_sanitize (e : Extras) (p : Policy) :
    (e.sanitize p).value.untouched = e.isSafe p := by
  by_cases safe : e.isSafe p = true
  · rw [sanitize_of_isSafe safe, safe]
    rfl
  · rw [sanitize, if_neg safe, Bool.eq_false_of_not_eq_true safe]
    dsimp only
    split <;> rfl

/-- Only a bag without unapproved objects leads to something wherever it did before. -/
theorem strip_eq_self_of_forall_isSome {e : Extras}
    (h : ∀ path, (e.at? path).isSome → ((e.strip p).at? path).isSome) : e.strip p = e := by
  apply Alike.eq
  intro path
  have stays := h path
  have rule := e.keeps_strip p path
  generalize e.at? path = before at stays rule
  generalize (e.strip p).at? path = after at stays rule
  cases rule with
  | bundle a b => exact .bundles b a
  | dropped o => exact absurd (stays rfl) Bool.false_ne_true
  | _ => exact .same _

/-- **Handing a bag back is the same as building it.** A bag is safe exactly if building it anew,
entry by entry, changes nothing. So sanitizing yields what would be built, whether it builds it or
not. The bag is handed back exactly if nothing is removed at the end of any path, and a bag that
was sanitized before is handed back without a report. -/
theorem sanitize_shortcut (e : Extras) (p : Policy) :
    (e.isSafe p = true ↔ e.strip p = e) ∧
      (e.sanitize p).value.extras = e.strip p ∧
      e.strip p = ofList (e.toList.filterMap fun entry =>
        (entry.2.strip? p).map fun kept => (entry.1, kept)) ∧
      ((e.sanitize p).value.untouched = true → (e.sanitize p).value.extras = e) ∧
      ((e.sanitize p).value.untouched = true ↔
        ∀ path, (e.at? path).isSome → ((e.sanitize p).value.extras.at? path).isSome) ∧
      (e.sanitize p).value.extras.sanitize p = ⟨⟨(e.sanitize p).value.extras, true⟩, []⟩ := by
  have fixed : e.isSafe p = true ↔ e.strip p = e := Entries.strip_eq_self_iff.symm
  rw [untouched_sanitize, extras_sanitize]
  refine ⟨fixed, rfl, e.strip_eq_ofList p, fixed.mp, ⟨?stays, ?lossless⟩, ?again⟩
  case stays =>
    intro safe path found
    rwa [fixed.mp safe]
  case lossless => exact fun h => fixed.mpr (strip_eq_self_of_forall_isSome h)
  case again => exact sanitize_of_isSafe (Entries.isSafe_strip e)

end Extras

end ImsCall
