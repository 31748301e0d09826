import Mathlib
import ImsCall.Extras.View

/-!
# Views, key by key

A view is taken from a bag by nineteen conditional reads, and written back by nineteen conditional
writes. A bag is known by its answers, so both are described here by what they leave under each
key; after that, neither is unfolded again.

What keeps the fields out of each other's way is that no two of them share a key. The radio
technology is the one field with a second spelling: it is read from either and written under the
usual one, so the second spelling is a key of no field.

## Main results

* `Field.key_injective`, `Field.key_ne_alternateRadioKey` — no two fields share a key
* `Field.read?_eq`, `Field.source?_eq_some_iff` — where a field is read
* `Extras.ext_keys` — equality of bags, by the three sorts of keys
* `View.get?_applyTo_key`, `View.get?_applyTo_of_forall_ne` — what applying a view leaves
* `Extras.get?_residual_key`, `Extras.get?_residual_alternateRadioKey`,
  `Extras.get?_residual_of_forall_ne` — what a view leaves over
* `Field.read?_applyTo`, `Field.read?_residual` — reading again, after either of them
-/

namespace ImsCall

namespace Field

variable {e : Extras} {f g : Field} {k : String}

/-! ### Keys -/

theorem nodup_map_key : (all.map key).Nodup := by decide

theorem key_injective (h : f.key = g.key) : f = g :=
  List.inj_on_of_nodup_map nodup_map_key f.mem_all g.mem_all h

/-- The second spelling of the radio technology is a key of no field. -/
theorem key_ne_alternateRadioKey (f : Field) : f.key ≠ alternateRadioKey := by
  cases f <;> decide

theorem spellings_of_ne (h : f ≠ .radioTechnology) : f.spellings = [f.key] := by
  cases f <;> first | rfl | exact absurd rfl h

theorem spellings_radioTechnology :
    spellings .radioTechnology = [key .radioTechnology, alternateRadioKey] := rfl

/-! ### Reading -/

/-- A field is read under its key, and the radio technology under its second spelling if its key
reads as nothing. -/
theorem read?_eq (f : Field) (e : Extras) :
    f.read? e = (f.readAt? e f.key).or
      (if f = .radioTechnology then f.readAt? e alternateRadioKey else none) := by
  by_cases hf : f = .radioTechnology
  · subst hf
    rw [read?, spellings_radioTechnology, if_pos rfl, List.findSome?_cons, List.findSome?_cons]
    cases readAt? .radioTechnology e (key .radioTechnology) <;>
      cases readAt? .radioTechnology e alternateRadioKey <;> rfl
  · rw [read?, spellings_of_ne hf, if_neg hf, List.findSome?_cons]
    cases f.readAt? e f.key <;> rfl

theorem read?_of_ne (h : f ≠ .radioTechnology) : f.read? e = f.readAt? e f.key := by
  rw [read?_eq, if_neg h, Option.or_none]

/-- The entry that a field takes: the one under its key if that can be read, and otherwise, for
the radio technology, the one under the second spelling. -/
theorem source?_eq_some_iff :
    f.source? e = some k ↔
      (k = f.key ∧ (f.readAt? e f.key).isSome) ∨
        (f = .radioTechnology ∧ k = alternateRadioKey ∧ f.readAt? e f.key = none ∧
          (f.readAt? e alternateRadioKey).isSome) := by
  by_cases hf : f = .radioTechnology
  · subst hf
    rw [source?, spellings_radioTechnology, List.find?_cons, List.find?_cons]
    cases readAt? .radioTechnology e (key .radioTechnology) <;>
      cases readAt? .radioTechnology e alternateRadioKey <;> simp [@eq_comm _ k]
  · rw [source?, spellings_of_ne hf, List.find?_cons]
    cases f.readAt? e f.key with
    | none => simp [hf]
    | some c => simp [hf, @eq_comm _ f.key k]

/-- Reading under a key depends on the answer under that key alone. -/
theorem readAt?_congr {a b : Extras} (h : a.get? k = b.get? k) (f : Field) :
    f.readAt? a k = f.readAt? b k := by
  rw [readAt?, readAt?, h]

/-- A field that is read under a key is what that key holds. -/
theorem get?_of_readAt? {c : f.Carrier} (h : f.readAt? e k = some c) :
    e.get? k = some (f.shape.write c) := by
  obtain ⟨value, held, hread⟩ := Option.bind_eq_some_iff.mp h
  rw [held, Shape.write_of_read? hread]

theorem readAt?_of_get? {c : f.Carrier} (h : e.get? k = some (f.shape.write c)) :
    f.readAt? e k = some c := by
  rw [readAt?, h, Option.bind_some, Shape.read?_write]

end Field

/-- Bags are equal if they answer alike under the keys of all fields, under the second spelling of
the radio technology, and under every key without defined semantics. -/
theorem Extras.ext_keys {a b : Extras} (field : ∀ f : Field, a.get? f.key = b.get? f.key)
    (second : a.get? Field.alternateRadioKey = b.get? Field.alternateRadioKey)
    (other : ∀ k, (∀ f : Field, f.key ≠ k) → k ≠ Field.alternateRadioKey → a.get? k = b.get? k) :
    a = b := by
  apply ext_get?
  intro k
  by_cases known : ∃ f : Field, f.key = k
  · obtain ⟨f, rfl⟩ := known
    exact field f
  · by_cases hk : k = Field.alternateRadioKey
    · rw [hk, second]
    · exact other k (not_exists.mp known) hk

/-! ### Applying a view -/

namespace View

variable {f : Field} {k : String}

theorem get?_writeField_self (v : View) (e : Extras) (f : Field) :
    (v.writeField e f).get? f.key = ((v.field f).map f.shape.write).or (e.get? f.key) := by
  rw [writeField]
  cases v.field f with
  | none => rfl
  | some c => rw [Extras.get?_insert, if_pos rfl, Option.map_some, Option.some_or]

theorem get?_writeField_of_ne (v : View) (e : Extras) (h : f.key ≠ k) :
    (v.writeField e f).get? k = e.get? k := by
  rw [writeField]
  cases v.field f with
  | none => rfl
  | some c => rw [Extras.get?_insert, if_neg h.symm]

/-- Writing fields leaves every key alone that is not one of theirs. -/
theorem get?_foldl_writeField_of_forall_ne (v : View) (fs : List Field) (e : Extras)
    (h : ∀ f ∈ fs, f.key ≠ k) : (fs.foldl v.writeField e).get? k = e.get? k := by
  induction fs generalizing e with
  | nil => rfl
  | cons f fs ih =>
    rw [List.forall_mem_cons] at h
    rw [List.foldl_cons, ih _ h.2, get?_writeField_of_ne v e h.1]

/-- Writing a field twice is writing it once, so it does not matter how often it is listed. -/
theorem get?_foldl_writeField (v : View) (fs : List Field) (e : Extras) (h : f ∈ fs) :
    (fs.foldl v.writeField e).get? f.key =
      ((v.field f).map f.shape.write).or (e.get? f.key) := by
  induction fs generalizing e with
  | nil => exact absurd h List.not_mem_nil
  | cons g fs ih =>
    rw [List.foldl_cons]
    by_cases later : f ∈ fs
    · rw [ih _ later]
      by_cases hg : g = f
      · rw [hg, get?_writeField_self, ← Option.or_assoc, Option.or_self]
      · rw [get?_writeField_of_ne v e fun hkey => hg (Field.key_injective hkey)]
    · obtain rfl : f = g := (List.mem_cons.mp h).resolve_right later
      have others : ∀ g ∈ fs, g.key ≠ f.key := by
        intro g hg hkey
        exact later (Field.key_injective hkey ▸ hg)
      rw [get?_foldl_writeField_of_forall_ne v fs _ others, get?_writeField_self]

/-- A field that is present is what its key holds afterwards. -/
theorem get?_applyTo_key (v : View) (e : Extras) (f : Field) :
    (v.applyTo e).get? f.key = ((v.field f).map f.shape.write).or (e.get? f.key) :=
  get?_foldl_writeField v Field.all e f.mem_all

/-- A key of no field holds what it held. -/
theorem get?_applyTo_of_forall_ne (v : View) (e : Extras) (h : ∀ f : Field, f.key ≠ k) :
    (v.applyTo e).get? k = e.get? k :=
  get?_foldl_writeField_of_forall_ne v Field.all e fun f _ => h f

end View

/-! ### What a view leaves over -/

namespace Extras

variable {e : Extras} {f : Field} {k : String}

theorem get?_foldl_erase (ks : List String) (e : Extras) (k : String) :
    (ks.foldl Extras.erase e).get? k = if k ∈ ks then none else e.get? k := by
  induction ks generalizing e with
  | nil => rfl
  | cons j ks ih =>
    rw [List.foldl_cons, ih, get?_erase]
    by_cases hj : k = j <;> simp [hj]

/-- An entry that a field takes is not left over. -/
theorem get?_residual_of_source (h : f.source? e = some k) : e.residual.get? k = none := by
  have mem : k ∈ Field.all.filterMap fun f => f.source? e :=
    List.mem_filterMap.mpr ⟨f, f.mem_all, h⟩
  rw [residual, get?_foldl_erase, if_pos mem]

/-- An entry that no field takes is left over as it is. -/
theorem get?_residual_of_not_source (h : ∀ f : Field, f.source? e ≠ some k) :
    e.residual.get? k = e.get? k := by
  have mem : k ∉ Field.all.filterMap fun f => f.source? e := by
    intro mem
    obtain ⟨f, -, hf⟩ := List.mem_filterMap.mp mem
    exact h f hf
  rw [residual, get?_foldl_erase, if_neg mem]

/-- The key of a field is left over if it does not hold a value for the field. -/
theorem get?_residual_key (e : Extras) (f : Field) :
    e.residual.get? f.key = if (f.readAt? e f.key).isSome then none else e.get? f.key := by
  by_cases taken : (f.readAt? e f.key).isSome
  · rw [if_pos taken]
    exact get?_residual_of_source (Field.source?_eq_some_iff.mpr (.inl ⟨rfl, taken⟩))
  · rw [if_neg taken]
    apply get?_residual_of_not_source
    intro g hg
    rcases Field.source?_eq_some_iff.mp hg with ⟨hkey, hread⟩ | ⟨-, hkey, -⟩
    · exact taken (Field.key_injective hkey ▸ hread)
    · exact f.key_ne_alternateRadioKey hkey

/-- The second spelling of the radio technology is left over unless the field is read from it. -/
theorem get?_residual_alternateRadioKey (e : Extras) :
    e.residual.get? Field.alternateRadioKey =
      if Field.radioTechnology.source? e = some Field.alternateRadioKey then none
      else e.get? Field.alternateRadioKey := by
  by_cases taken : Field.radioTechnology.source? e = some Field.alternateRadioKey
  · rw [if_pos taken, get?_residual_of_source taken]
  · rw [if_neg taken]
    apply get?_residual_of_not_source
    intro g hg
    rcases Field.source?_eq_some_iff.mp hg with ⟨hkey, -⟩ | ⟨rfl, -⟩
    · exact g.key_ne_alternateRadioKey hkey.symm
    · exact taken hg

/-- A key without defined semantics is left over. -/
theorem get?_residual_of_forall_ne (h : ∀ f : Field, f.key ≠ k)
    (hk : k ≠ Field.alternateRadioKey) : e.residual.get? k = e.get? k := by
  apply get?_residual_of_not_source
  intro f hf
  rcases Field.source?_eq_some_iff.mp hf with ⟨hkey, -⟩ | ⟨-, hkey, -⟩
  · exact h f hkey.symm
  · exact hk hkey

end Extras

/-! ### Reading again -/

namespace Field

variable {e : Extras} {f : Field} {v : View}

theorem readAt?_applyTo_key (f : Field) (v : View) (e : Extras) :
    f.readAt? (v.applyTo e) f.key = (v.field f).or (f.readAt? e f.key) := by
  cases present : v.field f with
  | none =>
    have same : (v.applyTo e).get? f.key = e.get? f.key := by
      rw [View.get?_applyTo_key, present, Option.map_none, Option.none_or]
    rw [readAt?_congr same, Option.none_or]
  | some c =>
    rw [Option.some_or]
    apply readAt?_of_get?
    rw [View.get?_applyTo_key, present, Option.map_some, Option.some_or]

/-- After a view was applied, a field reads as the view has it, and otherwise as before. -/
theorem read?_applyTo (f : Field) (v : View) (e : Extras) :
    f.read? (v.applyTo e) = (v.field f).or (f.read? e) := by
  rw [read?_eq, read?_eq, readAt?_applyTo_key, Option.or_assoc,
    readAt?_congr (v.get?_applyTo_of_forall_ne e key_ne_alternateRadioKey)]

/-- What is left over under the key of a field does not read as the field. -/
theorem readAt?_residual_key (f : Field) (e : Extras) : f.readAt? e.residual f.key = none := by
  cases taken : f.readAt? e f.key with
  | none =>
    have same : e.residual.get? f.key = e.get? f.key := by
      rw [Extras.get?_residual_key, taken]
      rfl
    rw [readAt?_congr same, taken]
  | some c => rw [readAt?, Extras.get?_residual_key, taken, Option.isSome_some, if_pos rfl,
      Option.bind_none]

/-- A field that reads as nothing does so in what is left over, too. -/
theorem read?_residual (h : f.read? e = none) : f.read? e.residual = none := by
  rw [read?_eq, Option.or_eq_none_iff] at h
  rw [read?_eq, readAt?_residual_key, Option.none_or]
  by_cases hf : f = .radioTechnology
  · subst hf
    rw [if_pos rfl] at h
    have unread : source? .radioTechnology e ≠ some alternateRadioKey := by
      intro taken
      rcases source?_eq_some_iff.mp taken with ⟨hkey, -⟩ | ⟨-, -, -, hread⟩
      · exact key_ne_alternateRadioKey _ hkey.symm
      · rw [h.2] at hread
        cases hread
    have same : e.residual.get? alternateRadioKey = e.get? alternateRadioKey := by
      rw [Extras.get?_residual_alternateRadioKey, if_neg unread]
    rw [if_pos rfl, readAt?_congr same, h.2]
  · rw [if_neg hf]

end Field

namespace Extras

theorem get?_residual_applyTo_key (v : View) (e : Extras) (f : Field) :
    (v.applyTo e).residual.get? f.key =
      if (v.field f).isSome then none else e.residual.get? f.key := by
  rw [get?_residual_key, Field.readAt?_applyTo_key, View.get?_applyTo_key, get?_residual_key]
  cases v.field f with
  | none => rfl
  | some c => rfl

end Extras

end ImsCall
