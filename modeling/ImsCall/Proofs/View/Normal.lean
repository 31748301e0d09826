import ImsCall.Proofs.View.Rebuild

/-!
# Bags in normal form

Rebuilding a bag from its view puts it into a normal form. Every field is written back as the value
it was read from, so almost nothing changes: only a radio technology that was read from its second
spelling comes back under the usual one. It replaces there whatever is no text.

So there is one case in which the rebuilt bag differs from the bag, and it does not arise a second
time.

## Main definitions

* `Extras.Misspells` — the radio technology is a text under its second spelling only

## Main results

* `Extras.get?_toExtras_view_key` — what the rebuilt bag holds under the key of a field
* `Extras.toExtras_view_normalizes` — the rebuilt bag, entry by entry
-/

namespace ImsCall

namespace Extras

variable {e : Extras} {f : Field} {k text : String}

/-- The second spelling of the radio technology holds a text, and the usual one holds none: nothing
at all, or a value of another kind. -/
def Misspells (e : Extras) (text : String) : Prop :=
  e.get? Field.alternateRadioKey = some (.string text) ∧
    ∀ other, e.get? Field.radioTechnology.key ≠ some (.string other)

theorem readAt?_key_eq_none_iff :
    Field.radioTechnology.readAt? e Field.radioTechnology.key = none ↔
      ∀ other, e.get? Field.radioTechnology.key ≠ some (.string other) := by
  rw [Option.eq_none_iff_forall_ne_some]
  exact forall_congr' fun other => not_congr readAt?_radioTechnology_eq_some_iff

/-- A bag misspells the radio technology exactly if the field is read from the second spelling. -/
theorem source?_eq_alternateRadioKey_iff :
    Field.radioTechnology.source? e = some Field.alternateRadioKey ↔ ∃ text, e.Misspells text := by
  rw [Field.source?_eq_some_iff, readAt?_key_eq_none_iff]
  constructor
  · rintro (⟨hkey, -⟩ | ⟨-, -, unread, hread⟩)
    · exact absurd hkey.symm (Field.key_ne_alternateRadioKey _)
    · obtain ⟨text, hread⟩ := Option.isSome_iff_exists.mp hread
      exact ⟨text, readAt?_radioTechnology_eq_some_iff.mp hread, unread⟩
  · rintro ⟨text, held, unread⟩
    have hread := readAt?_radioTechnology_eq_some_iff.mpr held
    exact .inr ⟨rfl, rfl, unread, Option.isSome_of_eq_some hread⟩

theorem Misspells.read? (h : e.Misspells text) : Field.radioTechnology.read? e = some text := by
  rw [Field.read?_eq, readAt?_key_eq_none_iff.mpr h.2, Option.none_or, if_pos rfl]
  exact readAt?_radioTechnology_eq_some_iff.mpr h.1

/-- Without a misspelling every field is read under its key. -/
theorem read?_eq_readAt?_key (spelled : ∀ text, ¬ e.Misspells text) (f : Field) :
    f.read? e = f.readAt? e f.key := by
  by_cases hf : f = .radioTechnology
  · subst hf
    cases hkey : Field.radioTechnology.readAt? e Field.radioTechnology.key with
    | some text => rw [Field.read?_eq, hkey, Option.some_or]
    | none =>
      rw [Field.read?_eq, hkey, Option.none_or, if_pos rfl, Option.eq_none_iff_forall_ne_some]
      intro text hread
      exact spelled text
        ⟨readAt?_radioTechnology_eq_some_iff.mp hread, readAt?_key_eq_none_iff.mp hkey⟩
  · exact Field.read?_of_ne hf

/-! ### The rebuilt bag, key by key -/

/-- Under the key of a field the rebuilt bag holds the field, and what was there if the field is
absent. -/
theorem get?_toExtras_view_key (e : Extras) (f : Field) :
    e.view.toExtras.get? f.key = ((f.read? e).map f.shape.write).or (e.get? f.key) := by
  have written : e.view.toExtras.get? f.key =
      ((f.read? e).map f.shape.write).or (e.residual.get? f.key) :=
    View.get?_applyTo_key e.view e.residual f
  rw [written, get?_residual_key, Field.read?_eq]
  cases f.readAt? e f.key <;> rfl

/-- A field that is read under its key, or not at all, comes back as it was. -/
theorem get?_toExtras_view_key_of_read? (h : f.read? e = f.readAt? e f.key) :
    e.view.toExtras.get? f.key = e.get? f.key := by
  rw [get?_toExtras_view_key, h]
  cases hread : f.readAt? e f.key with
  | none => rw [Option.map_none, Option.none_or]
  | some c => rw [Option.map_some, Option.some_or, Field.get?_of_readAt? hread]

/-- Under a key of no field the rebuilt bag holds what the view left over. -/
theorem get?_toExtras_view_of_forall_ne (h : ∀ f : Field, f.key ≠ k) :
    e.view.toExtras.get? k = e.residual.get? k :=
  View.get?_applyTo_of_forall_ne e.view e.residual h

/-! ### The whole bag -/

/-- A bag that misspells the radio technology comes back with the usual spelling. -/
theorem toExtras_view_of_misspells (h : e.Misspells text) :
    e.view.toExtras =
      (e.insert Field.radioTechnology.key (.string text)).erase Field.alternateRadioKey := by
  refine ext_keys (fun f => ?field) ?second fun k unknown hk => ?other
  case field =>
    rw [get?_erase, get?_insert, if_neg f.key_ne_alternateRadioKey]
    by_cases hf : f = .radioTechnology
    · subst hf
      rw [if_pos rfl, get?_toExtras_view_key, h.read?]
      rfl
    · rw [if_neg fun hkey => hf (Field.key_injective hkey)]
      exact get?_toExtras_view_key_of_read? (Field.read?_of_ne hf)
  case second =>
    have taken := source?_eq_alternateRadioKey_iff.mpr ⟨text, h⟩
    rw [get?_toExtras_view_of_forall_ne Field.key_ne_alternateRadioKey,
      get?_residual_alternateRadioKey, if_pos taken, get?_erase, if_pos rfl]
  case other =>
    rw [get?_toExtras_view_of_forall_ne unknown, get?_residual_of_forall_ne unknown hk, get?_erase,
      if_neg hk, get?_insert, if_neg fun hkey => unknown .radioTechnology hkey.symm]

/-- The second spelling is gone then. -/
theorem Misspells.get?_toExtras_view (h : e.Misspells text) :
    e.view.toExtras.get? Field.alternateRadioKey = none := by
  rw [toExtras_view_of_misspells h, get?_erase, if_pos rfl]

/-- Every other bag comes back as it was. -/
theorem toExtras_view_of_not_misspells (spelled : ∀ text, ¬ e.Misspells text) :
    e.view.toExtras = e := by
  refine ext_keys (fun f => ?field) ?second fun k unknown hk => ?other
  case field => exact get?_toExtras_view_key_of_read? (read?_eq_readAt?_key spelled f)
  case second =>
    have unread : Field.radioTechnology.source? e ≠ some Field.alternateRadioKey := fun taken =>
      not_exists.mpr spelled (source?_eq_alternateRadioKey_iff.mp taken)
    rw [get?_toExtras_view_of_forall_ne Field.key_ne_alternateRadioKey,
      get?_residual_alternateRadioKey, if_neg unread]
  case other =>
    rw [get?_toExtras_view_of_forall_ne unknown, get?_residual_of_forall_ne unknown hk]

/-- **The rebuilt bag, entry by entry.** A radio technology that is a text under its second spelling
only is put under the usual one, in place of what was there, and nothing else ever changes. So the
bags that come back as they were are the ones that do not misspell it, and rebuilding a bag twice
is rebuilding it once. -/
theorem toExtras_view_normalizes (e : Extras) :
    (∀ text, e.Misspells text → e.view.toExtras =
        (e.insert Field.radioTechnology.key (.string text)).erase Field.alternateRadioKey) ∧
      (e.view.toExtras = e ↔ ∀ text, ¬ e.Misspells text) ∧
      e.view.toExtras.view.toExtras = e.view.toExtras := by
  refine ⟨fun _ => toExtras_view_of_misspells, ⟨?moved, toExtras_view_of_not_misspells⟩, ?again⟩
  case moved =>
    intro same text h
    have gone := h.get?_toExtras_view
    rw [same, h.1] at gone
    cases gone
  case again =>
    by_cases misspelled : ∃ text, e.Misspells text
    · obtain ⟨text, h⟩ := misspelled
      apply toExtras_view_of_not_misspells
      rintro other ⟨held, -⟩
      rw [h.get?_toExtras_view] at held
      cases held
    · have spelled := not_exists.mp misspelled
      rw [toExtras_view_of_not_misspells spelled, toExtras_view_of_not_misspells spelled]

end Extras

end ImsCall
