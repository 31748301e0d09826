import ImsCall.Proofs.View.Basic

/-!
# Rebuilding a bag from its view

A view holds every entry of the bag it was taken from, as a field or in the residual, and the bag
is rebuilt by writing the fields into the residual. One field may come back under another key than
it was read from: a radio technology that was read from its second spelling is written under the
usual one.

That has a consequence. The second spelling is read not only where the usual one holds nothing,
but also where it holds something that is no text. Such a value is in the residual, and the
rebuilt bag has the text in its place. So the rebuilt bag has every field, and every entry of the
residual but that one.

## Main definitions

* `Extras.HidesRadio` — the usual spelling holds something that is no text, the second one a text

## Main results

* `Extras.read?_toExtras_view` — fields survive
* `Extras.view_toExtras_view_eq_iff` — the whole view does, unless the bag hides a value
-/

namespace ImsCall

namespace Extras

variable {e : Extras} {f : Field} {k text : String}

/-- The usual spelling of the radio technology holds something that is no text, and the second
one holds a text. -/
def HidesRadio (e : Extras) : Prop :=
  (∃ value, e.get? Field.radioTechnology.key = some value ∧ value.string? = none) ∧
    ∃ text, e.get? Field.alternateRadioKey = some (.string text)

/-! ### Fields -/

/-- **Every field survives.** -/
theorem read?_toExtras_view (e : Extras) (f : Field) :
    f.read? e.view.toExtras = f.read? e := by
  have applied : f.read? e.view.toExtras = (f.read? e).or (f.read? e.residual) :=
    f.read?_applyTo e.view e.residual
  rw [applied]
  cases absent : f.read? e with
  | none => rw [Field.read?_residual absent, Option.none_or]
  | some c => rw [Option.some_or]

/-! ### The residual -/

/-- Under the key of a field that is present, nothing is left over. -/
theorem get?_residual_toExtras_view_key (e : Extras) (f : Field) :
    e.view.toExtras.residual.get? f.key =
      if (f.read? e).isSome then none else e.residual.get? f.key := by
  have left : e.residual.residual.get? f.key = e.residual.get? f.key := by
    rw [get?_residual_key, Field.readAt?_residual_key]
    rfl
  rw [← left]
  exact get?_residual_applyTo_key e.view e.residual f

/-- Every other key keeps what was left over there, the second spelling of the radio technology
included. -/
theorem get?_residual_toExtras_view_of_forall_ne (h : ∀ f : Field, f.key ≠ k) :
    e.view.toExtras.residual.get? k = e.residual.get? k := by
  have applied : e.view.toExtras.get? k = e.residual.get? k :=
    View.get?_applyTo_of_forall_ne e.view e.residual h
  by_cases hk : k = Field.alternateRadioKey
  · subst hk
    have unread :
        Field.radioTechnology.source? e.view.toExtras ≠ some Field.alternateRadioKey := by
      intro taken
      rcases Field.source?_eq_some_iff.mp taken with ⟨hkey, -⟩ | ⟨-, -, hkey, hread⟩
      · exact Field.key_ne_alternateRadioKey _ hkey.symm
      -- The field is absent, as otherwise its key would hold it. So the second spelling, which is
      -- left over, reads as nothing.
      · have absent : Field.radioTechnology.read? e = none :=
          (Option.or_eq_none_iff.mp ((Field.readAt?_applyTo_key _ _ _).symm.trans hkey)).1
        have left := Field.read?_residual absent
        rw [Field.read?_eq, if_pos rfl, Option.or_eq_none_iff] at left
        rw [Field.readAt?_congr applied, left.2] at hread
        cases hread
    rw [get?_residual_alternateRadioKey, if_neg unread, applied]
  · rw [get?_residual_of_forall_ne h hk, applied]

theorem readAt?_radioTechnology_eq_some_iff :
    Field.radioTechnology.readAt? e k = some text ↔ e.get? k = some (.string text) :=
  ⟨Field.get?_of_readAt? (f := .radioTechnology), Field.readAt?_of_get? (f := .radioTechnology)⟩

theorem readAt?_radioTechnology_eq_none_iff :
    Field.radioTechnology.readAt? e k = none ↔ ∀ value ∈ e.get? k, value.string? = none :=
  Option.bind_eq_none_iff

/-- The fields that are present leave nothing over under their keys, unless the bag hides a value
of the radio technology. -/
theorem get?_residual_key_of_not_hidesRadio (h : ¬ e.HidesRadio) (present : (f.read? e).isSome) :
    e.residual.get? f.key = none := by
  rw [get?_residual_key]
  cases unread : f.readAt? e f.key with
  | some c => rfl
  | none =>
    rw [Field.read?_eq, unread, Option.none_or] at present
    by_cases hf : f = .radioTechnology
    · subst hf
      rw [if_pos rfl] at present
      obtain ⟨text, hread⟩ := Option.isSome_iff_exists.mp present
      cases held : e.get? Field.radioTechnology.key with
      | none => rfl
      | some value =>
        have noText := readAt?_radioTechnology_eq_none_iff.mp unread value held
        exact absurd ⟨⟨value, held, noText⟩, text,
          readAt?_radioTechnology_eq_some_iff.mp hread⟩ h
    · rw [if_neg hf] at present
      cases present

/-- If it does, the value is left over. -/
theorem HidesRadio.get?_residual (h : e.HidesRadio) :
    (Field.radioTechnology.read? e).isSome ∧
      e.residual.get? Field.radioTechnology.key ≠ none := by
  obtain ⟨⟨value, held, noText⟩, text, hread⟩ := h
  have unread : Field.radioTechnology.readAt? e Field.radioTechnology.key = none := by
    rw [readAt?_radioTechnology_eq_none_iff, held]
    rintro _ ⟨⟩
    exact noText
  constructor
  · rw [Field.read?_eq, unread, if_pos rfl, Option.none_or,
      readAt?_radioTechnology_eq_some_iff.mpr hread]
    rfl
  · rw [get?_residual_key, unread, held]
    exact Option.some_ne_none value

/-- What is left over is left over again, unless it gives way to a field that is present. -/
theorem get?_residual_toExtras_view
    (h : ∀ f : Field, f.key = k → (f.read? e).isSome → e.residual.get? k = none) :
    e.view.toExtras.residual.get? k = e.residual.get? k := by
  by_cases known : ∃ f : Field, f.key = k
  · obtain ⟨f, rfl⟩ := known
    rw [get?_residual_toExtras_view_key]
    split
    · next present => exact (h f rfl present).symm
    · rfl
  · exact get?_residual_toExtras_view_of_forall_ne (not_exists.mp known)

/-! ### The whole view -/

/-- **The view of the rebuilt bag** has every field as it was, and everything that was left over
but under the usual spelling of the radio technology. It is the same view unless the bag hides a
value there. -/
theorem view_toExtras_view_eq_iff (e : Extras) :
    (∀ f, e.view.toExtras.view.field f = e.view.field f) ∧
      (∀ k, k ≠ Field.radioTechnology.key →
        e.view.toExtras.view.residual.get? k = e.view.residual.get? k) ∧
      (e.view.toExtras.view = e.view ↔ ¬ e.HidesRadio) := by
  refine ⟨read?_toExtras_view e, ?elsewhere, ?lost, ?restored⟩
  case elsewhere =>
    intro k hk
    apply get?_residual_toExtras_view
    rintro f rfl present
    have hf : f ≠ .radioTechnology := fun eq => hk (congrArg Field.key eq)
    rw [get?_residual_key, ← Field.read?_of_ne hf, if_pos present]
  case lost =>
    intro same hidden
    obtain ⟨present, left⟩ := hidden.get?_residual
    have lost : e.view.toExtras.residual.get? Field.radioTechnology.key = none := by
      rw [get?_residual_toExtras_view_key, if_pos present]
    have kept : e.view.toExtras.residual = e.residual := congrArg View.residual same
    rw [kept] at lost
    exact left lost
  case restored =>
    intro shown
    have field : e.view.toExtras.view.field = e.view.field := funext (read?_toExtras_view e)
    have residual : e.view.toExtras.residual = e.residual := by
      apply ext_get?
      intro k
      apply get?_residual_toExtras_view
      rintro f rfl present
      exact get?_residual_key_of_not_hidesRadio shown present
    exact congrArg₂ View.mk field residual

/-- A radio technology as a number under the usual spelling and as text under the second one. -/
def twoRadios : Extras :=
  ofList [(Field.radioTechnology.key, .int 14), (Field.alternateRadioKey, .string "14")]

/-- The number is left over by the view, and it is gone once the bag is rebuilt. -/
theorem view_toExtras_view_twoRadios :
    twoRadios.view.residual.get? Field.radioTechnology.key = some (.int 14) ∧
      twoRadios.view.toExtras.get? Field.radioTechnology.key = some (.string "14") ∧
      twoRadios.view.toExtras.view ≠ twoRadios.view := by
  have left : twoRadios.view.residual.get? Field.radioTechnology.key = some (.int 14) := by rfl
  have gone : twoRadios.view.toExtras.view.residual.get? Field.radioTechnology.key = none := by
    rfl
  refine ⟨left, by rfl, fun same => ?_⟩
  rw [same, left] at gone
  cases gone

end Extras

end ImsCall
