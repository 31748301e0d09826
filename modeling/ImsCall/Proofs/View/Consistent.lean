import ImsCall.Proofs.View.Split

/-!
# Views that come back

A view may be put together by hand, with any fields and any residual. The bag that is made of it
has a view again, and that may be another one. A residual entry under the key of a field that is
present is overwritten. One that fits a field that is absent is read as that field, and has then
gone from the residual.

These are the only two things that can go wrong. For the radio technology they are not each other's
mirror image: only the usual spelling is ever overwritten, but either of the two is read. So a text
under the second spelling is in the way of a view without the field, and of no other.

## Main definitions

* `View.Consistent` — nothing in the residual is in the way of a field

## Main results

* `Field.read?_eq_none_iff` — when a field reads as nothing
* `View.view_toExtras_eq_iff_reads` — the two things that can go wrong
* `View.view_toExtras_eq_iff` — the views that come back are the consistent ones
-/

namespace ImsCall

namespace Field

variable {e : Extras} {f : Field} {k : String}

theorem readAt?_eq_none_iff :
    f.readAt? e k = none ↔ ∀ value, e.get? k = some value → ¬ f.shape.Fits value := by
  rw [← Option.not_isSome_iff_eq_none, isSome_readAt?_iff]
  simp only [not_exists, not_and]

/-- A field reads as nothing if nothing fits it under any of its spellings. -/
theorem read?_eq_none_iff :
    f.read? e = none ↔
      ∀ k ∈ f.spellings, ∀ value, e.get? k = some value → ¬ f.shape.Fits value := by
  rw [read?, List.findSome?_eq_none_iff]
  exact forall₂_congr fun _ _ => readAt?_eq_none_iff

end Field

namespace View

variable {v : View} {k : String}

/-! ### The residual of the bag -/

/-- An entry under the key of a field stays in the residual, unless the field is present or reads
it. -/
theorem get?_residual_toExtras_key (v : View) (f : Field) :
    v.toExtras.residual.get? f.key =
      if (v.field f).isSome ∨ (f.readAt? v.residual f.key).isSome then none
      else v.residual.get? f.key := by
  rw [toExtras, Extras.get?_residual_applyTo_key, Extras.get?_residual_key]
  by_cases present : (v.field f).isSome
  · rw [if_pos present, if_pos (.inl present)]
  · rw [if_neg present]
    exact if_congr (or_iff_right present).symm rfl rfl

/-- A view without the radio technology leaves both spellings as they are, so the bag is read at
them like the residual. -/
theorem source?_toExtras_of_absent (absent : v.field .radioTechnology = none) :
    Field.radioTechnology.source? v.toExtras = Field.radioTechnology.source? v.residual := by
  refine Field.source?_congr fun k spelling => ?_
  rcases Field.mem_spellings_iff.mp spelling with rfl | ⟨-, rfl⟩
  · rw [toExtras, get?_applyTo_key, absent, Option.map_none, Option.none_or]
  · exact v.get?_applyTo_of_forall_ne v.residual Field.key_ne_alternateRadioKey

/-- The second spelling stays in the residual, unless the radio technology is absent and read from
it. -/
theorem get?_residual_toExtras_alternateRadioKey (v : View) :
    v.toExtras.residual.get? Field.alternateRadioKey =
      if v.field .radioTechnology = none ∧
          Field.radioTechnology.source? v.residual = some Field.alternateRadioKey then none
      else v.residual.get? Field.alternateRadioKey := by
  have kept : v.toExtras.get? Field.alternateRadioKey = v.residual.get? Field.alternateRadioKey :=
    v.get?_applyTo_of_forall_ne v.residual Field.key_ne_alternateRadioKey
  rw [Extras.get?_residual_alternateRadioKey, kept]
  cases hv : v.field .radioTechnology with
  | none =>
    rw [source?_toExtras_of_absent hv]
    exact if_congr (and_iff_right rfl).symm rfl rfl
  | some text =>
    -- the usual spelling holds the field, and comes first
    have usual : Field.radioTechnology.readAt? v.toExtras Field.radioTechnology.key = some text := by
      rw [toExtras, Field.readAt?_applyTo_key, hv, Option.some_or]
    have first : Field.radioTechnology.source? v.toExtras = some Field.radioTechnology.key :=
      Field.source?_eq_some_iff.mpr (.inl ⟨rfl, Option.isSome_of_eq_some usual⟩)
    rw [first, if_neg, if_neg]
    · rintro ⟨⟨⟩, -⟩
    · exact fun same => Field.key_ne_alternateRadioKey _ (Option.some.inj same)

/-- A key without defined semantics stays in the residual. -/
theorem get?_residual_toExtras_of_forall_ne (h : ∀ f : Field, f.key ≠ k)
    (hk : k ≠ Field.alternateRadioKey) : v.toExtras.residual.get? k = v.residual.get? k := by
  rw [Extras.get?_residual_of_forall_ne h hk]
  exact v.get?_applyTo_of_forall_ne v.residual h

/-! ### What can go wrong -/

/-- A view comes back if no field that is absent is read from the residual, and no field that is
present overwrites an entry there. -/
theorem view_toExtras_eq_iff_reads (v : View) :
    v.toExtras.view = v ↔
      (∀ f, v.field f = none → f.read? v.residual = none) ∧
        ∀ f, (v.field f).isSome → v.residual.get? f.key = none := by
  have reads : ∀ f, v.toExtras.view.field f = (v.field f).or (f.read? v.residual) := fun f =>
    f.read?_applyTo v v.residual
  constructor
  · intro same
    refine ⟨fun f absent => ?unread, fun f present => ?free⟩
    case unread =>
      have unread := reads f
      rwa [same, absent, Option.none_or, eq_comm] at unread
    case free =>
      have overwritten := v.get?_residual_toExtras_key f
      rw [if_pos (.inl present)] at overwritten
      rwa [← same]
  · rintro ⟨unread, free⟩
    refine congrArg₂ View.mk (funext fun f => ?field) ?residual
    case field =>
      refine (reads f).trans ?_
      cases hv : v.field f with
      | none => rw [Option.none_or, unread f hv]
      | some c => rw [Option.some_or]
    case residual =>
      refine Extras.ext_keys (fun f => ?key) ?second fun k unknown hk => ?other
      case key =>
        rw [get?_residual_toExtras_key]
        by_cases present : (v.field f).isSome
        · rw [if_pos (.inl present), free f present]
        · have unread := unread f (Option.not_isSome_iff_eq_none.mp present)
          rw [Field.read?_eq, Option.or_eq_none_iff] at unread
          rw [if_neg]
          rintro (present' | fits)
          · exact present present'
          · rw [unread.1] at fits
            cases fits
      case second =>
        rw [get?_residual_toExtras_alternateRadioKey, if_neg]
        rintro ⟨absent, source⟩
        have unread := unread _ absent
        rw [Field.read?_eq_bind_source?, source, Option.bind_some] at unread
        obtain ⟨-, ⟨value, held, fits⟩, -⟩ := Field.source?_eq_some_iff_takes.mp source
        exact Field.readAt?_eq_none_iff.mp unread value held fits
      case other => exact get?_residual_toExtras_of_forall_ne unknown hk

/-! ### Consistent views -/

/-- Nothing in the residual of a view is in the way of a field. -/
structure Consistent (v : View) : Prop where
  /-- The key of a field that is present is free. -/
  free : ∀ f, (v.field f).isSome → v.residual.get? f.key = none
  /-- The key of a field that is absent holds nothing that fits the field. -/
  unfit : ∀ f value, v.field f = none → v.residual.get? f.key = some value → ¬ f.shape.Fits value
  /-- If the radio technology is absent, there is no text under either of its spellings. -/
  noText : v.field .radioTechnology = none →
    ∀ text, v.residual.get? Field.radioTechnology.key ≠ some (.string text) ∧
      v.residual.get? Field.alternateRadioKey ≠ some (.string text)

/-- **The views that come back are the consistent ones**: the bag of a view has this view again
exactly if its residual holds nothing under the key of a field that is present, nothing that fits
under the key of one that is absent and, without a radio technology, no text under either spelling
of it. -/
theorem view_toExtras_eq_iff (v : View) : v.toExtras.view = v ↔ v.Consistent := by
  rw [view_toExtras_eq_iff_reads]
  constructor
  · rintro ⟨unread, free⟩
    refine ⟨free, fun f value absent => ?unfit, fun absent text => ⟨?usual, ?second⟩⟩
    case unfit =>
      have spelling : f.key ∈ f.spellings := Field.mem_spellings_iff.mpr (.inl rfl)
      exact Field.read?_eq_none_iff.mp (unread f absent) f.key spelling value
    all_goals
      intro held
      refine Field.read?_eq_none_iff.mp (unread _ absent) _ ?_ _ held
        (Extras.fits_text_iff.mpr ⟨text, rfl⟩)
      exact Field.mem_spellings_iff.mpr (by simp)
  · rintro ⟨free, unfit, noText⟩
    refine ⟨fun f absent => Field.read?_eq_none_iff.mpr fun k spelling value held fits => ?_, free⟩
    rcases Field.mem_spellings_iff.mp spelling with rfl | ⟨rfl, rfl⟩
    · exact unfit f value absent held fits
    · obtain ⟨text, rfl⟩ := Extras.fits_text_iff.mp fits
      exact (noText absent text).2 held

end View

end ImsCall
