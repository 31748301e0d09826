import ImsCall.Profile
import ImsCall.Proofs.View.Basic

/-!
# The view as a split

A view divides the entries of a bag between its fields and its residual. Here it is said which
entry goes where, without reference to how the view is taken: by what fits a field, and by which of
two spellings comes first. What the fields hold is held against the typed readings of the bag,
which are another way to read the same keys.

All fields are read from one bag, and what they read is removed at once. They may as well be taken
out of it one after the other, each from what the others have left over. As no two fields share a
spelling, none of them takes anything from another, and the order does not matter.

## Main definitions

* `Shape.Fits`, `Field.Takes` — the values that fit a field, and the entry that it takes
* `Extras.LeftOver` — the entries that no field takes
* `Shape.reading` — the typed reading that belongs to a field
* `View.Splits` — a view divides the entries of a bag
* `View.take`, `View.partway` — taking fields out one after the other, and how far that has come

## Main results

* `Field.source?_eq_some_iff_takes`, `Extras.get?_residual_eq_some_iff` — what fields take and what
  they leave over
* `View.foldl_take` — taking fields out one after the other
* `Extras.view_splits` — the view divides the entries of a bag, and no other view does
-/

namespace ImsCall

/-! ### Values that fit -/

/-- The numbers that are codes of the enumeration in a field, if it holds one. -/
def Shape.IsCode : Shape → Int32 → Prop
  | .identityRule, n => ∃ rule : IdentityRule, Coded.code rule = n
  | .dialString, n => ∃ dialled : DialString, Coded.code dialled = n
  | _, _ => True

/-- The kind of the values that store a field. -/
def Shape.kind : Shape → Kind
  | .flag => .bool
  | .identityRule => .int
  | .dialString => .int
  | .text => .string
  | .bundle => .bundle

/-- A value fits a field if it has the right kind and, as a number, is a code. -/
def Shape.Fits (s : Shape) (value : Value) : Prop :=
  value.kind = s.kind ∧ ∀ n, value = .int n → s.IsCode n

theorem Coded.isSome_ofCode?_iff {α : Type} [Coded α] {n : Int32} :
    (Coded.ofCode? n : Option α).isSome ↔ ∃ a : α, Coded.code a = n := by
  rw [← Option.ne_none_iff_isSome, ne_eq, Coded.ofCode?_eq_none_iff]
  simp only [not_forall, not_not]

/-- The values that fit are the ones that can be read. -/
theorem Shape.isSome_read?_iff {s : Shape} {value : Value} :
    (s.read? value).isSome ↔ s.Fits value := by
  have coded : ∀ {α : Type} [Coded α], (value.int?.bind Coded.ofCode? : Option α).isSome ↔
      value.kind = .int ∧ ∀ n, value = .int n → ∃ a : α, Coded.code a = n := by
    intro α _
    cases value with
    | int n => simp [Value.int?, Value.kind, Coded.isSome_ofCode?_iff]
    | _ => simp [Value.int?, Value.kind]
  cases s with
  | identityRule => exact coded
  | dialString => exact coded
  | flag => cases value <;> simp [read?, Fits, IsCode, kind, Value.kind, Value.bool?]
  | text => cases value <;> simp [read?, Fits, IsCode, kind, Value.kind, Value.string?]
  | bundle => cases value <;> simp [read?, Fits, IsCode, kind, Value.kind, Value.bundle?]

namespace Field

variable {e : Extras} {f g : Field} {k : String}

/-! ### Entries that are taken -/

/-- A field takes the entry under one of its spellings if the value there fits and, unless this is
the usual spelling, what is under the usual one does not. -/
structure Takes (f : Field) (e : Extras) (k : String) : Prop where
  spelling : k ∈ f.spellings
  fits : ∃ value, e.get? k = some value ∧ f.shape.Fits value
  preferred : k ≠ f.key → ∀ value, e.get? f.key = some value → ¬ f.shape.Fits value

theorem mem_spellings_iff :
    k ∈ f.spellings ↔ k = f.key ∨ (f = .radioTechnology ∧ k = alternateRadioKey) := by
  by_cases hf : f = .radioTechnology
  · subst hf
    rw [spellings_radioTechnology, List.mem_pair, eq_self, true_and]
  · rw [spellings_of_ne hf, List.mem_singleton, or_iff_left fun h => hf h.1]

theorem alternateRadioKey_mem_spellings : alternateRadioKey ∈ spellings .radioTechnology :=
  mem_spellings_iff.mpr (.inr ⟨rfl, rfl⟩)

/-- No two fields share a spelling. -/
theorem eq_of_mem_spellings (hf : k ∈ f.spellings) (hg : k ∈ g.spellings) : f = g := by
  rcases mem_spellings_iff.mp hf with rfl | ⟨rfl, rfl⟩ <;>
    rcases mem_spellings_iff.mp hg with hkey | ⟨rfl, hkey⟩
  · exact key_injective hkey
  · exact absurd hkey f.key_ne_alternateRadioKey
  · exact absurd hkey.symm g.key_ne_alternateRadioKey
  · rfl

theorem isSome_readAt?_iff :
    (f.readAt? e k).isSome ↔ ∃ value, e.get? k = some value ∧ f.shape.Fits value := by
  rw [readAt?]
  cases e.get? k with
  | none => simp
  | some value => simp [Shape.isSome_read?_iff]

/-- What a field is read from is the entry that it takes. -/
theorem source?_eq_some_iff_takes : f.source? e = some k ↔ f.Takes e k := by
  rw [source?_eq_some_iff]
  constructor
  · rintro (⟨rfl, hread⟩ | ⟨rfl, rfl, unread, hread⟩)
    · exact ⟨mem_spellings_iff.mpr (.inl rfl), isSome_readAt?_iff.mp hread,
        fun ne => absurd rfl ne⟩
    · refine ⟨alternateRadioKey_mem_spellings, isSome_readAt?_iff.mp hread, ?_⟩
      intro _ value held fits
      have := isSome_readAt?_iff.mpr ⟨value, held, fits⟩
      rw [unread] at this
      cases this
  · rintro ⟨spelling, fits, preferred⟩
    have hread := isSome_readAt?_iff.mpr fits
    rcases mem_spellings_iff.mp spelling with rfl | ⟨rfl, rfl⟩
    · exact .inl ⟨rfl, hread⟩
    · refine .inr ⟨rfl, rfl, ?_, hread⟩
      rw [← Option.not_isSome_iff_eq_none, isSome_readAt?_iff]
      rintro ⟨value, held, fits⟩
      exact preferred (key_ne_alternateRadioKey _).symm value held fits

theorem read?_eq_bind_source? (f : Field) (e : Extras) :
    f.read? e = (f.source? e).bind (f.readAt? e) := by
  rw [read?, source?]
  induction f.spellings with
  | nil => rfl
  | cons k others ih =>
    rw [List.findSome?_cons, List.find?_cons, ih]
    cases h : f.readAt? e k with
    | none => rfl
    | some c => exact h.symm

/-- A field holds what the entry that it takes holds. -/
theorem read?_eq_some_iff_takes {c : f.Carrier} :
    f.read? e = some c ↔ ∃ k, f.Takes e k ∧ e.get? k = some (f.shape.write c) := by
  rw [read?_eq_bind_source?, Option.bind_eq_some_iff]
  refine exists_congr fun k => and_congr source?_eq_some_iff_takes ?_
  exact ⟨get?_of_readAt?, readAt?_of_get?⟩

end Field

/-! ### Entries that are left over -/

namespace Extras

variable {e : Extras} {k : String} {value : Value}

/-- The entries of a bag that no field takes: the key has no defined semantics, the value has
another kind than the field, it is a number that is no code, or it is under the second spelling of
the radio technology and the usual one holds a text. -/
inductive LeftOver (e : Extras) : String → Value → Prop
  | unknown {k : String} {value : Value} : Field.isWellKnown k = false → LeftOver e k value
  | otherKind {f : Field} {k : String} {value : Value} :
      k ∈ f.spellings → value.kind ≠ f.shape.kind → LeftOver e k value
  | noCode {f : Field} {k : String} {n : Int32} :
      k ∈ f.spellings → ¬ f.shape.IsCode n → LeftOver e k (.int n)
  | secondSpelling {text : String} {value : Value} :
      e.get? Field.radioTechnology.key = some (.string text) →
      LeftOver e Field.alternateRadioKey value

theorem isWellKnown_iff : Field.isWellKnown k = true ↔ ∃ f : Field, k ∈ f.spellings := by
  rw [Field.isWellKnown, List.contains_iff_mem, Field.wellKnownKeys, List.mem_flatMap]
  exact exists_congr fun f => and_iff_right f.mem_all

/-- A value that does not fit is left over. -/
theorem LeftOver.of_not_fits {f : Field} (spelling : k ∈ f.spellings)
    (misfit : ¬ f.shape.Fits value) : e.LeftOver k value := by
  by_cases sameKind : value.kind = f.shape.kind
  · rw [Shape.Fits, and_iff_right sameKind] at misfit
    simp only [not_forall] at misfit
    obtain ⟨n, rfl, noCode⟩ := misfit
    exact .noCode spelling noCode
  · exact .otherKind spelling sameKind

theorem fits_text_iff : Shape.text.Fits value ↔ ∃ text, value = .string text := by
  constructor
  · rintro ⟨sameKind, -⟩
    cases value <;> first | exact ⟨_, rfl⟩ | cases sameKind
  · rintro ⟨text, rfl⟩
    exact ⟨rfl, fun n h => nomatch h⟩

/-- An entry that no field takes is left over. -/
theorem LeftOver.of_forall_not_takes (held : e.get? k = some value)
    (free : ∀ f : Field, ¬ f.Takes e k) : e.LeftOver k value := by
  cases known : Field.isWellKnown k with
  | false => exact .unknown known
  | true =>
    obtain ⟨f, spelling⟩ := isWellKnown_iff.mp known
    by_cases fits : f.shape.Fits value
    · -- the value fits and is not taken, so there is a usual spelling that is preferred
      have outdone : ∃ usual, k ≠ f.key ∧ e.get? f.key = some usual ∧ f.shape.Fits usual := by
        by_contra none
        refine free f ⟨spelling, ⟨value, held, fits⟩, fun ne usual found usualFits => ?_⟩
        exact none ⟨usual, ne, found, usualFits⟩
      obtain ⟨usual, ne, found, usualFits⟩ := outdone
      obtain ⟨rfl, rfl⟩ := (Field.mem_spellings_iff.mp spelling).resolve_left ne
      obtain ⟨text, rfl⟩ := fits_text_iff.mp usualFits
      exact .secondSpelling found
    · exact .of_not_fits spelling fits

/-- No field takes an entry that is left over. -/
theorem LeftOver.not_takes (left : e.LeftOver k value) (held : e.get? k = some value)
    (f : Field) : ¬ f.Takes e k := by
  rintro ⟨spelling, ⟨other, found, fits⟩, preferred⟩
  obtain rfl : value = other := Option.some.inj (held.symm.trans found)
  cases left with
  | unknown unknown =>
    rw [isWellKnown_iff.mpr ⟨f, spelling⟩] at unknown
    cases unknown
  | otherKind same otherKind =>
    rw [Field.eq_of_mem_spellings same spelling] at otherKind
    exact otherKind fits.1
  | noCode same noCode =>
    rw [Field.eq_of_mem_spellings same spelling] at noCode
    exact noCode (fits.2 _ rfl)
  | @secondSpelling text _ usual =>
    obtain rfl := Field.eq_of_mem_spellings spelling Field.alternateRadioKey_mem_spellings
    have usualFits : Shape.text.Fits (.string text) := fits_text_iff.mpr ⟨text, rfl⟩
    exact preferred (Field.key_ne_alternateRadioKey _).symm _ usual usualFits

/-- What is left over is where it was. -/
theorem get?_residual_eq_some_iff :
    e.residual.get? k = some value ↔ e.get? k = some value ∧ e.LeftOver k value := by
  by_cases taken : ∃ f : Field, f.Takes e k
  · obtain ⟨f, takes⟩ := taken
    rw [get?_residual_of_source (Field.source?_eq_some_iff_takes.mpr takes)]
    constructor
    · rintro ⟨⟩
    · rintro ⟨held, left⟩
      exact absurd takes (left.not_takes held f)
  · have free := not_exists.mp taken
    rw [get?_residual_of_not_source fun f h => free f (Field.source?_eq_some_iff_takes.mp h)]
    exact ⟨fun held => ⟨held, .of_forall_not_takes held free⟩, And.left⟩

end Extras

/-! ### Typed readings -/

/-- The typed reading that belongs to a field, followed by the look-up of a code if the field is an
enumeration. -/
def Shape.reading : (s : Shape) → Extras → String → Option s.Carrier
  | .flag, e, k => (e.readBool k).value
  | .identityRule, e, k => (e.readInt k).value.bind Coded.ofCode?
  | .dialString, e, k => (e.readInt k).value.bind Coded.ofCode?
  | .text, e, k => (e.readString k).value
  | .bundle, e, k => (e.readBundle k).value

theorem Shape.reading_eq (s : Shape) (e : Extras) (k : String) :
    s.reading e k = (e.get? k).bind s.read? := by
  have coded : ∀ {α : Type} [Coded α], (e.readInt k).value.bind (Coded.ofCode? : Int32 → Option α) =
      (e.get? k).bind fun v => v.int?.bind Coded.ofCode? := by
    intro α _
    rw [Extras.readInt, Extras.value_read, Option.bind_assoc]
  cases s with
  | identityRule => exact coded
  | dialString => exact coded
  | _ => exact Extras.value_read e k

/-- A field of one spelling is what the typed reading of its key yields. -/
theorem Field.read?_eq_reading {f : Field} (h : f ≠ .radioTechnology) (e : Extras) :
    f.read? e = f.shape.reading e f.key := by
  rw [read?_of_ne h, readAt?, Shape.reading_eq]

theorem Extras.value_readFirstString (e : Extras) (ks : List String) :
    (e.readFirstString ks).value = ks.findSome? fun k => (e.readString k).value := by
  induction ks with
  | nil => rfl
  | cons k others ih =>
    rw [readFirstString, Logged.value_bind, List.findSome?_cons]
    cases (e.readString k).value with
    | none => exact ih
    | some text => rfl

/-- The field of the radio technology is what a profile with this bag says. -/
theorem Field.read?_radioTechnology {p : Profile} {e : Extras} (h : p.extras = some e) :
    Field.radioTechnology.read? e = p.radioTechnology.value := by
  rw [Profile.radioTechnology, h, read?]
  dsimp only
  rw [Extras.value_readFirstString]
  congr 1
  funext k
  exact (Shape.reading_eq .text e k).symm

/-! ### Taking fields out one after the other -/

namespace Field

variable {a b : Extras} {f : Field}

/-- Takes a value of a field out of a bag: the first of several keys under which one is found gives
the value and loses its entry. -/
def takeFrom (f : Field) (e : Extras) : List String → Option f.Carrier × Extras
  | [] => (none, e)
  | k :: others =>
    match f.readAt? e k with
    | some c => (some c, e.erase k)
    | none => f.takeFrom e others

/-- Takes a field out of a bag, from its preferred spelling. -/
def take (f : Field) (e : Extras) : Option f.Carrier × Extras := f.takeFrom e f.spellings

theorem takeFrom_eq (f : Field) (e : Extras) (ks : List String) :
    f.takeFrom e ks = (ks.findSome? (f.readAt? e),
      (ks.find? fun k => (f.readAt? e k).isSome).toList.foldl Extras.erase e) := by
  induction ks with
  | nil => rfl
  | cons k others ih =>
    rw [takeFrom, List.findSome?_cons, List.find?_cons]
    cases f.readAt? e k with
    | none => exact ih
    | some c => rfl

theorem take_eq (f : Field) (e : Extras) :
    f.take e = (f.read? e, (f.source? e).toList.foldl Extras.erase e) :=
  f.takeFrom_eq e f.spellings

/-- Where a field is read, and what it reads, depends on the answers under its spellings alone. -/
theorem source?_congr (same : ∀ k ∈ f.spellings, a.get? k = b.get? k) :
    f.source? a = f.source? b :=
  List.find?_congr fun k hk => by rw [readAt?_congr (same k hk)]

theorem read?_congr (same : ∀ k ∈ f.spellings, a.get? k = b.get? k) : f.read? a = f.read? b := by
  rw [read?_eq_bind_source?, read?_eq_bind_source?, source?_congr same]
  refine Option.bind_congr fun k taken => ?_
  exact readAt?_congr (same k (source?_eq_some_iff_takes.mp taken).spelling) f

end Field

namespace View

variable {e : Extras} {f : Field} {done order : List Field}

/-- Takes a field out of what is left over. -/
def take (v : View) (f : Field) : View where
  field := Function.update v.field f (f.take v.residual).1
  residual := (f.take v.residual).2

/-- The view of a bag from which some of the fields have been taken. -/
def partway (done : List Field) (e : Extras) : View where
  field f := if f ∈ done then f.read? e else none
  residual := (done.filterMap fun f => f.source? e).foldl Extras.erase e

/-- The fields that have been taken leave the spellings of the others alone. -/
theorem get?_residual_partway (new : f ∉ done) {k : String} (spelling : k ∈ f.spellings) :
    (partway done e).residual.get? k = e.get? k := by
  rw [partway, Extras.get?_foldl_erase, if_neg]
  intro mem
  obtain ⟨g, hg, taken⟩ := List.mem_filterMap.mp mem
  obtain rfl : f = g :=
    Field.eq_of_mem_spellings spelling (Field.source?_eq_some_iff_takes.mp taken).spelling
  exact new hg

/-- One more field is taken as if it were the only one. -/
theorem take_partway (new : f ∉ done) (e : Extras) :
    (partway done e).take f = partway (done ++ [f]) e := by
  have same : ∀ k ∈ f.spellings, (partway done e).residual.get? k = e.get? k := fun k hk =>
    get?_residual_partway new hk
  rw [take, Field.take_eq, Field.read?_congr same, Field.source?_congr same]
  refine congrArg₂ View.mk (funext fun g => ?field) ?residual
  case field =>
    by_cases hg : g = f
    · subst hg
      simp
    · simp [partway, hg]
  case residual =>
    rw [List.filterMap_append, List.foldl_append]
    congr 1

theorem foldl_take (nodup : order.Nodup) (e : Extras) :
    order.foldl take { residual := e } = partway order e := by
  induction order using List.reverseRecOn with
  | nil => rfl
  | append_singleton done f ih =>
    obtain ⟨hdone, -, apart⟩ := List.nodup_append.mp nodup
    rw [List.foldl_append, ih hdone, List.foldl_cons, List.foldl_nil, take_partway]
    exact fun hf => apart f hf f (List.mem_singleton_self f) rfl

/-- Once all fields have been taken, this is the view. -/
theorem partway_eq_view (all : ∀ f, f ∈ order) (e : Extras) : partway order e = e.view := by
  refine congrArg₂ View.mk (funext fun f => if_pos (all f)) (Extras.ext_get? fun k => ?_)
  have sources : k ∈ order.filterMap (fun f => f.source? e) ↔
      k ∈ Field.all.filterMap fun f => f.source? e := by
    simp only [List.mem_filterMap, all, Field.mem_all]
  rw [Extras.residual, Extras.get?_foldl_erase, Extras.get?_foldl_erase]
  exact if_congr sources rfl rfl

end View

/-! ### The split -/

/-- A view divides the entries of a bag between its fields and its residual. -/
structure View.Splits (v : View) (e : Extras) : Prop where
  /-- A field of one spelling is what the typed reading of its key yields. -/
  field : ∀ f, f ≠ .radioTechnology → v.field f = f.shape.reading e f.key
  /-- The radio technology is what a profile with this bag says. -/
  radioTechnology : ∀ p : Profile, p.extras = some e →
    v.field .radioTechnology = p.radioTechnology.value
  /-- A field is present if it takes an entry, and is then what the entry holds. -/
  taken : ∀ f c, v.field f = some c ↔ ∃ k, f.Takes e k ∧ e.get? k = some (f.shape.write c)
  /-- The residual holds what is left over, as it was, and nothing else. -/
  residual : ∀ k value,
    v.residual.get? k = some value ↔ e.get? k = some value ∧ e.LeftOver k value
  /-- Every entry is in one place: in the residual, or in one field. -/
  place : ∀ k value, e.get? k = some value →
    (v.residual.get? k = some value ∧ ∀ f : Field, ¬ f.Takes e k) ∨
      (v.residual.get? k = none ∧ ∃! f : Field, f.Takes e k)

namespace Extras

theorem splits_view (e : Extras) : e.view.Splits e where
  field _ hf := Field.read?_eq_reading hf e
  radioTechnology _ h := Field.read?_radioTechnology h
  taken _ _ := Field.read?_eq_some_iff_takes
  residual _ _ := get?_residual_eq_some_iff
  place k value held := by
    by_cases taken : ∃ f : Field, f.Takes e k
    · obtain ⟨f, takes⟩ := taken
      refine .inr ⟨?_, f, takes, fun g hg => ?_⟩
      · exact get?_residual_of_source (Field.source?_eq_some_iff_takes.mpr takes)
      · exact Field.eq_of_mem_spellings hg.spelling takes.spelling
    · have free := not_exists.mp taken
      exact .inl ⟨get?_residual_eq_some_iff.mpr ⟨held, .of_forall_not_takes held free⟩, free⟩

end Extras

/-- The entries of a bag can be divided in one way only. -/
theorem View.Splits.unique {v w : View} {e : Extras} (hv : v.Splits e) (hw : w.Splits e) :
    v = w := by
  have field : ∀ f, v.field f = w.field f := fun f =>
    Option.ext fun c => (hv.taken f c).trans (hw.taken f c).symm
  have residual : v.residual = w.residual := Extras.ext_get? fun k =>
    Option.ext fun value => (hv.residual k value).trans (hw.residual k value).symm
  exact congrArg₂ View.mk (funext field) residual

/-- **The view divides the entries of a bag** between its fields and its residual, and it is the
only view that does. Taking the fields out of the bag one after the other, in any order, gives the
same view. -/
theorem Extras.view_splits (e : Extras) :
    e.view.Splits e ∧ (∀ v : View, v.Splits e → v = e.view) ∧
      ∀ order : List Field, order.Perm Field.all →
        order.foldl View.take { residual := e } = e.view := by
  refine ⟨e.splits_view, fun v hv => hv.unique e.splits_view, ?ordered⟩
  case ordered =>
    intro order perm
    have nodup : order.Nodup := perm.nodup_iff.mpr Field.nodup_map_key.of_map
    rw [View.foldl_take nodup]
    exact View.partway_eq_view (fun f => perm.mem_iff.mpr f.mem_all) e

end ImsCall
