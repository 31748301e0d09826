import ImsCall.Json.Profile
import ImsCall.Profile
import ImsCall.Proofs.Extras.History
import ImsCall.Proofs.Extras.Sanitize
import ImsCall.Proofs.Json.Text

/-!
# Bags in JSON

A bag is written as an object with its keys as names, and each value as an object of its own, named
for its kind. So every bag is two JSON levels deep, and a payload is one more, an array of numbers.
The limit on nesting counts bags only, as `Extras.depth` does.

Doubles are the one thing that does not come back in general, so bags are looked at that hold none,
at any depth. Of those, reading gives back the ones that nest no deeper than the reader allows, and
refuses the others. That is shown for the tree and then for the text.

## Main definitions

* `JsonForm.Lawful` — a type whose values are read back from their forms
* `Extras.DoubleFree` — no path leads to doubles

## Main results

* `Extras.ofJson?_toJson` — a bag is read back if it nests no deeper than the levels that are left
* `Extras.json_round_trip` — both for the tree and the text, at the limit of the program
-/

namespace ImsCall

/-! ### Scalars, lists and objects -/

/-- The form of every value is built of integers and characters, and the value is read back from
it. -/
class JsonForm.Lawful (α : Type) [JsonForm α] : Prop where
  plain (a : α) : (toJson a).Plain
  ofJson?_toJson (a : α) : JsonForm.ofJson? (toJson a) = some a

open JsonForm (Lawful)

/-- Reading a text is reading the form that it was written from. -/
theorem JsonForm.ofText?_toText {α : Type} [JsonForm α] {a : α} (h : (toJson a).Plain) :
    (JsonForm.ofText? (JsonForm.toText a) : Option α) = JsonForm.ofJson? (toJson a) := by
  rw [JsonForm.ofText?, JsonForm.toText, h.parse?_render, Option.bind_some]

section Lists

variable {α β : Type} {write : α → β} {read : β → Option α} {as : List α}

/-- If the items of a list that come back are told by a property, the list comes back if all its
items have it. -/
theorem mapM_map_eq_ite {p : α → Prop} [DecidablePred p]
    (h : ∀ a ∈ as, read (write a) = if p a then some a else none) :
    (as.map write).mapM read = if ∀ a ∈ as, p a then some as else none := by
  induction as with
  | nil => rfl
  | cons a as ih =>
    obtain ⟨first, others⟩ := List.forall_mem_cons.mp h
    rw [List.map_cons, List.mapM_cons, first, ih others]
    by_cases ha : p a
    · by_cases has : ∀ a ∈ as, p a
      · rw [if_pos ha, if_pos has, if_pos (List.forall_mem_cons.mpr ⟨ha, has⟩)]
        rfl
      · rw [if_pos ha, if_neg has, if_neg fun all => has (List.forall_mem_cons.mp all).2]
        rfl
    · rw [if_neg ha, if_neg fun all => ha (List.forall_mem_cons.mp all).1]
      rfl

theorem mapM_map_eq_some (h : ∀ a, read (write a) = some a) (as : List α) :
    (as.map write).mapM read = some as := by
  rw [mapM_map_eq_ite fun a _ => (h a).trans (if_pos trivial).symm, if_pos fun _ _ => trivial]

end Lists

namespace Json

theorem intBetween?_ofInt {low high n : Int} (above : low ≤ n) (below : n ≤ high) :
    (ofInt n).intBetween? low high = some n := by
  show (do let n ← (Numeral.ofInt n).int?; if low ≤ n ∧ n ≤ high then some n else none) = some n
  rw [Numeral.int?_ofInt]
  exact if_pos ⟨above, below⟩

theorem Plain.record {members : List (String × Json)} (h : ∀ m ∈ members, m.2.Plain) :
    (Json.record members).Plain := by
  refine .object _ (fun m mem => ?_) (fun m mem => ?_) <;>
    obtain ⟨member, inside, rfl⟩ := List.mem_map.mp mem
  · exact ⟨member.1, rfl⟩
  · exact h member inside

@[simp] theorem members?_record (members : List (String × Json)) :
    (Json.record members).members? = some members := by
  have each : ∀ m : String × Json,
      (do return (← Glyph.text? (Glyph.ofText m.1), m.2) : Option (String × Json)) = some m := by
    intro m
    rw [Glyph.text?_ofText]
    rfl
  exact mapM_map_eq_some each members

theorem fields?_record (names : List String) (members : List (String × Json)) :
    (Json.record members).fields? names =
      if (names.all fun name => (members.filter fun m => m.1 == name).length ≤ 1) &&
          members.all fun m => names.contains m.1 || m.2.isSound
      then some (names.map fun name => members.lookup name) else none := by
  show ((Json.record members).members?).bind _ = _
  rw [members?_record]
  rfl

end Json

instance : Lawful Bool where
  plain := .bool
  ofJson?_toJson _ := rfl

instance : Lawful String where
  plain := .text
  ofJson?_toJson := Glyph.text?_ofText

instance : Lawful Int32 where
  plain n := .int n.toInt
  ofJson?_toJson n := by
    show ((Json.ofInt n.toInt).intBetween? _ _).map Int32.ofInt = some n
    rw [Json.intBetween?_ofInt n.minValue_le_toInt n.toInt_le, Option.map_some, Int32.ofInt_toInt]

instance : Lawful Int64 where
  plain n := .int n.toInt
  ofJson?_toJson n := by
    show ((Json.ofInt n.toInt).intBetween? _ _).map Int64.ofInt = some n
    rw [Json.intBetween?_ofInt n.minValue_le_toInt n.toInt_le, Option.map_some, Int64.ofInt_toInt]

instance : Lawful UInt8 where
  plain n := .int n.toNat
  ofJson?_toJson n := by
    have below : (n.toNat : Int) ≤ (UInt8.size - 1 : Nat) := by
      have := n.toNat_lt_size
      omega
    show ((Json.ofInt n.toNat).intBetween? _ _).map (fun n => UInt8.ofNat n.toNat) = some n
    rw [Json.intBetween?_ofInt (Int.natCast_nonneg _) below, Option.map_some, Int.toNat_natCast,
      UInt8.ofNat_toNat]

instance {α : Type} [JsonForm α] [Lawful α] : Lawful (List α) where
  plain items := by
    refine .array _ fun j mem => ?_
    obtain ⟨item, -, rfl⟩ := List.mem_map.mp mem
    exact Lawful.plain item
  ofJson?_toJson items := by
    show (items.map toJson).mapM JsonForm.ofJson? = some items
    exact mapM_map_eq_some Lawful.ofJson?_toJson items

instance : Lawful OpaqueObject where
  plain o := .record fun m mem => by
    rcases List.mem_cons.mp mem with rfl | mem
    · exact Lawful.plain o.typeName
    · obtain rfl := List.mem_singleton.mp mem
      exact Lawful.plain o.payload
  ofJson?_toJson o := by
    have fields : (toJson o).fields? ["type_name", "payload"]
        = some [some (toJson o.typeName), some (toJson o.payload)] :=
      (Json.fields?_record _ _).trans rfl
    have payload : (toJson o.payload).payload? = some o.payload := Lawful.ofJson?_toJson o.payload
    show ((toJson o).fields? ["type_name", "payload"]).bind _ = _
    rw [fields, Option.bind_some]
    show (JsonForm.ofJson? (toJson o.typeName)).bind _ = _
    rw [Lawful.ofJson?_toJson, Option.bind_some, payload]
    rfl

/-! ### Values -/

section Values

variable {v : Value} {bag : Json → Option Extras}

theorem Value.ofJson?_tagged (k : Kind) (content : Json) :
    Value.ofJson? bag (k.tagged content) = k.content? bag content := by
  rw [Value.ofJson?, Kind.tagged, Json.members?_record, Option.bind_eq_bind, Option.bind_some]
  show (Kind.ofVariantName? k.variantName).bind _ = _
  rw [Kind.ofVariantName?_variantName, Option.bind_some]

/-- A value that is no bag and holds no doubles is read back. -/
theorem Value.ofJson?_toJson_of_plain (isPlain : v.bundle? = none)
    (h : v.kind ≠ .double ∧ v.kind ≠ .doubles) : Value.ofJson? bag v.toJson = some v := by
  cases v with
  | bundle => cases isPlain
  | double => exact absurd rfl h.1
  | doubles => exact absurd rfl h.2
  | _ =>
    rw [toJson, ofJson?_tagged, Kind.content?, Lawful.ofJson?_toJson]
    rfl

/-- The form of such a value is built of integers and characters. -/
theorem Value.plain_toJson_of_plain (isPlain : v.bundle? = none)
    (h : v.kind ≠ .double ∧ v.kind ≠ .doubles) : v.toJson.Plain := by
  have tagged : ∀ (k : Kind) {content : Json}, content.Plain → (k.tagged content).Plain := by
    intro k content plain
    refine .record fun m mem => ?_
    obtain rfl := List.mem_singleton.mp mem
    exact plain
  cases v with
  | bundle => cases isPlain
  | double => exact absurd rfl h.1
  | doubles => exact absurd rfl h.2
  | _ => exact tagged _ (Lawful.plain _)

theorem Value.ofJson?_toJson_bundle (e : Extras) :
    Value.ofJson? bag (Value.bundle e).toJson = (bag (ImsCall.toJson e)).map .bundle := by
  rw [toJson, ofJson?_tagged, Kind.content?, Option.map_eq_bind]
  rfl

end Values

/-! ### Bags without doubles -/

/-- No path leads from a value to doubles. -/
def Value.DoubleFree (v : Value) : Prop :=
  ∀ (path : List String) (found : Value), v.at? path = some found →
    found.kind ≠ .double ∧ found.kind ≠ .doubles

/-- A bag holds no doubles, at any depth. -/
def Extras.DoubleFree (e : Extras) : Prop := (Value.bundle e).DoubleFree

theorem Value.DoubleFree.kind {v : Value} (h : v.DoubleFree) :
    v.kind ≠ .double ∧ v.kind ≠ .doubles :=
  h [] v v.at?_nil

/-- A value without bags in it is free of doubles if it is none of the two kinds of doubles. -/
theorem Value.doubleFree_of_plain {v : Value} (isPlain : v.bundle? = none)
    (h : v.kind ≠ .double ∧ v.kind ≠ .doubles) : v.DoubleFree := by
  intro path found eq
  cases path with
  | nil =>
    obtain rfl := Option.some.inj eq
    exact h
  | cons key path => cases (at?_cons_of_plain isPlain key path).symm.trans eq

namespace Extras

variable {e : Extras}

/-- A bag is free of doubles if all its answers are. -/
theorem doubleFree_iff : e.DoubleFree ↔ ∀ k v, e.get? k = some v → v.DoubleFree := by
  constructor
  · intro h k v found path inner eq
    refine h (k :: path) inner ?_
    show e.at? (k :: path) = some inner
    rw [at?_cons, found, Option.bind_some, eq]
  · intro h path inner eq
    cases path with
    | nil =>
      obtain rfl := Option.some.inj eq
      exact ⟨nofun, nofun⟩
    | cons k path =>
      have eq : e.at? (k :: path) = some inner := eq
      rw [at?_cons, Option.bind_eq_some_iff] at eq
      obtain ⟨v, found, eq⟩ := eq
      exact h k v found path inner eq

theorem doubleFree_empty : empty.DoubleFree := doubleFree_iff.mpr fun _ _ found => nomatch found

theorem DoubleFree.insert (h : e.DoubleFree) (k : String) {v : Value} (free : v.DoubleFree) :
    (e.insert k v).DoubleFree := by
  refine doubleFree_iff.mpr fun j w found => ?_
  rw [get?_insert] at found
  split at found
  · obtain rfl := Option.some.inj found
    exact free
  · exact doubleFree_iff.mp h j w found

end Extras

/-! ### The form of a bag -/

namespace Entries

variable {low : Option String}

theorem toMembers_eq : {low : Option String} → (e : Entries low) →
    e.toMembers = e.toList.map fun entry => (Glyph.ofText entry.1, entry.2.toJson)
  | _, .nil => rfl
  | _, .cons key _ value rest => by rw [toMembers, toMembers_eq rest, toList_cons, List.map_cons]

/-- A bag is written as an object with the keys as names. -/
theorem object_toMembers (e : Entries low) :
    Json.object e.toMembers = Json.record (e.toList.map fun entry => (entry.1, entry.2.toJson)) := by
  rw [toMembers_eq, Json.record, List.map_map]
  rfl

/-- Entries nest no deeper than their bag allows if none of their values does. -/
theorem depth_le_succ_iff {levels : Nat} : {low : Option String} → {e : Entries low} →
    (e.depth ≤ levels + 1 ↔ ∀ entry ∈ e.toList, entry.2.depth ≤ levels)
  | _, .nil => by simp [depth]
  | _, .cons key _ value rest => by
    rw [depth, toList_cons, List.forall_mem_cons, ← depth_le_succ_iff, Nat.max_le,
      Nat.add_le_add_iff_right]

end Entries

namespace Extras

variable {e : Extras}

theorem ofJson?_record (levels : Nat) (members : List (String × Json)) :
    ofJson? (levels + 1) (Json.record members) = (members.mapM fun m =>
      (Value.ofJson? (ofJson? levels) m.2).map fun v => (m.1, v)).map ofList := by
  rw [ofJson?, Json.members?_record, Option.map_eq_bind]
  simp only [Option.map_eq_bind]
  rfl

/-- **A bag is read back if it nests no deeper than the levels that are left**, and refused if it
does. -/
theorem ofJson?_toJson (levels : Nat) (h : e.DoubleFree) :
    ofJson? levels (toJson e) = if e.depth ≤ levels then some e else none := by
  induction levels generalizing e with
  | zero =>
    rw [if_neg (Nat.not_le.mpr e.one_le_depth)]
    rfl
  | succ levels ih =>
    have value : ∀ v : Value, v.DoubleFree → Value.ofJson? (ofJson? levels) v.toJson
        = if v.depth ≤ levels then some v else none := by
      intro v free
      rcases v.plain_or_bundle with isPlain | ⟨bag, rfl⟩
      · rw [Value.ofJson?_toJson_of_plain isPlain free.kind, Value.depth_of_plain isPlain,
          if_pos (Nat.zero_le levels)]
      · rw [Value.ofJson?_toJson_bundle, ih free, Value.depth]
        split <;> rfl
    have entry : ∀ entry ∈ e.toList,
        ((Value.ofJson? (ofJson? levels) entry.2.toJson).map fun v => (entry.1, v))
          = if entry.2.depth ≤ levels then some entry else none := by
      intro entry mem
      rw [value entry.2 (doubleFree_iff.mp h entry.1 entry.2 (Entries.mem_toList_iff.mp mem))]
      split <;> rfl
    show ofJson? (levels + 1) (Json.object e.toMembers) = _
    rw [Entries.object_toMembers, ofJson?_record, mapM_map_eq_ite entry]
    by_cases shallow : e.depth ≤ levels + 1
    · rw [if_pos shallow, if_pos (Entries.depth_le_succ_iff.mp shallow), Option.map_some,
        ofList_toList]
    · rw [if_neg shallow, if_neg fun all => shallow (Entries.depth_le_succ_iff.mpr all)]
      rfl

/-- The form of a bag without doubles is built of integers and characters. -/
theorem DoubleFree.plain (h : e.DoubleFree) : (toJson e).Plain := by
  induction e using answerInduction with
  | h e ih =>
    show (Json.object e.toMembers).Plain
    rw [Entries.object_toMembers]
    refine .record fun m mem => ?_
    obtain ⟨entry, inside, rfl⟩ := List.mem_map.mp mem
    have found : e.get? entry.1 = some entry.2 := Entries.mem_toList_iff.mp inside
    have free := doubleFree_iff.mp h entry.1 entry.2 found
    rcases entry.2.plain_or_bundle with isPlain | ⟨bag, isBundle⟩
    · exact Value.plain_toJson_of_plain isPlain free.kind
    · rw [isBundle] at found free ⊢
      refine .record fun m mem => ?_
      obtain rfl := List.mem_singleton.mp mem
      exact ih entry.1 bag found free

/-- **Bags come back from their JSON form, up to the limit on nesting.** A bag without doubles is
read back from its form, and from the text of its form, if it nests no deeper than bags may, and is
refused in both if it nests deeper. -/
theorem json_round_trip (h : e.DoubleFree) :
    (JsonForm.ofJson? (toJson e) = if e.depth ≤ maxDepth then some e else none) ∧
      JsonForm.ofText? (JsonForm.toText e) = if e.depth ≤ maxDepth then some e else none := by
  have tree : JsonForm.ofJson? (toJson e) = if e.depth ≤ maxDepth then some e else none :=
    ofJson?_toJson maxDepth h
  exact ⟨tree, (JsonForm.ofText?_toText h.plain).trans tree⟩

/-- A bag with a text to escape, negative and large numbers, and a payload. -/
def assorted : Extras :=
  ofList [("\n", .string "\"\\é"), ("n", .longs [-9223372036854775808, 0]),
    ("o", .object ⟨"ims.Header", [0, 255]⟩)]

theorem doubleFree_assorted : assorted.DoubleFree := by
  have plain : ∀ v : Value, v.bundle? = none ∧ v.kind ≠ .double ∧ v.kind ≠ .doubles →
      v.DoubleFree := fun v h => Value.doubleFree_of_plain h.1 h.2
  exact ((doubleFree_empty.insert "\n" (plain _ (by decide))).insert "n"
    (plain _ (by decide))).insert "o" (plain _ (by decide))

theorem DoubleFree.wrap (h : e.DoubleFree) (key : String) (n : Nat) :
    (wrap key n e).DoubleFree := by
  induction n generalizing e with
  | zero => exact h
  | succ n ih => exact ih (doubleFree_empty.insert key h)

/-- The deepest bags that come back, and ones that are one level deeper. -/
theorem json_round_trip_limit :
    JsonForm.ofText? (JsonForm.toText (wrap "k" 31 assorted)) = some (wrap "k" 31 assorted) ∧
      JsonForm.ofText? (JsonForm.toText (wrap "k" 32 assorted)) = (none : Option Extras) := by
  obtain ⟨-, deepest⟩ := json_round_trip (doubleFree_assorted.wrap "k" 31)
  obtain ⟨-, deeper⟩ := json_round_trip (doubleFree_assorted.wrap "k" 32)
  exact ⟨deepest.trans (if_pos (by decide +kernel)), deeper.trans (if_neg (by decide +kernel))⟩

end Extras

end ImsCall
