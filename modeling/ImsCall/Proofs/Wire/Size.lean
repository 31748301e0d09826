import ImsCall.Proofs.Extras.Strip
import ImsCall.Proofs.Utf8
import ImsCall.Wire.Bytes

/-!
# How many bytes a profile takes

The sizes of `Wire/Bytes` are arithmetic, the layout is bytes. Here they are shown to agree, item
by item. A size is then followed through an insertion, which is how a bag is built from entries
that are read one after the other, and through sanitizing, which comes before a bag is written.

## Main results

* `Value.length_bytes`, `Extras.length_bytes`, `Profile.length_bytes` — the sizes are the lengths
* `Extras.entrySize_insert`, `Extras.depth_insert` — what a new entry adds
* `Entries.entrySize_strip_le` — sanitizing adds nothing
-/

namespace ImsCall

namespace Wire

variable {α : Type}

@[simp] theorem length_int32 (n : Int32) : (int32 n).length = 4 := length_word 4 _

@[simp] theorem length_int64 (n : Int64) : (int64 n).length = 8 := length_word 8 _

@[simp] theorem length_double (d : Double) : (double d).length = 8 := length_word 8 _

@[simp] theorem length_bool (b : Bool) : (bool b).length = 1 := rfl

@[simp] theorem length_run (s : Bytes) : (run s).length = 8 + s.length := by
  simp [run]

@[simp] theorem length_text (s : String) : (text s).length = textSize s := by
  rw [text, length_run, Utf8.length_encode, textSize]

theorem length_array {item : α → Bytes} {size : α → Nat} (h : ∀ a, (item a).length = size a)
    (items : List α) :
    (array item items).length = 8 + items.foldr (fun a n => size a + n) 0 := by
  rw [array, List.length_append, length_word, List.length_flatMap, List.sum_eq_foldr,
    List.foldr_map]
  simp only [h]

/-- Elements that all take the same space. -/
theorem length_array_const {item : α → Bytes} {width : Nat} (h : ∀ a, (item a).length = width)
    (items : List α) : (array item items).length = 8 + width * items.length := by
  rw [array, List.length_append, length_word, List.length_flatMap]
  simp only [h, List.map_const', List.sum_replicate_nat, Nat.mul_comm]

/-- What stands behind the version and the codes of the service and the call. -/
theorem drop_header {version : Bytes} (two : version.length = 2) (service call : Int32)
    (rest : Bytes) : (version ++ (int32 service ++ (int32 call ++ rest))).drop 10 = rest := by
  have front : (version ++ (int32 service ++ int32 call)).length = 10 := by simp [two]
  rw [← List.append_assoc (int32 service), ← List.append_assoc]
  exact List.drop_left' front

end Wire

mutual

/-- The size of a value is the number of its bytes. -/
theorem Value.length_bytes : (v : Value) → v.bytes.length = v.wireSize
  | .int _ | .long _ | .double _ | .bool _ | .string _ => by
    simp [Value.bytes, Value.wireSize]
  | .ints ns => by
    simp [Value.bytes, Value.wireSize, Wire.length_array_const Wire.length_int32]
  | .longs ns => by
    simp [Value.bytes, Value.wireSize, Wire.length_array_const Wire.length_int64]
  | .doubles ds => by
    simp [Value.bytes, Value.wireSize, Wire.length_array_const Wire.length_double]
  | .bools bs => by
    simp [Value.bytes, Value.wireSize, Wire.length_array_const Wire.length_bool]
  | .strings ss => by
    simp [Value.bytes, Value.wireSize, Wire.length_array Wire.length_text]
  | .bundle bag => by
    simp [Value.bytes, Value.wireSize, Entries.length_entryBytes bag]
  | .object o => by
    simp [Value.bytes, Value.wireSize]

/-- The size of entries is the number of their bytes. -/
theorem Entries.length_entryBytes : {low : Option String} → (e : Entries low) →
    e.entryBytes.length = e.entrySize
  | _, .nil => rfl
  | _, .cons key _ value rest => by
    simp [Entries.entryBytes, Entries.entrySize, Value.length_bytes value,
      Entries.length_entryBytes rest, Nat.add_assoc]

end

theorem Extras.length_bytes (e : Extras) : e.bytes.length = e.wireSize := by
  rw [Extras.bytes, List.length_append, Wire.length_word, Entries.length_entryBytes,
    Extras.wireSize]

theorem Coded.length_bytes {α : Type} [Coded α] (a : α) : (Coded.bytes a).length = 4 :=
  Wire.length_int32 _

theorem MediaProfile.length_bytes (m : MediaProfile) : m.bytes.length = 20 := by
  simp [MediaProfile.bytes, Coded.length_bytes]

/-- The size of a profile is the number of its bytes, under any version. -/
theorem Profile.length_bytes (version : UInt16) (p : Profile) :
    (p.bytes version).length = p.wireSize := by
  cases hp : p.extras with
  | none =>
    simp [Profile.bytes, Profile.wireSize, Extras.optionBytes, Coded.length_bytes,
      MediaProfile.length_bytes, hp]
  | some e =>
    simp [Profile.bytes, Profile.wireSize, Extras.optionBytes, Coded.length_bytes,
      MediaProfile.length_bytes, Extras.length_bytes, hp]
    omega

/-! ### What an insertion adds -/

theorem Entries.get?_cons_eq_none_iff {low : Option String} {key : String}
    {above : Above low key} {value : Value} {rest : Entries (some key)} {k : String} :
    (Entries.cons key above value rest).get? k = none ↔ k ≠ key ∧ rest.get? k = none := by
  rw [Entries.get?]
  by_cases hk : k = key <;> simp [hk]

/-- A new entry adds its own size. -/
theorem Entries.entrySize_insert (k : String) (v : Value) : {low : Option String} →
    (above : Above low k) → (e : Entries low) → e.get? k = none →
    (e.insert k v above).entrySize = Wire.textSize k + v.wireSize + e.entrySize
  | _, above, .nil, _ => rfl
  | _, above, .cons key habove value rest, free => by
    obtain ⟨hne, free⟩ := Entries.get?_cons_eq_none_iff.mp free
    rw [Entries.insert]
    split
    · rfl
    · rw [Entries.entrySize, Entries.entrySize_insert k v _ rest free,
        Entries.entrySize]
      omega

/-- A new entry makes the bag as deep as its value asks for. -/
theorem Entries.depth_insert (k : String) (v : Value) : {low : Option String} →
    (above : Above low k) → (e : Entries low) → e.get? k = none →
    (e.insert k v above).depth = max (v.depth + 1) e.depth
  | _, above, .nil, _ => rfl
  | _, above, .cons key habove value rest, free => by
    obtain ⟨hne, free⟩ := Entries.get?_cons_eq_none_iff.mp free
    rw [Entries.insert]
    split
    · rfl
    · rw [Entries.depth, Entries.depth_insert k v _ rest free, Entries.depth]
      omega

theorem Extras.entrySize_insert {e : Extras} {k : String} (free : e.get? k = none) (v : Value) :
    (e.insert k v).entrySize = Wire.textSize k + v.wireSize + e.entrySize :=
  Entries.entrySize_insert k v (.unbounded k) e free

theorem Extras.depth_insert {e : Extras} {k : String} (free : e.get? k = none) (v : Value) :
    (e.insert k v).depth = max (v.depth + 1) e.depth :=
  Entries.depth_insert k v (.unbounded k) e free

/-! ### What sanitizing saves -/

@[simp] theorem Entries.entrySize_weaken {low : Option String} {key : String}
    (h : Above low key) (e : Entries (some key)) : (e.weaken h).entrySize = e.entrySize := by
  cases e <;> rfl

/-- Without its unapproved objects a bag takes no more bytes. -/
theorem Entries.entrySize_strip_le {low : Option String} (p : Policy) (e : Entries low) :
    (e.strip p).entrySize ≤ e.entrySize := by
  induction e using Entries.strip_induction p with
  | nil => exact Nat.le_refl _
  | bundle key above bag rest inner ih =>
    rw [Entries.entrySize, Entries.entrySize, Value.wireSize, Value.wireSize]
    omega
  | keep key above value rest isPlain safe ih =>
    rw [Entries.entrySize, Entries.entrySize]
    omega
  | drop key above value rest isPlain bad ih =>
    rw [Entries.entrySize_weaken, Entries.entrySize]
    omega

end ImsCall
