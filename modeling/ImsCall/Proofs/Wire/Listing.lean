import ImsCall.Proofs.Wire.Size

/-!
# Bags as they are spelled

A bag keeps its entries in order, one for a key. The bytes of a bag need not: a sender may put
entries in any order and repeat a key, and then only the last entry of that key counts. So bytes
say more than the bag they stand for, and statements about bytes need something that says it too.

That is a *listing*: the entries of a bag in the order in which they are spelled, nested bags
again as listings. It fixes its bytes, and it stands for one bag, `Listing.extras`. A `Record` is
the same for a whole profile. None of this refers to a reader, so what readers accept can be
compared with it.

## Main definitions

* `Wire.Item`, `Wire.Listing` — values and bags as they are spelled
* `Listing.bytes`, `Listing.extras`, `Listing.depth` — the bytes of a listing, the bag it stands
  for, and how deep it nests
* `Wire.Record` — a profile as it is spelled
* `Wire.Spells` — which bytes spell which profile

## Main results

* `Listing.get?_extras_cons` — an entry counts only where no later one does
* `Listing.ofList_entries` — writing the entries in order gives the bag of the listing
* `Listing.depth_extras_le`, `Record.wireSize_profile_le` — nothing grows when a listing becomes
  a bag
-/

namespace ImsCall

namespace Wire

mutual

/-- A value as it is spelled. -/
inductive Item where
  /-- A value that is no bag has one spelling, its own layout. -/
  | plain (v : Value) (isPlain : v.bundle? = none)
  | bundle (entries : Listing)

/-- The entries of a bag as they are spelled, in any order and perhaps several for a key. -/
inductive Listing where
  | nil
  | cons (key : String) (item : Item) (rest : Listing)

end

namespace Listing

/-- The keys in the order in which they are spelled. -/
def keys : Listing → List String
  | .nil => []
  | .cons key _ rest => key :: rest.keys

/-- The number of entries, overridden ones included. -/
def size : Listing → Nat
  | .nil => 0
  | .cons _ _ rest => rest.size + 1

end Listing

mutual

/-- The bytes of an item: the number of its kind, then its content. -/
def Item.bytes : Item → Bytes
  | .plain v _ => v.bytes
  | .bundle entries => word 4 Kind.bundle.tag ++ (word 8 entries.size ++ entries.entryBytes)

/-- The bytes of entries, in order. -/
def Listing.entryBytes : Listing → Bytes
  | .nil => []
  | .cons key item rest => text key ++ (item.bytes ++ rest.entryBytes)

end

/-- The bytes of a listing: the number of entries, then each of them. -/
def Listing.bytes (l : Listing) : Bytes := word 8 l.size ++ l.entryBytes

@[simp] theorem Item.bytes_plain (v : Value) (isPlain : v.bundle? = none) :
    (Item.plain v isPlain).bytes = v.bytes := rfl

@[simp] theorem Item.bytes_bundle (l : Listing) :
    (Item.bundle l).bytes = word 4 Kind.bundle.tag ++ l.bytes := rfl

mutual

/-- The value that an item stands for. -/
def Item.value : Item → Value
  | .plain v _ => v
  | .bundle entries => .bundle entries.extras

/-- The bag that a listing stands for. An entry counts only if no later one has its key. -/
def Listing.extras : Listing → Extras
  | .nil => .empty
  | .cons key item rest =>
    if rest.extras.contains key then rest.extras else rest.extras.insert key item.value

end

mutual

/-- How deep listings nest inside an item. -/
def Item.depth : Item → Nat
  | .plain _ _ => 0
  | .bundle entries => entries.depth

/-- How deep listings nest, this one included. Overridden entries count as well. -/
def Listing.depth : Listing → Nat
  | .nil => 1
  | .cons _ item rest => max (item.depth + 1) rest.depth

end

/-! ### Whole profiles -/

/-- A profile as it is spelled. -/
structure Record where
  service : ServiceType
  call : CallType
  /-- The listing of the bag, if there is a bag. -/
  bag : Option Listing
  media : MediaProfile

namespace Record

/-- The bytes of a listing that may be absent. -/
def bagBytes : Option Listing → Bytes
  | none => [0]
  | some l => 1 :: l.bytes

/-- The bytes of a record: version 1, the two codes, the bag and the media. -/
def bytes (r : Record) : Bytes :=
  word 2 1 ++ (Coded.bytes r.service ++ (Coded.bytes r.call ++ (bagBytes r.bag ++ r.media.bytes)))

/-- The profile that a record stands for. It has no restrict cause. -/
def profile (r : Record) : Profile where
  service := r.service
  call := r.call
  restrictCause := .none
  extras := r.bag.map Listing.extras
  media := r.media

/-- No bag nests deeper than it may, be it overridden or not. -/
def Shallow (r : Record) : Prop := ∀ l ∈ r.bag, l.depth ≤ Extras.maxDepth

end Record

/-- Bytes spell a profile if they are those of a record that stands for it and does not nest too
deep. -/
def Spells (b : Bytes) (p : Profile) : Prop :=
  ∃ r : Record, r.bytes = b ∧ r.profile = p ∧ r.Shallow

/-! ### The bag of a listing -/

namespace Listing

/-- The entries in the order in which they are spelled, items replaced by their values. -/
def entries : Listing → List (String × Value)
  | .nil => []
  | .cons key item rest => (key, item.value) :: rest.entries

theorem depth_pos (l : Listing) : 0 < l.depth := by
  cases l <;> simp only [depth] <;> omega

/-- An entry counts only where no later one does. -/
theorem get?_extras_cons (key : String) (item : Item) (rest : Listing) (k : String) :
    (cons key item rest).extras.get? k =
      (rest.extras.get? k).or (if k = key then some item.value else none) := by
  rw [extras]
  split
  · next held =>
    obtain ⟨v, hv⟩ := Option.isSome_iff_exists.mp held
    by_cases hk : k = key
    · rw [hk, hv]
      rfl
    · rw [if_neg hk, Option.or_none]
  · next free =>
    rw [Extras.get?_insert]
    by_cases hk : k = key
    · rw [if_pos hk, hk, Option.not_isSome_iff_eq_none.mp free, if_pos rfl]
      rfl
    · rw [if_neg hk, if_neg hk, Option.or_none]

/-- A listing answers at the keys that are spelled in it. -/
theorem get?_extras_eq_none_iff : (l : Listing) → (k : String) →
    (l.extras.get? k = none ↔ k ∉ l.keys)
  | .nil, k => by simp [extras, keys]
  | .cons key item rest, k => by
    rw [get?_extras_cons, Option.or_eq_none_iff, get?_extras_eq_none_iff rest k, keys,
      List.mem_cons, not_or]
    by_cases hk : k = key <;> simp [hk]

/-- Writing the entries into a bag overrides it where the listing answers. -/
theorem get?_extend_entries : (l : Listing) → (e : Extras) → (k : String) →
    (e.extend l.entries).get? k = (l.extras.get? k).or (e.get? k)
  | .nil, _, _ => rfl
  | .cons key item rest, e, k => by
    rw [entries, Extras.extend_cons, get?_extend_entries rest, get?_extras_cons, Option.or_assoc,
      Extras.get?_insert]
    by_cases hk : k = key <;> simp [hk]

/-- Writing the entries in order, so that the last one for a key wins, gives the bag. -/
theorem ofList_entries (l : Listing) : Extras.ofList l.entries = l.extras := by
  apply Extras.ext_get?
  intro k
  rw [Extras.ofList, get?_extend_entries, Extras.get?_empty, Option.or_none]

theorem length_bytes (l : Listing) : l.bytes.length = 8 + l.entryBytes.length := by
  rw [bytes, List.length_append, length_word]

/-- Every entry takes a byte, so there are no more entries than bytes. -/
theorem size_le_length_entryBytes : (l : Listing) → l.size ≤ l.entryBytes.length
  | .nil => Nat.le_refl _
  | .cons key item rest => by
    have := size_le_length_entryBytes rest
    rw [size, entryBytes, List.length_append, List.length_append, length_text, textSize]
    omega

theorem extras_cons_of_contains {key : String} {rest : Listing}
    (held : rest.extras.contains key = true) (item : Item) :
    (cons key item rest).extras = rest.extras := by
  rw [extras, if_pos held]

theorem extras_cons_of_free {key : String} {rest : Listing} (free : rest.extras.get? key = none)
    (item : Item) : (cons key item rest).extras = rest.extras.insert key item.value := by
  rw [extras, Extras.contains, free]
  rfl

end Listing

/-! ### A bag is no larger than its listing -/

mutual

/-- The value of an item takes no more bytes than the item. -/
theorem Item.wireSize_value_le : (i : Item) → i.value.wireSize ≤ i.bytes.length
  | .plain v _ => Nat.le_of_eq v.length_bytes.symm
  | .bundle entries => by
    have := Listing.entrySize_extras_le entries
    simp only [Item.value, Item.bytes_bundle, Listing.bytes, Value.wireSize, List.length_append,
      length_word]
    omega

/-- The bag of a listing takes no more bytes than the listing: an overridden entry is dropped,
and every other one is kept once. -/
theorem Listing.entrySize_extras_le : (l : Listing) → l.extras.entrySize ≤ l.entryBytes.length
  | .nil => Nat.le_refl _
  | .cons key item rest => by
    have hitem := Item.wireSize_value_le item
    have hrest := Listing.entrySize_extras_le rest
    rw [Listing.entryBytes, List.length_append, List.length_append, length_text]
    cases hkey : rest.extras.get? key with
    | some v =>
      rw [Listing.extras_cons_of_contains (by rw [Extras.contains, hkey]; rfl)]
      omega
    | none =>
      rw [Listing.extras_cons_of_free hkey, Extras.entrySize_insert hkey]
      omega

end

mutual

theorem Item.depth_value_le : (i : Item) → i.value.depth ≤ i.depth
  | .plain v isPlain => by
    cases v <;> first | exact Nat.le_refl _ | cases isPlain
  | .bundle entries => Listing.depth_extras_le entries

/-- The bag of a listing nests no deeper than the listing. -/
theorem Listing.depth_extras_le : (l : Listing) → l.extras.depth ≤ l.depth
  | .nil => Nat.le_refl _
  | .cons key item rest => by
    have hitem := Item.depth_value_le item
    have hrest := Listing.depth_extras_le rest
    rw [Listing.depth]
    cases hkey : rest.extras.get? key with
    | some v =>
      rw [Listing.extras_cons_of_contains (by rw [Extras.contains, hkey]; rfl)]
      omega
    | none =>
      rw [Listing.extras_cons_of_free hkey, Extras.depth_insert hkey]
      omega

end

theorem Listing.wireSize_extras_le (l : Listing) : l.extras.wireSize ≤ l.bytes.length := by
  rw [Listing.length_bytes, Extras.wireSize]
  have := l.entrySize_extras_le
  omega

/-- The profile of a record takes no more bytes than the record. -/
theorem Record.wireSize_profile_le (r : Record) : r.profile.wireSize ≤ r.bytes.length := by
  cases hbag : r.bag with
  | none =>
    simp [Record.profile, Record.bytes, Record.bagBytes, Profile.wireSize, hbag,
      Coded.length_bytes, MediaProfile.length_bytes]
  | some l =>
    have := l.wireSize_extras_le
    simp [Record.profile, Record.bytes, Record.bagBytes, Profile.wireSize, hbag,
      Coded.length_bytes, MediaProfile.length_bytes]
    omega

/-- If no bag of a record nests too deep, neither does the bag of its profile. -/
theorem Record.Shallow.depth_le {r : Record} (shallow : r.Shallow) :
    ∀ e ∈ r.profile.extras, e.depth ≤ Extras.maxDepth := by
  intro e he
  obtain ⟨l, hl, rfl⟩ := Option.map_eq_some_iff.mp he
  exact Nat.le_trans l.depth_extras_le (shallow l hl)

end Wire

end ImsCall
