import ImsCall.Proofs.Extras.Strip
import ImsCall.Proofs.Wire.Listing
import ImsCall.Settings

/-!
# Canonical listings

Of all listings of a bag, the one that is written has the keys in strictly ascending order of
their UTF-8 bytes at every level, and if the bag was sanitized first, objects of approved types
only. These are the *canonical* listings. A canonical listing is recovered from the bag it stands
for, so it can be told from the bytes that are written for that bag whether the bytes it came
from were canonical.

## Main definitions

* `Value.item`, `Entries.listing`, `Profile.record` — how a value, a bag and a profile are written
* `Listing.Canonical`, `Record.Canonical` — ascending keys and approved objects, at every level

## Main results

* `Entries.entryBytes_listing`, `Extras.extras_listing` — what is written are the bytes of a
  listing that stands for the bag
* `Listing.canonical_iff` — the canonical listings are the ones that are written for safe bags
* `Record.canonical_iff` — the same for whole profiles
-/

namespace ImsCall

mutual

/-- The item that a value is written as. -/
def Value.item : Value → Wire.Item
  | .int n => .plain (.int n) rfl
  | .long n => .plain (.long n) rfl
  | .double d => .plain (.double d) rfl
  | .bool b => .plain (.bool b) rfl
  | .string s => .plain (.string s) rfl
  | .ints ns => .plain (.ints ns) rfl
  | .longs ns => .plain (.longs ns) rfl
  | .doubles ds => .plain (.doubles ds) rfl
  | .bools bs => .plain (.bools bs) rfl
  | .strings ss => .plain (.strings ss) rfl
  | .bundle bag => .bundle bag.listing
  | .object o => .plain (.object o) rfl

/-- The listing that entries are written as, in the order in which they are kept. -/
def Entries.listing : {low : Option String} → Entries low → Wire.Listing
  | _, .nil => .nil
  | _, .cons key _ value rest => .cons key value.item rest.listing

end

/-- The record that a profile is written as. -/
def Profile.record (p : Profile) : Wire.Record where
  service := p.service
  call := p.call
  bag := p.extras.map Entries.listing
  media := p.media

namespace Wire

mutual

/-- An item is canonical if it is no unapproved object, and as a bag, if its listing is. -/
def Item.Canonical (p : Policy) : Item → Prop
  | .plain v _ => ∀ o, v = .object o → p.approves o.typeName = true
  | .bundle entries => entries.Canonical p

/-- A listing is canonical if the UTF-8 bytes of its keys ascend strictly and all of its items
are canonical. -/
def Listing.Canonical (p : Policy) : Listing → Prop
  | .nil => True
  | .cons key item rest =>
    (∀ k ∈ rest.keys, Utf8.encode key < Utf8.encode k) ∧ item.Canonical p ∧ rest.Canonical p

end

/-- A record is canonical if the listing of its bag is. -/
def Record.Canonical (p : Policy) (r : Record) : Prop := ∀ l ∈ r.bag, l.Canonical p

end Wire

/-! ### What is written for a bag -/

variable {p : Policy} {low : Option String}

theorem Value.item_of_plain {v : Value} (isPlain : v.bundle? = none) :
    v.item = .plain v isPlain := by
  cases v <;> first | rfl | cases isPlain

@[simp] theorem Value.item_bundle (bag : Extras) :
    (Value.bundle bag).item = .bundle (Entries.listing bag) := rfl

namespace Entries

@[simp] theorem listing_nil : (nil : Entries low).listing = .nil := rfl

@[simp] theorem listing_cons (key : String) (above : Above low key) (value : Value)
    (rest : Entries (some key)) :
    (cons key above value rest).listing = .cons key value.item rest.listing := rfl

@[simp] theorem listing_weaken {key : String} (h : Above low key) (e : Entries (some key)) :
    (e.weaken h).listing = e.listing := by
  cases e <;> rfl

theorem size_listing (e : Entries low) : e.listing.size = e.size := by
  induction e using nestedInduction with
  | nil => rfl
  | cons key above value rest inner ih => rw [listing_cons, Wire.Listing.size, ih, size]

theorem keys_listing (e : Entries low) : e.listing.keys = e.toList.map (·.1) := by
  induction e using nestedInduction with
  | nil => rfl
  | cons key above value rest inner ih =>
    rw [listing_cons, Wire.Listing.keys, ih, toList_cons, List.map_cons]

/-- The listing of entries has the bytes of the entries. -/
theorem entryBytes_listing (e : Entries low) : e.listing.entryBytes = e.entryBytes := by
  induction e using nestedInduction with
  | nil => rfl
  | cons key above value rest inner ih =>
    rw [listing_cons, Wire.Listing.entryBytes, entryBytes, ih]
    rcases value.plain_or_bundle with isPlain | ⟨bag, rfl⟩
    · rw [Value.item_of_plain isPlain, Wire.Item.bytes_plain]
    · rw [Value.item_bundle, Wire.Item.bytes_bundle, Wire.Listing.bytes, inner bag rfl,
        size_listing, Value.bytes]

/-- The listing of entries nests as deep as they do. -/
theorem depth_listing (e : Entries low) : e.listing.depth = e.depth := by
  induction e using nestedInduction with
  | nil => rfl
  | cons key above value rest inner ih =>
    rw [listing_cons, Wire.Listing.depth, depth, ih]
    rcases value.plain_or_bundle with isPlain | ⟨bag, rfl⟩
    · rw [Value.item_of_plain isPlain, Wire.Item.depth, Value.depth_of_plain isPlain]
    · rw [Value.item_bundle, Wire.Item.depth, inner bag rfl, Value.depth]

/-- The listing of entries answers as they do: with one entry for a key, the last is the only
one. -/
theorem get?_extras_listing (e : Entries low) : ∀ k, e.listing.extras.get? k = e.get? k := by
  induction e using nestedInduction with
  | nil => exact fun _ => rfl
  | cons key above value rest inner ih =>
    intro k
    have hvalue : value.item.value = value := by
      rcases value.plain_or_bundle with isPlain | ⟨bag, rfl⟩
      · rw [Value.item_of_plain isPlain, Wire.Item.value]
      · rw [Value.item_bundle, Wire.Item.value, Extras.ext_get? (inner bag rfl)]
    rw [listing_cons, Wire.Listing.get?_extras_cons, ih, hvalue, get?]
    by_cases hk : k = key
    · subst hk
      rw [get?_eq_none rest (String.lt_irrefl k), Option.none_or, if_pos rfl]
    · rw [if_neg hk, if_neg hk, Option.or_none]

/-- What is written for entries has ascending keys, and it is canonical if they are safe. -/
theorem canonical_listing (e : Entries low) : e.isSafe p = true → e.listing.Canonical p := by
  induction e using nestedInduction with
  | nil => exact fun _ => trivial
  | cons key above value rest inner ih =>
    intro safe
    obtain ⟨hvalue, hrest⟩ := isSafe_cons_iff.mp safe
    rw [listing_cons, Wire.Listing.Canonical]
    refine ⟨fun k hk => ?_, ?_, ih hrest⟩
    · rw [keys_listing] at hk
      obtain ⟨entry, mem, rfl⟩ := List.mem_map.mp hk
      exact Utf8.encode_lt_encode_iff.mpr (above_of_mem rest mem)
    · rcases value.plain_or_bundle with isPlain | ⟨bag, rfl⟩
      · rw [Value.item_of_plain isPlain, Wire.Item.Canonical]
        rintro o rfl
        exact hvalue
      · exact inner bag rfl hvalue

/-! ### Entries put in front -/

/-- Entries above a key, as entries without a bound. -/
theorem exists_weaken_eq {e : Extras} {key : String} (h : ∀ k, e.get? k ≠ none → key < k) :
    ∃ rest : Entries (some key), rest.weaken (.unbounded key) = e := by
  cases e with
  | nil => exact ⟨.nil, rfl⟩
  | cons next above value rest =>
    have lt : key < next := h next (by simp [Extras.get?, get?])
    exact ⟨.cons next lt value rest, rfl⟩

/-- An entry that is inserted below all others comes first. -/
theorem insert_weaken {key : String} (above : Above low key) (value : Value)
    (rest : Entries (some key)) :
    (rest.weaken above).insert key value above = .cons key above value rest := by
  cases rest with
  | nil => rfl
  | cons next lt v rest => exact dif_pos lt

end Entries

/-- The listing that is written for a bag stands for it. -/
theorem Extras.extras_listing (e : Extras) : (Entries.listing e).extras = e :=
  Extras.ext_get? e.get?_extras_listing

theorem Extras.bytes_listing (e : Extras) : (Entries.listing e).bytes = e.bytes := by
  rw [Wire.Listing.bytes, Entries.size_listing, Entries.entryBytes_listing, Extras.bytes]

/-! ### Canonical listings -/

namespace Wire

mutual

theorem Item.item_value_of_canonical : (i : Item) → i.Canonical p →
    i.value.item = i ∧ i.value.isSafe p = true
  | .plain v isPlain, h => by
    refine ⟨Value.item_of_plain isPlain, ?_⟩
    cases v <;> first | rfl | exact h _ rfl | cases isPlain
  | .bundle l, h => by
    obtain ⟨same, safe⟩ := Listing.listing_extras_of_canonical l h
    rw [Item.value, Value.item_bundle, same]
    exact ⟨rfl, safe⟩

/-- A canonical listing is the one that is written for its bag, and its bag is safe. -/
theorem Listing.listing_extras_of_canonical : (l : Listing) → l.Canonical p →
    Entries.listing l.extras = l ∧ Entries.isSafe p l.extras = true
  | .nil, _ => ⟨rfl, rfl⟩
  | .cons key item rest, h => by
    rw [Listing.Canonical] at h
    obtain ⟨first, hitem, hrest⟩ := h
    obtain ⟨itemSame, itemSafe⟩ := Item.item_value_of_canonical item hitem
    obtain ⟨restSame, restSafe⟩ := Listing.listing_extras_of_canonical rest hrest
    have below : ∀ k, rest.extras.get? k ≠ none → key < k := by
      intro k hk
      rw [ne_eq, rest.get?_extras_eq_none_iff, Decidable.not_not] at hk
      exact Utf8.encode_lt_encode_iff.mp (first k hk)
    have free : rest.extras.get? key = none :=
      Decidable.not_not.mp fun held => String.lt_irrefl key (below key held)
    obtain ⟨tail, htail⟩ := Entries.exists_weaken_eq below
    rw [Listing.extras_cons_of_free free, ← htail, Extras.insert, Entries.insert_weaken]
    rw [← htail, Entries.listing_weaken] at restSame
    rw [← htail, Entries.isSafe_weaken] at restSafe
    rw [Entries.listing_cons, itemSame, restSame]
    exact ⟨rfl, Entries.isSafe_cons_iff.mpr ⟨itemSafe, restSafe⟩⟩

end

/-- **The canonical listings are the ones that are written for safe bags.** -/
theorem Listing.canonical_iff {l : Listing} :
    l.Canonical p ↔ ∃ e : Extras, e.isSafe p = true ∧ Entries.listing e = l := by
  constructor
  · intro h
    obtain ⟨same, safe⟩ := l.listing_extras_of_canonical h
    exact ⟨l.extras, safe, same⟩
  · rintro ⟨e, safe, rfl⟩
    exact Entries.canonical_listing e safe

/-- **The canonical records are the ones that are written for profiles with safe bags.** -/
theorem Record.canonical_iff {r : Record} :
    r.Canonical p ↔
      ∃ q : Profile, (∀ e ∈ q.extras, e.isSafe p = true) ∧ q.record = r := by
  constructor
  · intro h
    refine ⟨r.profile, ?_, ?_⟩
    · intro e he
      obtain ⟨l, hl, rfl⟩ := Option.map_eq_some_iff.mp he
      exact (l.listing_extras_of_canonical (h l hl)).2
    · obtain ⟨service, call, bag, media⟩ := r
      cases bag with
      | none => rfl
      | some l =>
        simp only [Record.profile, Profile.record, Option.map_some,
          (l.listing_extras_of_canonical (h l rfl)).1]
  · rintro ⟨q, safe, rfl⟩ l hl
    obtain ⟨e, he, rfl⟩ := Option.map_eq_some_iff.mp hl
    exact Entries.canonical_listing e (safe e he)

end Wire

/-! ### What is written for a profile -/

namespace Profile

/-- The record of a profile stands for it, but for the restrict cause. -/
theorem profile_record (q : Profile) : q.record.profile = { q with restrictCause := .none } := by
  obtain ⟨service, call, cause, extras, media⟩ := q
  cases extras with
  | none => rfl
  | some e => simp only [record, Wire.Record.profile, Option.map_some, Extras.extras_listing]

/-- The record of a profile has the bytes of the profile. -/
theorem bytes_record (q : Profile) : q.record.bytes = q.bytes wireVersion := by
  obtain ⟨service, call, cause, extras, media⟩ := q
  cases extras with
  | none => rfl
  | some e =>
    simp only [record, Wire.Record.bytes, bytes, Wire.Record.bagBytes, Extras.optionBytes,
      Option.map_some, Extras.bytes_listing]
    rfl

theorem length_bytes_record (q : Profile) : q.record.bytes.length = q.wireSize := by
  rw [bytes_record, length_bytes]

theorem shallow_record_iff (q : Profile) :
    q.record.Shallow ↔ ∀ e ∈ q.extras, e.depth ≤ Extras.maxDepth := by
  constructor
  · intro h e he
    rw [← Entries.depth_listing e]
    exact h _ (Option.mem_map_of_mem _ he)
  · rintro h l hl
    obtain ⟨e, he, rfl⟩ := Option.map_eq_some_iff.mp hl
    rw [Entries.depth_listing]
    exact h e he

end Profile

end ImsCall
