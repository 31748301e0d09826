import ImsCall.Proofs.Wire.Listing
import ImsCall.Proofs.Wire.Reading

/-!
# What the readers of bags accept

A reader of plain items inverts a layout. A reader of bags does not, as a bag has many spellings:
it accepts the spellings, that is, the listings. A bag reader that may go so many levels deep
takes a bag off the front of some bytes exactly when they start with a listing that stands for
the bag and nests no deeper.

The proof follows the readers. It is an induction on the levels, and for each level an induction
on the declared count; a value is one of eleven plain kinds, which are all alike, or a bag of
the level below.

The second half is about bytes alone: no two listings have the same bytes. So a buffer that is
accepted is spelled by one record and no other.

## Main results

* `Reader.value_eq_ok_iff` — a value is plain, or a bag read by the reader for nested bags
* `Reader.bag_eq_ok_iff` — a bag reader accepts the listings of its level
* `readContent_eq_ok_iff` — one whole profile
* `Listing.bytes_append_inj`, `Record.bytes_inj` — bytes are spelled in one way only
-/

namespace ImsCall

theorem Value.kind_eq_bundle_iff (v : Value) : v.kind = .bundle ↔ v.bundle? ≠ none := by
  cases v <;> simp [Value.kind, Value.bundle?]

/-- The bytes of a value start with the number of its kind. -/
theorem Value.exists_bytes_eq (v : Value) : ∃ t, v.bytes = Wire.word 4 v.kind.tag ++ t := by
  cases v <;> exact ⟨_, rfl⟩

namespace Wire

namespace Reader

variable {α : Type} {r : Reader α} {layout : α → Bytes} {bag : Reader Extras} {s rest : Bytes}
  {v : Value}

/-! ### Values -/

/-- After the number of a kind, a value is read as one of that kind. -/
theorem value_append (bag : Reader Extras) (k : Kind) (s : Bytes) :
    value bag (Wire.word 4 k.tag ++ s) = valueOf bag k s :=
  bind_of_eq_ok (kind_eq_ok_iff.mpr rfl)

/-- A value that is read is read as one of some kind. -/
theorem exists_kind_of_value (h : value bag s = .ok (v, rest)) :
    ∃ k t, s = Wire.word 4 k.tag ++ t ∧ valueOf bag k t = .ok (v, rest) := by
  obtain ⟨k, t, hk, content⟩ := bind_eq_ok_iff.mp h
  exact ⟨k, t, kind_eq_ok_iff.mp hk, content⟩

/-- A kind whose content has a layout: reading the content gives the values of the kind, each
from its own bytes. -/
theorem plain_eq_ok_iff (hr : Inverts r layout) {mk : α → Value} {k : Kind}
    (bytes : ∀ a, (mk a).bytes = Wire.word 4 k.tag ++ layout a)
    (kind : ∀ v : Value, v.kind = k ↔ ∃ a, mk a = v) (hs : s.length < 2 ^ 64) :
    (do return mk (← r) : Reader Value) s = .ok (v, rest) ↔
      v.kind = k ∧ Wire.word 4 k.tag ++ s = v.bytes ++ rest := by
  rw [bind_pure_eq_ok_iff, kind]
  constructor
  · rintro ⟨a, ha, rfl⟩
    rw [(hr.eq_ok_iff hs).mp ha, bytes, List.append_assoc]
    exact ⟨⟨a, rfl⟩, rfl⟩
  · rintro ⟨⟨a, rfl⟩, eq⟩
    rw [bytes, List.append_assoc, List.append_cancel_left_eq] at eq
    exact ⟨a, (hr.eq_ok_iff hs).mpr eq, rfl⟩

/-- The content of every kind but one is read from the bytes of its values. -/
theorem valueOf_eq_ok_iff {k : Kind} (hk : k ≠ .bundle) (hs : s.length < 2 ^ 64) :
    valueOf bag k s = .ok (v, rest) ↔
      v.kind = k ∧ Wire.word 4 k.tag ++ s = v.bytes ++ rest := by
  cases k
  case bundle => exact absurd rfl hk
  all_goals refine plain_eq_ok_iff ?_ (fun _ => rfl) (by rintro ⟨⟩ <;> simp [Value.kind]) hs
  case int => exact int32_inverts
  case long => exact int64_inverts
  case double => exact double_inverts
  case bool => exact bool_inverts
  case string => exact text_inverts
  case ints => exact array_inverts int32_inverts fun _ => by simp
  case longs => exact array_inverts int64_inverts fun _ => by simp
  case doubles => exact array_inverts double_inverts fun _ => by simp
  case bools => exact array_inverts bool_inverts fun _ => by simp
  case strings => exact array_inverts text_inverts fun _ => by simp [textSize]
  case object => exact object_inverts

/-- A value is plain and read from its own bytes, or it is a bag. -/
theorem value_eq_ok_iff (hs : s.length < 2 ^ 64) :
    value bag s = .ok (v, rest) ↔
      (v.bundle? = none ∧ s = v.bytes ++ rest) ∨
        ∃ e t, v = .bundle e ∧ s = Wire.word 4 Kind.bundle.tag ++ t ∧ bag t = .ok (e, rest) := by
  constructor
  · intro h
    obtain ⟨k, t, rfl, content⟩ := exists_kind_of_value h
    by_cases hk : k = .bundle
    · subst hk
      obtain ⟨e, he, rfl⟩ := bind_pure_eq_ok_iff.mp content
      exact .inr ⟨e, t, rfl, rfl, he⟩
    · rw [List.length_append] at hs
      obtain ⟨rfl, eq⟩ := (valueOf_eq_ok_iff hk (by omega)).mp content
      rw [Value.kind_eq_bundle_iff, ne_eq, Classical.not_not] at hk
      exact .inl ⟨hk, eq⟩
  · rintro (⟨isPlain, rfl⟩ | ⟨e, t, rfl, rfl, he⟩)
    · obtain ⟨t, ht⟩ := v.exists_bytes_eq
      have hk : v.kind ≠ .bundle := fun h => v.kind_eq_bundle_iff.mp h isPlain
      rw [ht, List.append_assoc] at hs ⊢
      rw [List.length_append] at hs
      rw [value_append, valueOf_eq_ok_iff hk (by omega), ht, List.append_assoc]
      exact ⟨rfl, rfl⟩
    · rw [value_append]
      exact bind_pure_eq_ok_iff.mpr ⟨e, he, rfl⟩

/-! ### Bags -/

/-- A bag reader accepts the listings that nest so many levels at most. -/
def AcceptsListings (bag : Reader Extras) (levels : Nat) : Prop :=
  ∀ {s : Bytes}, s.length < 2 ^ 64 → ∀ {e : Extras} {rest : Bytes},
    bag s = .ok (e, rest) ↔ ∃ l : Listing, l.depth ≤ levels ∧ l.extras = e ∧ s = l.bytes ++ rest

variable {levels : Nat}

/-- A value is read from the items that stand for it. -/
theorem AcceptsListings.value_eq_ok_iff (h : AcceptsListings bag levels)
    (hs : s.length < 2 ^ 64) :
    value bag s = .ok (v, rest) ↔
      ∃ i : Item, i.depth ≤ levels ∧ i.value = v ∧ s = i.bytes ++ rest := by
  rw [Reader.value_eq_ok_iff hs]
  constructor
  · rintro (⟨isPlain, eq⟩ | ⟨e, t, rfl, rfl, he⟩)
    · exact ⟨.plain v isPlain, Nat.zero_le _, rfl, eq⟩
    · rw [List.length_append] at hs
      obtain ⟨l, hl, rfl, rfl⟩ := (h (by omega)).mp he
      exact ⟨.bundle l, hl, rfl, by rw [Item.bytes_bundle, List.append_assoc]⟩
  · rintro ⟨i, hi, rfl, rfl⟩
    cases i with
    | plain v isPlain => exact .inl ⟨isPlain, rfl⟩
    | bundle l =>
      rw [Item.bytes_bundle, List.append_assoc] at hs ⊢
      rw [List.length_append] at hs
      exact .inr ⟨l.extras, l.bytes ++ rest, rfl, rfl, (h (by omega)).mpr ⟨l, hi, rfl, rfl⟩⟩

theorem AcceptsListings.entry_eq_ok_iff (h : AcceptsListings bag levels)
    (hs : s.length < 2 ^ 64) {x : String × Value} :
    entry bag s = .ok (x, rest) ↔
      ∃ (key : String) (i : Item), i.depth ≤ levels ∧ x = (key, i.value) ∧
        s = Wire.text key ++ (i.bytes ++ rest) := by
  constructor
  · intro hx
    obtain ⟨key, mid, rfl, hmid, hx⟩ := text_inverts.of_bind hs hx
    obtain ⟨v, hv, rfl⟩ := bind_pure_eq_ok_iff.mp hx
    obtain ⟨i, hi, rfl, rfl⟩ := (h.value_eq_ok_iff hmid).mp hv
    exact ⟨key, i, hi, rfl, rfl⟩
  · rintro ⟨key, i, hi, rfl, rfl⟩
    rw [entry, liftM_eq, text_inverts.bind_append hs]
    rw [List.length_append] at hs
    exact bind_pure_eq_ok_iff.mpr
      ⟨i.value, (h.value_eq_ok_iff (by omega)).mpr ⟨i, hi, rfl, rfl⟩, rfl⟩

/-- So many entries are read from the listings with so many of them. -/
theorem AcceptsListings.replicate_eq_ok_iff (h : AcceptsListings bag levels) {n : Nat}
    (hs : s.length < 2 ^ 64) {xs : List (String × Value)} :
    replicate (entry bag) n s = .ok (xs, rest) ↔
      ∃ l : Listing, l.depth ≤ levels + 1 ∧ l.size = n ∧ l.entries = xs ∧
        s = l.entryBytes ++ rest := by
  induction n generalizing s xs with
  | zero =>
    rw [replicate_zero_eq_ok_iff]
    constructor
    · rintro ⟨rfl, rfl⟩
      exact ⟨.nil, Nat.le_add_left 1 levels, rfl, rfl, rfl⟩
    · rintro ⟨l, -, hsize, rfl, rfl⟩
      cases l with
      | nil => exact ⟨rfl, rfl⟩
      | cons => cases hsize
  | succ n ih =>
    rw [replicate_succ_eq_ok_iff]
    constructor
    · rintro ⟨x, mid, hx, more, hmore, rfl⟩
      obtain ⟨key, i, hi, rfl, rfl⟩ := (h.entry_eq_ok_iff hs).mp hx
      rw [List.length_append, List.length_append] at hs
      obtain ⟨l, hl, rfl, rfl, rfl⟩ := (ih (by omega)).mp hmore
      refine ⟨.cons key i l, ?_, rfl, rfl, ?_⟩
      · rw [Listing.depth]
        omega
      · simp only [Listing.entryBytes, List.append_assoc]
    · rintro ⟨l, hl, hsize, rfl, rfl⟩
      cases l with
      | nil => cases hsize
      | cons key i l =>
        rw [Listing.depth] at hl
        simp only [Listing.entryBytes, List.append_assoc] at hs ⊢
        refine ⟨(key, i.value), l.entryBytes ++ rest, ?_, l.entries, ?_, rfl⟩
        · exact (h.entry_eq_ok_iff hs).mpr ⟨key, i, by omega, rfl, rfl⟩
        · rw [List.length_append, List.length_append] at hs
          refine (ih (by omega)).mpr ⟨l, by omega, ?_, rfl, rfl⟩
          rw [Listing.size] at hsize
          omega

/-- **Bag readers accept the listings of their level.** The number of entries in front bounds the
recursion on one level, and nested bags are read with one level less. -/
theorem acceptsListings_bag (levels : Nat) : AcceptsListings (Reader.bag levels) levels := by
  induction levels with
  | zero =>
    intro s hs e rest
    constructor
    · exact fun h => absurd h throw_ne_ok
    · rintro ⟨l, hl, -⟩
      exact absurd l.depth_pos (by omega)
  | succ levels ih =>
    intro s hs e rest
    rw [Reader.bag, body, bind_pure_eq_ok_iff]
    constructor
    · rintro ⟨xs, hxs, rfl⟩
      obtain ⟨n, mid, hn, entries⟩ := bind_eq_ok_iff.mp hxs
      obtain ⟨-, rfl⟩ := word_eq_ok_iff.mp hn
      rw [List.length_append] at hs
      obtain ⟨l, hl, rfl, rfl, rfl⟩ := (ih.replicate_eq_ok_iff (by omega)).mp entries
      refine ⟨l, hl, l.ofList_entries.symm, ?_⟩
      rw [Listing.bytes, List.append_assoc]
    · rintro ⟨l, hl, rfl, rfl⟩
      rw [Listing.bytes, List.append_assoc] at hs ⊢
      have hsize := l.size_le_length_entryBytes
      rw [List.length_append, List.length_append] at hs
      refine ⟨l.entries, bind_eq_ok_iff.mpr ⟨l.size, l.entryBytes ++ rest, ?_, ?_⟩,
        l.ofList_entries⟩
      · exact word_eq_ok_iff.mpr ⟨by omega, rfl⟩
      · exact (ih.replicate_eq_ok_iff (by rw [List.length_append]; omega)).mpr
          ⟨l, hl, rfl, rfl, rfl⟩

/-! ### Whole profiles -/

/-- A bag that may be absent is read from its option byte and a listing. -/
theorem optionBag_eq_ok_iff (hs : s.length < 2 ^ 64) {e : Option Extras} :
    optionBag (Reader.bag Extras.maxDepth) s = .ok (e, rest) ↔
      ∃ bag : Option Listing, (∀ l ∈ bag, l.depth ≤ Extras.maxDepth) ∧
        bag.map Listing.extras = e ∧ s = Record.bagBytes bag ++ rest := by
  constructor
  · intro h
    obtain ⟨present, mid, rfl, hmid, h⟩ := (flag_inverts .badOption).of_bind hs h
    cases present with
    | false =>
      obtain ⟨rfl, rfl⟩ := pure_eq_ok_iff.mp h
      exact ⟨none, nofun, rfl, rfl⟩
    | true =>
      obtain ⟨e, he, rfl⟩ := bind_pure_eq_ok_iff.mp h
      obtain ⟨l, hl, rfl, rfl⟩ := (acceptsListings_bag _ hmid).mp he
      refine ⟨some l, ?_, rfl, rfl⟩
      rintro _ ⟨⟩
      exact hl
  · rintro ⟨bag, shallow, rfl, rfl⟩
    cases bag with
    | none => exact (flag_inverts .badOption).bind_append (a := false) hs
    | some l =>
      refine ((flag_inverts .badOption).bind_append (a := true) hs).trans ?_
      refine bind_pure_eq_ok_iff.mpr ⟨l.extras, (acceptsListings_bag _ ?_).mpr ?_, rfl⟩
      · exact Nat.lt_of_succ_lt hs
      · exact ⟨l, shallow l rfl, rfl, rfl⟩

/-- What the bytes of a profile say, and what follows them. -/
theorem content_eq_ok_iff (hs : s.length < 2 ^ 64) {c : Content} :
    content s = .ok (c, rest) ↔
      ∃ bag : Option Listing, (∀ l ∈ bag, l.depth ≤ Extras.maxDepth) ∧
        bag.map Listing.extras = c.extras ∧
        s = Wire.word 2 c.version.toNat ++ (Wire.int32 c.service ++ (Wire.int32 c.call
          ++ (Record.bagBytes bag ++ (c.media.bytes ++ rest)))) := by
  constructor
  · intro h
    obtain ⟨version, s, rfl, hs, h⟩ := version_inverts.of_bind hs h
    obtain ⟨service, s, rfl, hs, h⟩ := int32_inverts.of_bind hs h
    obtain ⟨call, s, rfl, hs, h⟩ := int32_inverts.of_bind hs h
    obtain ⟨extras, s, hbag, hmedia⟩ := bind_eq_ok_iff.mp h
    obtain ⟨bag, shallow, rfl, rfl⟩ := (optionBag_eq_ok_iff hs).mp hbag
    rw [List.length_append] at hs
    obtain ⟨media, s, rfl, -, done⟩ := media_inverts.of_bind (by omega) hmedia
    obtain ⟨rfl, rfl⟩ := pure_eq_ok_iff.mp done
    exact ⟨bag, shallow, rfl, rfl⟩
  · rintro ⟨bag, shallow, hbag, rfl⟩
    simp only [List.length_append] at hs
    simp only [content, contentOf, liftM_eq]
    rw [version_inverts.bind_append, int32_inverts.bind_append, int32_inverts.bind_append,
      bind_of_eq_ok ((optionBag_eq_ok_iff ?_).mpr ⟨bag, shallow, hbag, rfl⟩),
      media_inverts.bind_append]
    · rfl
    all_goals
      simp only [List.length_append]
      omega

end Reader

/-- The content of a buffer that holds one profile and nothing more. -/
theorem readContent_eq_ok_iff {s : Bytes} (hs : s.length < 2 ^ 64) {c : Content} :
    readContent s = .ok c ↔
      ∃ bag : Option Listing, (∀ l ∈ bag, l.depth ≤ Extras.maxDepth) ∧
        bag.map Listing.extras = c.extras ∧
        s = word 2 c.version.toNat ++ (int32 c.service ++ (int32 c.call
          ++ (Record.bagBytes bag ++ c.media.bytes))) := by
  rw [readContent_eq_ok_iff_content, Reader.content_eq_ok_iff hs, List.append_nil]

/-- The version that is read in front of a buffer is the one of its content. -/
theorem version_of_readContent {s : Bytes} (hs : s.length < 2 ^ 64) {c : Content}
    (h : readContent s = .ok c) : ∃ rest, Reader.version s = .ok (c.version, rest) := by
  obtain ⟨bag, -, -, rfl⟩ := (readContent_eq_ok_iff hs).mp h
  exact ⟨_, Reader.version_inverts.read hs⟩

/-! ### One spelling for some bytes -/

theorem word_append_inj {width m n : Nat} {t u : Bytes} (hm : m < 256 ^ width)
    (hn : n < 256 ^ width) (eq : word width m ++ t = word width n ++ u) : m = n ∧ t = u := by
  obtain ⟨same, rest⟩ := List.append_inj eq (by rw [length_word, length_word])
  have number := congrArg ofWord same
  rw [ofWord_word, ofWord_word, Nat.mod_eq_of_lt hm, Nat.mod_eq_of_lt hn] at number
  exact ⟨number, rest⟩

/-- A plain value does not start like a bag. -/
theorem plain_append_ne {v : Value} (isPlain : v.bundle? = none) (t u : Bytes) :
    v.bytes ++ t ≠ word 4 Kind.bundle.tag ++ u := by
  intro eq
  obtain ⟨content, hv⟩ := v.exists_bytes_eq
  rw [hv, List.append_assoc] at eq
  have tag := (word_append_inj v.kind.tag_lt Kind.bundle.tag_lt eq).1
  exact v.kind_eq_bundle_iff.mp (Kind.tag_injective tag) isPlain

/-- Reading a plain value gives it back, so its bytes start no other plain value. -/
theorem plain_append_inj {v w : Value} (hv : v.bundle? = none) (hw : w.bundle? = none)
    {t u : Bytes} (hs : (v.bytes ++ t).length < 2 ^ 64) (eq : v.bytes ++ t = w.bytes ++ u) :
    v = w ∧ t = u := by
  have read : Reader.value (Reader.bag 0) (v.bytes ++ t) = .ok (v, t) :=
    (Reader.value_eq_ok_iff hs).mpr (.inl ⟨hv, rfl⟩)
  rw [(Reader.value_eq_ok_iff hs).mpr (.inl ⟨hw, eq⟩)] at read
  cases read
  exact ⟨rfl, rfl⟩

/-- Listings that start alike have equally many entries, and these start alike. -/
theorem Listing.entryBytes_eq_of_bytes_eq {l m : Listing} {t u : Bytes}
    (hs : (l.bytes ++ t).length < 2 ^ 64) (eq : l.bytes ++ t = m.bytes ++ u) :
    l.size = m.size ∧ l.entryBytes ++ t = m.entryBytes ++ u := by
  have hl := l.size_le_length_entryBytes
  have hm := m.size_le_length_entryBytes
  have lengths := congrArg List.length eq
  simp only [Listing.bytes, List.append_assoc] at eq
  simp only [Listing.bytes, List.length_append] at hs lengths
  rw [length_word, length_word] at lengths
  exact word_append_inj (by omega) (by omega) eq

mutual

/-- No item starts another one. -/
theorem Item.bytes_append_inj : (i j : Item) → {t u : Bytes} →
    (i.bytes ++ t).length < 2 ^ 64 → i.bytes ++ t = j.bytes ++ u → i = j ∧ t = u
  | .plain v hv, .plain w hw, t, u, hs, eq => by
    obtain ⟨rfl, rfl⟩ := plain_append_inj hv hw hs eq
    exact ⟨rfl, rfl⟩
  | .plain v hv, .bundle m, t, u, _, eq => by
    rw [Item.bytes_bundle, List.append_assoc] at eq
    exact absurd eq (plain_append_ne hv t _)
  | .bundle l, .plain w hw, t, u, _, eq => by
    rw [Item.bytes_bundle, List.append_assoc] at eq
    exact absurd eq.symm (plain_append_ne hw u _)
  | .bundle l, .bundle m, t, u, hs, eq => by
    rw [Item.bytes_bundle, Item.bytes_bundle, List.append_assoc, List.append_assoc] at eq
    rw [Item.bytes_bundle, List.append_assoc, List.length_append] at hs
    obtain ⟨size, entries⟩ :=
      Listing.entryBytes_eq_of_bytes_eq (by omega) (List.append_cancel_left eq)
    have short : (l.entryBytes ++ t).length < 2 ^ 64 := by
      rw [Listing.bytes, List.append_assoc, List.length_append] at hs
      omega
    obtain ⟨rfl, rfl⟩ := Listing.entryBytes_append_inj l m short size entries
    exact ⟨rfl, rfl⟩
termination_by structural i => i

/-- Entries do not start other entries, so many being equally many. -/
theorem Listing.entryBytes_append_inj : (l m : Listing) → {t u : Bytes} →
    (l.entryBytes ++ t).length < 2 ^ 64 → l.size = m.size →
    l.entryBytes ++ t = m.entryBytes ++ u → l = m ∧ t = u
  | .nil, .nil, _, _, _, _, eq => ⟨rfl, eq⟩
  | .nil, .cons .., _, _, _, size, _ => nomatch size
  | .cons .., .nil, _, _, _, size, _ => nomatch size
  | .cons k i l, .cons k' j m, t, u, hs, size, eq => by
    simp only [Listing.entryBytes, List.append_assoc] at hs eq
    obtain ⟨rfl, items⟩ := Reader.text_inverts.append_inj hs eq
    rw [List.length_append] at hs
    obtain ⟨rfl, entries⟩ := Item.bytes_append_inj i j (by omega) items
    rw [List.length_append] at hs
    obtain ⟨rfl, rfl⟩ := Listing.entryBytes_append_inj l m (by omega) (Nat.succ.inj size) entries
    exact ⟨rfl, rfl⟩
termination_by structural l => l

end

/-- No listing starts another one. -/
theorem Listing.bytes_append_inj {l m : Listing} {t u : Bytes}
    (hs : (l.bytes ++ t).length < 2 ^ 64) (eq : l.bytes ++ t = m.bytes ++ u) : l = m ∧ t = u := by
  obtain ⟨size, entries⟩ := Listing.entryBytes_eq_of_bytes_eq hs eq
  rw [Listing.bytes, List.append_assoc, List.length_append] at hs
  exact Listing.entryBytes_append_inj l m (by omega) size entries

/-- Whether there is a bag, and which, is told by the option byte and the listing. -/
theorem bagBytes_append_inj {a b : Option Listing} {t u : Bytes}
    (hs : (Record.bagBytes a ++ t).length < 2 ^ 64)
    (eq : Record.bagBytes a ++ t = Record.bagBytes b ++ u) : a = b ∧ t = u := by
  cases a with
  | none =>
    cases b with
    | none => exact ⟨rfl, (List.cons.inj eq).2⟩
    | some m => exact absurd (List.cons.inj eq).1 (by decide)
  | some l =>
    cases b with
    | none => exact absurd (List.cons.inj eq).1 (by decide)
    | some m =>
      obtain ⟨rfl, rfl⟩ := Listing.bytes_append_inj (Nat.lt_of_succ_lt hs) (List.cons.inj eq).2
      exact ⟨rfl, rfl⟩

/-- **Bytes are spelled in one way only.** -/
theorem Record.bytes_inj {r r' : Record} (hs : r.bytes.length < 2 ^ 64)
    (eq : r.bytes = r'.bytes) : r = r' := by
  obtain ⟨service, call, bag, media⟩ := r
  obtain ⟨service', call', bag', media'⟩ := r'
  have eq := List.append_cancel_left eq
  simp only [Record.bytes, List.length_append] at hs
  obtain ⟨rfl, hcall⟩ := Reader.code_inverts.append_inj
    (by simp only [List.length_append]; omega) eq
  obtain ⟨rfl, hbag⟩ := Reader.code_inverts.append_inj
    (by simp only [List.length_append]; omega) hcall
  obtain ⟨rfl, hmedia⟩ := bagBytes_append_inj (by simp only [List.length_append]; omega) hbag
  have short : media.bytes.length < 2 ^ 64 := by omega
  rw [Reader.media_inverts.layout_inj short hmedia]

end Wire

end ImsCall
