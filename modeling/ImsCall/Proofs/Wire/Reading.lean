import ImsCall.Proofs.Wire.Size
import ImsCall.Wire.Reader

/-!
# Readers that undo a layout

For every item of `Wire/Bytes` there is a layout, the function that writes it, and a reader in
`Wire/Reader`. `Inverts r layout` joins the two: the reader takes a value off the front of some
bytes exactly when they start with the layout of that value. Both directions are in the one
statement, so a reader that is too lax fails it as much as one that is too strict.

Only bytes that are fewer than `2 ^ 64` are considered. The number in front of a run or an array
is a word of eight bytes, and a longer one has no such number.

## Implementation notes

A reader is a sequence of binds. `Inverts.of_bind` takes the first item off a successful run and
`Inverts.bind_append` runs the first item on its own layout; with the two of them, every
composite reader is followed from left to right in either direction, and no later proof unfolds
the monad.

## Main definitions

* `Wire.Reader.Inverts` — a reader accepts exactly the layouts of its values

## Main results

* `Wire.Reader.word_eq_ok_iff`, `Wire.Reader.kind_eq_ok_iff` — the words, and the kinds of value
* `Wire.Reader.text_inverts`, `array_inverts`, `media_inverts`, … — the items
-/

namespace ImsCall

/-- A run is cut off the front exactly when the bytes start with it. -/
theorem Bytes.splitExact?_eq_some_iff {n : Nat} {s t rest : Bytes} :
    Bytes.splitExact? n s = some (t, rest) ↔ t.length = n ∧ s = t ++ rest := by
  constructor
  · intro h
    rw [Bytes.splitExact?_eq] at h
    split at h
    · next enough =>
      cases h
      exact ⟨List.length_take_of_le enough, (List.take_append_drop n s).symm⟩
    · cases h
  · rintro ⟨rfl, rfl⟩
    exact Bytes.splitExact?_append t rest

/-- A sequence succeeds exactly when both of its parts do. -/
theorem except_bind_eq_ok_iff {ε α β : Type} {x : Except ε α} {f : α → Except ε β} {b : β} :
    (x >>= f) = .ok b ↔ ∃ a, x = .ok a ∧ f a = .ok b := by
  cases x with
  | error e => exact ⟨nofun, nofun⟩
  | ok a =>
    constructor
    · exact fun h => ⟨a, rfl, h⟩
    · rintro ⟨_, ⟨⟩, h⟩
      exact h

theorem Kind.tag_lt (k : Kind) : k.tag < 256 ^ 4 := by
  cases k <;> decide

theorem Kind.tag_injective {j k : Kind} (h : j.tag = k.tag) : j = k := by
  have same := Kind.ofTag?_tag j
  rw [h, Kind.ofTag?_tag k] at same
  exact (Option.some.inj same).symm

namespace Wire

/-- Bytes are the word of the number that they give. -/
theorem word_ofWord (s : Bytes) : word s.length (ofWord s) = s := by
  induction s with
  | nil => rfl
  | cons b s ih =>
    have hb : b.toNat < 256 := b.toNat_lt
    have low : UInt8.ofNat (b.toNat + 256 * ofWord s) = b := by
      rw [← UInt8.toNat_inj, UInt8.toNat_ofNat']
      omega
    have high : (b.toNat + 256 * ofWord s) / 256 = ofWord s := by omega
    rw [ofWord, List.length_cons, word, low, high, ih]

/-- The number of a word is what the word keeps of it. -/
theorem ofWord_word (width n : Nat) : ofWord (word width n) = n % 256 ^ width := by
  induction width generalizing n with
  | zero => simp [word, ofWord, Nat.mod_one]
  | succ width ih =>
    have hb : (UInt8.ofNat n).toNat = n % 256 := by simp
    rw [word, ofWord, ih, hb, Nat.pow_succ', Nat.mod_mul]

theorem ofWord_lt (s : Bytes) : ofWord s < 256 ^ s.length := by
  induction s with
  | nil => simp [ofWord]
  | cons b s ih =>
    have hb : b.toNat < 256 := b.toNat_lt
    rw [ofWord, List.length_cons, Nat.pow_succ]
    omega

namespace Reader

variable {α β : Type} {r : Reader α} {f : α → Reader β} {layout : α → Bytes} {s rest : Bytes}

/-! ### Sequencing -/

/-- Among plain readers, lifting changes nothing. -/
theorem liftM_eq (r : Reader α) : (liftM r : Reader α) = r := rfl

theorem bind_of_eq_ok {a : α} {mid : Bytes} (h : r s = .ok (a, mid)) :
    (r >>= f) s = f a mid := by
  change (r s >>= fun p => f p.1 p.2) = _
  rw [h]
  rfl

theorem bind_of_eq_error {fault : ReadFault} (h : r s = .error fault) :
    (r >>= f) s = .error fault := by
  change (r s >>= fun p => f p.1 p.2) = _
  rw [h]
  rfl

theorem bind_eq_ok_iff {b : β} : (r >>= f) s = .ok (b, rest) ↔
    ∃ a mid, r s = .ok (a, mid) ∧ f a mid = .ok (b, rest) := by
  change (r s >>= fun p => f p.1 p.2) = _ ↔ _
  rw [except_bind_eq_ok_iff, Prod.exists]

@[simp] theorem pure_eq_ok_iff {a b : α} :
    (pure a : Reader α) s = .ok (b, rest) ↔ a = b ∧ s = rest := by
  change Except.ok (a, s) = _ ↔ _
  simp

@[simp] theorem throw_ne_ok {fault : ReadFault} {p : α × Bytes} :
    (throw fault : Reader α) s ≠ .ok p := nofun

theorem bind_pure_eq_ok_iff {g : α → β} {b : β} :
    (do return g (← r) : Reader β) s = .ok (b, rest) ↔ ∃ a, r s = .ok (a, rest) ∧ g a = b := by
  rw [bind_eq_ok_iff]
  constructor
  · rintro ⟨a, mid, ha, hb⟩
    obtain ⟨rfl, rfl⟩ := pure_eq_ok_iff.mp hb
    exact ⟨a, ha, rfl⟩
  · rintro ⟨a, ha, rfl⟩
    exact ⟨a, rest, ha, rfl⟩

/-! ### Readers and layouts -/

/-- A reader takes a value off the front of some bytes exactly when they start with the layout of
that value. -/
structure Inverts (r : Reader α) (layout : α → Bytes) : Prop where
  eq_ok_iff {s : Bytes} (hs : s.length < 2 ^ 64) {a : α} {rest : Bytes} :
    r s = .ok (a, rest) ↔ s = layout a ++ rest

theorem Inverts.read (h : Inverts r layout) {a : α} (hs : (layout a ++ rest).length < 2 ^ 64) :
    r (layout a ++ rest) = .ok (a, rest) :=
  (h.eq_ok_iff hs).mpr rfl

/-- The first item of a successful run. -/
theorem Inverts.of_bind (h : Inverts r layout) (hs : s.length < 2 ^ 64) {b : β}
    (hb : (r >>= f) s = .ok (b, rest)) :
    ∃ a mid, s = layout a ++ mid ∧ mid.length < 2 ^ 64 ∧ f a mid = .ok (b, rest) := by
  obtain ⟨a, mid, ha, hb⟩ := bind_eq_ok_iff.mp hb
  have split := (h.eq_ok_iff hs).mp ha
  refine ⟨a, mid, split, ?_, hb⟩
  rw [split, List.length_append] at hs
  omega

/-- A run whose first item is there. -/
theorem Inverts.bind_append (h : Inverts r layout) {a : α}
    (hs : (layout a ++ rest).length < 2 ^ 64) : (r >>= f) (layout a ++ rest) = f a rest :=
  bind_of_eq_ok (h.read hs)

/-- No layout starts another one. -/
theorem Inverts.append_inj (h : Inverts r layout) {a b : α} {t : Bytes}
    (hs : (layout a ++ rest).length < 2 ^ 64) (eq : layout a ++ rest = layout b ++ t) :
    a = b ∧ rest = t := by
  have hb := (h.eq_ok_iff hs).mpr eq
  rw [h.read hs] at hb
  simpa using hb

/-- Values with the same layout are equal. -/
theorem Inverts.layout_inj (h : Inverts r layout) {a b : α} (hs : (layout a).length < 2 ^ 64)
    (eq : layout a = layout b) : a = b := by
  have eq : layout a ++ [] = layout b ++ [] := by rw [eq]
  exact (h.append_inj (by rwa [List.append_nil]) eq).1

/-! ### Words -/

theorem word_eq_ok_iff {width n : Nat} :
    word width s = .ok (n, rest) ↔ n < 256 ^ width ∧ s = Wire.word width n ++ rest := by
  rw [word]
  constructor
  · intro h
    split at h
    · next bytes mid split =>
      obtain ⟨rfl, rfl⟩ := Bytes.splitExact?_eq_some_iff.mp split
      cases h
      rw [word_ofWord]
      exact ⟨ofWord_lt bytes, rfl⟩
    · cases h
  · rintro ⟨lt, rfl⟩
    rw [Bytes.splitExact?_eq_some_iff.mpr ⟨length_word width n, rfl⟩]
    dsimp only
    rw [ofWord_word, Nat.mod_eq_of_lt lt]

/-- A word whose number comes from a value of the word's width. -/
theorem word_inverts {width : Nat} {g : Nat → α} (back : α → Nat)
    (lt : ∀ a, back a < 256 ^ width) (left : ∀ n, n < 256 ^ width → back (g n) = n)
    (right : ∀ a, g (back a) = a) :
    Inverts (do return g (← word width)) fun a => Wire.word width (back a) where
  eq_ok_iff {s} _ {a rest} := by
    rw [bind_pure_eq_ok_iff]
    constructor
    · rintro ⟨n, hn, rfl⟩
      obtain ⟨hlt, rfl⟩ := word_eq_ok_iff.mp hn
      rw [left n hlt]
    · rintro rfl
      exact ⟨back a, word_eq_ok_iff.mpr ⟨lt a, rfl⟩, right a⟩

theorem byte_inverts : Inverts byte fun b => [b] := by
  have h : Inverts byte fun b => Wire.word 1 b.toNat := by
    refine word_inverts UInt8.toNat (fun b => b.toNat_lt) (fun n hn => ?_)
      (fun b => UInt8.ofNat_toNat)
    rw [UInt8.toNat_ofNat']
    exact Nat.mod_eq_of_lt hn
  simpa [Wire.word] using h

theorem int32_inverts : Inverts int32 Wire.int32 := by
  refine word_inverts (fun n : Int32 => n.toUInt32.toNat) (fun n => ?_) (fun n hn => ?_)
    (fun n => ?_)
  · exact n.toUInt32.toNat_lt
  · rw [UInt32.toUInt32_toInt32, UInt32.toNat_ofNat']
    exact Nat.mod_eq_of_lt hn
  · rw [UInt32.ofNat_toNat, Int32.toInt32_toUInt32]

theorem int64_inverts : Inverts int64 Wire.int64 := by
  refine word_inverts (fun n : Int64 => n.toUInt64.toNat) (fun n => ?_) (fun n hn => ?_)
    (fun n => ?_)
  · exact n.toUInt64.toNat_lt
  · rw [UInt64.toUInt64_toInt64, UInt64.toNat_ofNat']
    exact Nat.mod_eq_of_lt hn
  · rw [UInt64.ofNat_toNat, Int64.toInt64_toUInt64]

theorem double_inverts : Inverts double Wire.double := by
  refine word_inverts (fun d : Double => d.bits.toNat) (fun d => ?_) (fun n hn => ?_)
    (fun d => ?_)
  · exact d.bits.toNat_lt
  · rw [UInt64.toNat_ofNat']
    exact Nat.mod_eq_of_lt hn
  · rw [UInt64.ofNat_toNat]

theorem version_inverts : Inverts version fun v => Wire.word 2 v.toNat := by
  refine word_inverts UInt16.toNat (fun v => v.toNat_lt) (fun n hn => ?_)
    (fun v => UInt16.ofNat_toNat)
  rw [UInt16.toNat_ofNat']
  exact Nat.mod_eq_of_lt hn

theorem flag_inverts (bad : UInt8 → ReadFault) : Inverts (flag bad) Wire.bool where
  eq_ok_iff {s} hs {b rest} := by
    constructor
    · intro h
      obtain ⟨byte, mid, rfl, -, h⟩ := byte_inverts.of_bind hs h
      split at h
      · obtain ⟨rfl, rfl⟩ := pure_eq_ok_iff.mp h
        rfl
      · obtain ⟨rfl, rfl⟩ := pure_eq_ok_iff.mp h
        rfl
      · exact absurd h throw_ne_ok
    · rintro rfl
      cases b
      · exact byte_inverts.bind_append (a := 0) hs
      · exact byte_inverts.bind_append (a := 1) hs

theorem bool_inverts : Inverts bool Wire.bool := flag_inverts .badBool

/-! ### Runs and arrays -/

theorem exactly_eq_ok_iff {n : Nat} {t : Bytes} :
    exactly n s = .ok (t, rest) ↔ t.length = n ∧ s = t ++ rest := by
  rw [exactly, ← Bytes.splitExact?_eq_some_iff]
  cases Bytes.splitExact? n s with
  | none => simp
  | some p => simp [Prod.ext_iff]

theorem run_inverts : Inverts run Wire.run where
  eq_ok_iff {s} hs {t rest} := by
    rw [run, bind_eq_ok_iff]
    constructor
    · rintro ⟨n, mid, hn, ht⟩
      obtain ⟨-, rfl⟩ := word_eq_ok_iff.mp hn
      obtain ⟨rfl, rfl⟩ := exactly_eq_ok_iff.mp ht
      rw [Wire.run, List.append_assoc]
    · rintro rfl
      have short : t.length < 256 ^ 8 := by
        rw [List.length_append, length_run] at hs
        omega
      refine ⟨t.length, t ++ rest, word_eq_ok_iff.mpr ⟨short, ?_⟩,
        exactly_eq_ok_iff.mpr ⟨rfl, rfl⟩⟩
      rw [Wire.run, List.append_assoc]

theorem text_inverts : Inverts text Wire.text where
  eq_ok_iff {s} hs {t rest} := by
    constructor
    · intro h
      obtain ⟨bytes, mid, rfl, -, h⟩ := run_inverts.of_bind hs h
      cases decoded : Utf8.decode bytes with
      | error cause =>
        rw [decoded] at h
        exact absurd h throw_ne_ok
      | ok t =>
        rw [decoded] at h
        obtain ⟨rfl, rfl⟩ := pure_eq_ok_iff.mp h
        rw [Utf8.decode_eq_ok_iff.mp decoded, Wire.text]
    · rintro rfl
      rw [text, Wire.text, run_inverts.bind_append hs, Utf8.decode_encode]
      rfl

section Loops

variable {m : Type → Type} [Monad m] [LawfulMonad m]

/-- A loop that keeps the items in `done` puts the others behind them. -/
theorem replicateAfter_eq (item : m α) (n : Nat) (done : List α) :
    replicateAfter item n done = (do return done.reverse ++ (← replicate item n)) := by
  induction n generalizing done with
  | zero =>
    change pure done.reverse = pure [] >>= fun more => pure (done.reverse ++ more)
    rw [pure_bind, List.append_nil]
  | succ n ih =>
    rw [replicate, replicateAfter, replicateAfter, bind_assoc]
    refine congrArg (item >>= ·) (funext fun a => ?_)
    rw [ih, ih [a], bind_assoc]
    simp only [pure_bind, List.reverse_cons, List.append_assoc, List.reverse_nil, List.nil_append]

/-- A loop reads one item and then the others. -/
theorem replicate_succ (item : m α) (n : Nat) :
    replicate item (n + 1) = (do let a ← item; return a :: (← replicate item n)) :=
  congrArg (item >>= ·) (funext fun a => replicateAfter_eq item n [a])

end Loops

@[simp] theorem replicate_zero_eq_ok_iff {item : Reader α} {as : List α} :
    replicate item 0 s = .ok (as, rest) ↔ as = [] ∧ s = rest := by
  rw [replicate, replicateAfter, List.reverse_nil, pure_eq_ok_iff, eq_comm (a := as)]

theorem replicate_succ_eq_ok_iff {item : Reader α} {n : Nat} {as : List α} :
    replicate item (n + 1) s = .ok (as, rest) ↔
      ∃ a mid, item s = .ok (a, mid) ∧
        ∃ more, replicate item n mid = .ok (more, rest) ∧ as = a :: more := by
  rw [replicate_succ, bind_eq_ok_iff]
  simp only [bind_pure_eq_ok_iff, eq_comm (a := as)]

theorem replicate_eq_ok_iff {item : Reader α} (h : Inverts item layout) {n : Nat} {as : List α}
    (hs : s.length < 2 ^ 64) : replicate item n s = .ok (as, rest) ↔
      as.length = n ∧ s = as.flatMap layout ++ rest := by
  induction n generalizing s as with
  | zero =>
    rw [replicate_zero_eq_ok_iff, List.length_eq_zero_iff]
    constructor <;> rintro ⟨rfl, hs⟩ <;> exact ⟨rfl, hs⟩
  | succ n ih =>
    rw [replicate_succ_eq_ok_iff]
    constructor
    · rintro ⟨a, mid, ha, more, hmore, rfl⟩
      obtain rfl := (h.eq_ok_iff hs).mp ha
      obtain ⟨rfl, rfl⟩ := (ih (by rw [List.length_append] at hs; omega)).mp hmore
      simp
    · rintro ⟨hlen, rfl⟩
      cases as with
      | nil => simp at hlen
      | cons a more =>
        rw [List.flatMap_cons, List.append_assoc] at hs ⊢
        refine ⟨a, _, h.read hs, more, (ih ?_).mpr ⟨by simpa using hlen, rfl⟩, rfl⟩
        rw [List.length_append] at hs
        omega

/-- Every item takes a byte, so an array has no more items than bytes. -/
theorem length_le_length_flatMap (pos : ∀ a, 0 < (layout a).length) (as : List α) :
    as.length ≤ (as.flatMap layout).length := by
  induction as with
  | nil => simp
  | cons a as ih =>
    have := pos a
    rw [List.flatMap_cons, List.length_append, List.length_cons]
    omega

theorem array_inverts {item : Reader α} (h : Inverts item layout)
    (pos : ∀ a, 0 < (layout a).length) :
    Inverts (array item) (Wire.array layout) where
  eq_ok_iff {s} hs {as rest} := by
    rw [array, bind_eq_ok_iff]
    constructor
    · rintro ⟨n, mid, hn, has⟩
      obtain ⟨-, rfl⟩ := word_eq_ok_iff.mp hn
      rw [List.length_append] at hs
      obtain ⟨rfl, rfl⟩ := (replicate_eq_ok_iff h (by omega)).mp has
      rw [Wire.array, List.append_assoc]
    · rintro rfl
      have few := length_le_length_flatMap pos as
      rw [Wire.array, List.append_assoc] at hs ⊢
      rw [List.length_append] at hs
      have short : as.length < 256 ^ 8 := by
        rw [List.length_append] at hs
        omega
      exact ⟨as.length, _, word_eq_ok_iff.mpr ⟨short, rfl⟩,
        (replicate_eq_ok_iff h (by omega)).mpr ⟨rfl, rfl⟩⟩

/-! ### Kinds -/

theorem kind_eq_ok_iff {k : Kind} :
    kind s = .ok (k, rest) ↔ s = Wire.word 4 k.tag ++ rest := by
  rw [kind, bind_eq_ok_iff]
  constructor
  · rintro ⟨n, mid, hn, hk⟩
    obtain ⟨-, rfl⟩ := word_eq_ok_iff.mp hn
    cases found : Kind.ofTag? n with
    | none =>
      rw [found] at hk
      exact absurd hk throw_ne_ok
    | some k =>
      rw [found] at hk
      obtain ⟨rfl, rfl⟩ := pure_eq_ok_iff.mp hk
      rw [Kind.tag_of_ofTag? found]
  · rintro rfl
    refine ⟨k.tag, rest, word_eq_ok_iff.mpr ⟨k.tag_lt, rfl⟩, ?_⟩
    rw [Kind.ofTag?_tag]
    rfl

/-! ### Items with several parts -/

theorem code_inverts [Coded α] : Inverts (code : Reader α) Coded.bytes where
  eq_ok_iff {s} hs {a rest} := by
    constructor
    · intro h
      obtain ⟨c, mid, rfl, -, h⟩ := int32_inverts.of_bind hs h
      cases found : (Coded.ofCode? c : Option α) with
      | none =>
        rw [found] at h
        exact absurd h throw_ne_ok
      | some a =>
        rw [found] at h
        obtain ⟨rfl, rfl⟩ := pure_eq_ok_iff.mp h
        rw [Coded.bytes, Coded.code_of_ofCode? found]
    · rintro rfl
      rw [code, Coded.bytes, int32_inverts.bind_append hs, Coded.ofCode?_code]
      rfl

theorem object_inverts :
    Inverts object fun o => Wire.text o.typeName ++ Wire.run o.payload where
  eq_ok_iff {s} hs {o rest} := by
    constructor
    · intro h
      obtain ⟨typeName, s, rfl, hs, h⟩ := text_inverts.of_bind hs h
      obtain ⟨payload, s, rfl, hs, h⟩ := run_inverts.of_bind hs h
      obtain ⟨rfl, rfl⟩ := pure_eq_ok_iff.mp h
      rw [List.append_assoc]
    · rintro rfl
      rw [List.append_assoc] at hs ⊢
      rw [object, text_inverts.bind_append hs, run_inverts.bind_append]
      · rfl
      · rw [List.length_append] at hs
        omega

theorem media_inverts : Inverts media MediaProfile.bytes where
  eq_ok_iff {s} hs {m rest} := by
    constructor
    · intro h
      obtain ⟨audioQuality, s, rfl, hs, h⟩ := code_inverts.of_bind hs h
      obtain ⟨audioDirection, s, rfl, hs, h⟩ := code_inverts.of_bind hs h
      obtain ⟨videoBits, s, rfl, hs, h⟩ := int32_inverts.of_bind hs h
      obtain ⟨videoDirection, s, rfl, hs, h⟩ := code_inverts.of_bind hs h
      obtain ⟨rttMode, s, rfl, hs, h⟩ := code_inverts.of_bind hs h
      obtain ⟨rfl, rfl⟩ := pure_eq_ok_iff.mp h
      simp only [MediaProfile.bytes, List.append_assoc]
    · rintro rfl
      simp only [MediaProfile.bytes, List.append_assoc] at hs ⊢
      simp only [List.length_append] at hs
      rw [media, code_inverts.bind_append, code_inverts.bind_append, int32_inverts.bind_append,
        code_inverts.bind_append, code_inverts.bind_append]
      · rfl
      all_goals
        simp only [List.length_append]
        omega

end Reader

/-- A whole profile leaves nothing over. -/
theorem readContent_eq_ok_iff_content {s : Bytes} {c : Content} :
    readContent s = .ok c ↔ Reader.content s = .ok (c, []) := by
  rw [readContent]
  split <;> simp_all

end Wire

end ImsCall
