import Mathlib
import ImsCall.Text.Utf8

/-!
# Reading text is the inverse of writing it

The reader of `Text/Utf8` is a machine that takes one byte at a time. Here its runs are gathered
into whole sequences, one per character, and compared with the sequence that the character is
written as.

## Implementation notes

Everything is arithmetic on the numbers of bytes: `width?`, `mayFollow` and `isContinuation` are
restated on `UInt8.toNat`, and the four widths are the only case split. A sequence is opened by
`decodeFrom_two`, `decodeFrom_three` and `decodeFrom_four` in both directions of the main result,
so the machine is unfolded once per width.

## Main results

* `Utf8.decode_eq_ok_iff` — bytes are read as a text exactly when the text is written so
* `Utf8.encode_lt_encode_iff` — the order of texts is the order of their bytes
* `Utf8.length_encode` — how many bytes a text takes
-/

namespace ImsCall

namespace Utf8

variable {i : Nat} {done cs : List Char} {b b₁ b₂ b₃ : UInt8} {s : Bytes} {p : Pending}

/-! ### Bytes as numbers -/

theorem width?_eq (b : UInt8) : width? b =
    if b.toNat ≤ 0x7F then some 1
    else if b.toNat < 0xC2 then none
    else if b.toNat ≤ 0xDF then some 2
    else if b.toNat ≤ 0xEF then some 3
    else if b.toNat ≤ 0xF4 then some 4
    else none := by
  simp [width?, UInt8.le_iff_toNat_le, UInt8.lt_iff_toNat_lt]

theorem isContinuation_iff : isContinuation b = true ↔ 0x80 ≤ b.toNat ∧ b.toNat ≤ 0xBF := by
  simp [isContinuation, UInt8.le_iff_toNat_le]

/-- The second byte continues the sequence, and four lead bytes narrow its range. -/
theorem mayFollow_iff : mayFollow b b₁ = true ↔
    (0x80 ≤ b₁.toNat ∧ b₁.toNat ≤ 0xBF) ∧
      (b.toNat = 0xE0 → 0xA0 ≤ b₁.toNat) ∧ (b.toNat = 0xED → b₁.toNat ≤ 0x9F) ∧
      (b.toNat = 0xF0 → 0x90 ≤ b₁.toNat) ∧ (b.toNat = 0xF4 → b₁.toNat ≤ 0x8F) := by
  simp only [mayFollow, isContinuation, beq_iff_eq, UInt8.le_iff_toNat_le, ← UInt8.toNat_inj]
  simp
  grind

/-- A code point is no surrogate and at most `0x10FFFF`. -/
theorem toNat_valid (c : Char) :
    c.val.toNat < 0xD800 ∨ 0xDFFF < c.val.toNat ∧ c.val.toNat < 0x110000 := c.valid

/-- The character of a code point has that code point. -/
theorem toNat_ofNat {n : Nat} (h : n.isValidChar) : (Char.ofNat n).val.toNat = n := by
  rw [Char.ofNat, dif_pos h]
  rfl

/-! ### One sequence of the machine -/

theorem decodeFrom_one (hb : width? b = some 1) :
    decodeFrom i done none (b :: s) = decodeFrom (i + 1) (Char.ofNat b.toNat :: done) none s := by
  simp [decodeFrom, hb, leadBits]

theorem decodeFrom_lead {width : Nat} (hb : width? b = some width) (hw : width ≠ 1) :
    decodeFrom i done none (b :: s)
      = decodeFrom (i + 1) done (some ⟨b, width, 1, b.toNat % Nat.pow 2 (7 - width)⟩) s := by
  simp only [decodeFrom, hb, leadBits, if_neg hw]

theorem decodeFrom_middle (hb : p.accepts b = true) (hw : p.seen + 1 ≠ p.width) :
    decodeFrom i done (some p) (b :: s) = decodeFrom (i + 1) done (some (p.push b)) s := by
  simp [decodeFrom, hb, Pending.push, hw]

theorem decodeFrom_last (hb : p.accepts b = true) (hw : p.seen + 1 = p.width) :
    decodeFrom i done (some p) (b :: s)
      = decodeFrom (i + 1) (Char.ofNat (p.bits * 64 + b.toNat % 64) :: done) none s := by
  simp [decodeFrom, hb, Pending.push, hw]

theorem decodeFrom_two (hb : width? b = some 2) (h₁ : mayFollow b b₁ = true) :
    decodeFrom i done none (b :: b₁ :: s)
      = decodeFrom (i + 2) (Char.ofNat (b.toNat % 32 * 64 + b₁.toNat % 64) :: done) none s := by
  rw [decodeFrom_lead hb (by decide)]
  exact decodeFrom_last (p := ⟨b, 2, 1, _⟩) h₁ rfl

theorem decodeFrom_three (hb : width? b = some 3) (h₁ : mayFollow b b₁ = true)
    (h₂ : isContinuation b₂ = true) :
    decodeFrom i done none (b :: b₁ :: b₂ :: s)
      = decodeFrom (i + 3)
          (Char.ofNat ((b.toNat % 16 * 64 + b₁.toNat % 64) * 64 + b₂.toNat % 64) :: done)
          none s := by
  rw [decodeFrom_lead hb (by decide), decodeFrom_middle, decodeFrom_last]
  · rfl
  · exact h₂
  · rfl
  · exact h₁
  · simp

theorem decodeFrom_four (hb : width? b = some 4) (h₁ : mayFollow b b₁ = true)
    (h₂ : isContinuation b₂ = true) (h₃ : isContinuation b₃ = true) :
    decodeFrom i done none (b :: b₁ :: b₂ :: b₃ :: s)
      = decodeFrom (i + 4)
          (Char.ofNat (((b.toNat % 8 * 64 + b₁.toNat % 64) * 64 + b₂.toNat % 64) * 64
            + b₃.toNat % 64) :: done) none s := by
  rw [decodeFrom_lead hb (by decide), decodeFrom_middle, decodeFrom_middle, decodeFrom_last]
  · rfl
  · exact h₃
  · rfl
  · exact h₂
  · simp [Pending.push]
  · exact h₁
  · simp

/-- While a sequence is open there is a next byte, and the sequence accepts it. -/
theorem exists_cons_of_pending (h : decodeFrom i done (some p) s = .ok cs) :
    ∃ b rest, s = b :: rest ∧ p.accepts b = true ∧
      (p.seen + 1 ≠ p.width → decodeFrom (i + 1) done (some (p.push b)) rest = .ok cs) := by
  cases s with
  | nil => simp [decodeFrom] at h
  | cons b rest =>
    by_cases hb : p.accepts b = true
    · exact ⟨b, rest, rfl, hb, fun hw => by rwa [decodeFrom_middle hb hw] at h⟩
    · simp [decodeFrom, hb] at h

/-! ### Sequences and characters -/

/-- The sequence of a character is read as that character, whatever follows. -/
theorem decodeFrom_utf8EncodeChar (i : Nat) (done : List Char) (c : Char) (s : Bytes) :
    decodeFrom i done none (String.utf8EncodeChar c ++ s)
      = decodeFrom (i + c.utf8Size) (c :: done) none s := by
  suffices h : decodeFrom i done none (String.utf8EncodeChar c ++ s)
      = decodeFrom (i + (String.utf8EncodeChar c).length) (Char.ofNat c.val.toNat :: done) none s by
    rwa [String.length_utf8EncodeChar, show c.val.toNat = c.toNat from rfl,
      Char.ofNat_toNat] at h
  have valid := toNat_valid c
  unfold String.utf8EncodeChar
  generalize c.val.toNat = n at valid ⊢
  dsimp only
  split
  · rw [List.cons_append, decodeFrom_one]
    · simp only [UInt8.toNat_ofNat', Nat.mod_eq_of_lt (show n < 2 ^ 8 by omega),
        List.length_cons, List.length_nil, List.nil_append]
    · rw [width?_eq, if_pos]
      simp only [UInt8.toNat_ofNat']
      omega
  split
  · rw [List.cons_append, List.cons_append, decodeFrom_two]
    · simp only [UInt8.toNat_ofNat', List.length_cons, List.length_nil, List.nil_append]
      congr
      omega
    · rw [width?_eq, if_neg, if_neg, if_pos]
      all_goals simp only [UInt8.toNat_ofNat']; omega
    · rw [mayFollow_iff]
      simp only [UInt8.toNat_ofNat']
      omega
  split
  · rw [List.cons_append, List.cons_append, List.cons_append, decodeFrom_three]
    · simp only [UInt8.toNat_ofNat', List.length_cons, List.length_nil, List.nil_append]
      congr
      omega
    · rw [width?_eq, if_neg, if_neg, if_neg, if_pos]
      all_goals simp only [UInt8.toNat_ofNat']; omega
    · rw [mayFollow_iff]
      simp only [UInt8.toNat_ofNat']
      omega
    · rw [isContinuation_iff]
      simp only [UInt8.toNat_ofNat']
      omega
  · rw [List.cons_append, List.cons_append, List.cons_append, List.cons_append, decodeFrom_four]
    · simp only [UInt8.toNat_ofNat', List.length_cons, List.length_nil, List.nil_append]
      congr
      omega
    · rw [width?_eq, if_neg, if_neg, if_neg, if_neg, if_pos]
      all_goals simp only [UInt8.toNat_ofNat']; omega
    · rw [mayFollow_iff]
      simp only [UInt8.toNat_ofNat']
      omega
    · rw [isContinuation_iff]
      simp only [UInt8.toNat_ofNat']
      omega
    · rw [isContinuation_iff]
      simp only [UInt8.toNat_ofNat']
      omega

/-- Bytes that are read as text start with the sequence of a character. The bounds on the second
byte are what makes the number of the sequence a code point, and its width the shortest. -/
theorem exists_utf8EncodeChar_append (h : decodeFrom i done none (b :: s) = .ok cs) :
    ∃ c rest, b :: s = String.utf8EncodeChar c ++ rest := by
  have hb := width?_eq b
  split at hb
  · refine ⟨Char.ofNat b.toNat, s, ?_⟩
    rw [String.utf8EncodeChar, toNat_ofNat (.inl (by omega)), if_pos (by omega)]
    simp
  split at hb
  · simp [decodeFrom, hb] at h
  split at hb
  · rw [decodeFrom_lead hb (by decide)] at h
    obtain ⟨b₁, rest, rfl, h₁, -⟩ := exists_cons_of_pending h
    have h₁ := (mayFollow_iff (b := b)).mp h₁
    refine ⟨Char.ofNat (b.toNat % 32 * 64 + b₁.toNat % 64), rest, ?_⟩
    rw [String.utf8EncodeChar, toNat_ofNat (.inl (by omega)), if_neg (by omega),
      if_pos (by omega)]
    simp only [List.cons_append, List.nil_append, List.cons.injEq, ← UInt8.toNat_inj,
      UInt8.toNat_ofNat', and_true]
    omega
  split at hb
  · rw [decodeFrom_lead hb (by decide)] at h
    obtain ⟨b₁, s₁, rfl, h₁, h⟩ := exists_cons_of_pending h
    obtain ⟨b₂, rest, rfl, h₂, -⟩ := exists_cons_of_pending (h (by simp))
    have h₁ := (mayFollow_iff (b := b)).mp h₁
    have h₂ := isContinuation_iff.mp h₂
    refine ⟨Char.ofNat ((b.toNat % 16 * 64 + b₁.toNat % 64) * 64 + b₂.toNat % 64), rest, ?_⟩
    rw [String.utf8EncodeChar, toNat_ofNat (by rw [Nat.isValidChar]; omega),
      if_neg (by omega), if_neg (by omega), if_pos (by omega)]
    simp only [List.cons_append, List.nil_append, List.cons.injEq, ← UInt8.toNat_inj,
      UInt8.toNat_ofNat', and_true]
    omega
  split at hb
  · rw [decodeFrom_lead hb (by decide)] at h
    obtain ⟨b₁, s₁, rfl, h₁, h⟩ := exists_cons_of_pending h
    obtain ⟨b₂, s₂, rfl, h₂, h⟩ := exists_cons_of_pending (h (by simp))
    obtain ⟨b₃, rest, rfl, h₃, -⟩ := exists_cons_of_pending (h (by simp [Pending.push]))
    have h₁ := (mayFollow_iff (b := b)).mp h₁
    have h₂ := isContinuation_iff.mp h₂
    have h₃ := isContinuation_iff.mp h₃
    refine ⟨Char.ofNat (((b.toNat % 8 * 64 + b₁.toNat % 64) * 64 + b₂.toNat % 64) * 64
      + b₃.toNat % 64), rest, ?_⟩
    rw [String.utf8EncodeChar, toNat_ofNat (by rw [Nat.isValidChar]; omega),
      if_neg (by omega), if_neg (by omega), if_neg (by omega)]
    simp only [List.cons_append, List.nil_append, List.cons.injEq, ← UInt8.toNat_inj,
      UInt8.toNat_ofNat', and_true]
    omega
  · simp [decodeFrom, hb] at h

/-! ### Whole texts -/

theorem decodeFrom_flatMap (i : Nat) (done text : List Char) :
    decodeFrom i done none (text.flatMap String.utf8EncodeChar) = .ok (done.reverse ++ text) := by
  induction text generalizing i done with
  | nil => simp [decodeFrom]
  | cons c text ih =>
    rw [List.flatMap_cons, decodeFrom_utf8EncodeChar, ih]
    simp

/-- What is read was written: the induction takes off one sequence after the other. -/
theorem exists_text_of_decodeFrom (h : decodeFrom i done none s = .ok cs) :
    ∃ text, cs = done.reverse ++ text ∧ s = text.flatMap String.utf8EncodeChar := by
  induction hn : s.length using Nat.strongRecOn generalizing i done s with
  | _ n ih =>
    cases s with
    | nil => exact ⟨[], by simpa [decodeFrom, eq_comm] using h, rfl⟩
    | cons b s =>
      obtain ⟨c, rest, hs⟩ := exists_utf8EncodeChar_append h
      have shorter : rest.length < n := by
        have := congrArg List.length hs
        rw [List.length_append, String.length_utf8EncodeChar] at this
        have := c.utf8Size_pos
        omega
      rw [hs, decodeFrom_utf8EncodeChar] at h
      obtain ⟨text, rfl, rfl⟩ := ih _ shorter h rfl
      exact ⟨c :: text, by simp, hs⟩

/-- **Bytes are read as a text exactly when the text is written so.** -/
theorem decode_eq_ok_iff {text : String} : decode s = .ok text ↔ s = encode text := by
  rw [decode, encode]
  constructor
  · intro h
    cases hs : decodeFrom 0 [] none s with
    | error fault => simp [hs, Except.map] at h
    | ok cs =>
      obtain ⟨cs, rfl, rfl⟩ := exists_text_of_decodeFrom hs
      rw [hs] at h
      cases h
      simp
  · rintro rfl
    rw [decodeFrom_flatMap]
    simp [Except.map]

@[simp] theorem decode_encode (text : String) : decode (encode text) = .ok text :=
  decode_eq_ok_iff.mpr rfl

theorem length_encode (text : String) : (encode text).length = size text := by
  rw [encode, size, List.length_flatMap, List.sum_eq_foldr, List.foldr_map]
  simp only [String.length_utf8EncodeChar]

/-! ### Order -/

/-- A smaller character has the smaller sequence, at a byte that both sequences have. -/
theorem utf8EncodeChar_append_lt {c d : Char} (h : c < d) (s t : Bytes) :
    String.utf8EncodeChar c ++ s < String.utf8EncodeChar d ++ t := by
  have lt : c.val.toNat < d.val.toNat := UInt32.lt_iff_toNat_lt.mp h
  have valid := toNat_valid d
  have tail : ∀ n, (n % 0x40 + 0x80) % 2 ^ 8 = n % 0x40 + 0x80 := fun n => by omega
  have lead : ∀ n, (n % 0x08 + 0xf0) % 2 ^ 8 = n % 0x08 + 0xf0 := fun n => by omega
  -- one digit after the other, so that comparing numbers is comparing digits
  have third : ∀ n : Nat, n / 4096 = n / 64 / 64 := fun n => by omega
  have fourth : ∀ n : Nat, n / 262144 = n / 64 / 64 / 64 := fun n => by omega
  unfold String.utf8EncodeChar
  generalize c.val.toNat = m at lt ⊢
  generalize d.val.toNat = n at lt valid ⊢
  dsimp only
  repeat' split
  all_goals
    simp only [List.cons_append, List.cons_lt_cons_iff, List.nil_append, UInt8.lt_iff_toNat_lt,
      UInt8.toNat_ofNat', ← UInt8.toNat_inj, tail, lead, third, fourth]
    omega

theorem flatMap_utf8EncodeChar_lt {a b : List Char} (h : a < b) :
    a.flatMap String.utf8EncodeChar < b.flatMap String.utf8EncodeChar := by
  induction a generalizing b with
  | nil =>
    cases b with
    | nil => exact absurd h (List.lt_irrefl [])
    | cons d b =>
      obtain ⟨lead, rest, hd⟩ := List.exists_cons_of_ne_nil (String.utf8EncodeChar_ne_nil (c := d))
      rw [List.flatMap_cons, hd]
      exact List.nil_lt_cons lead _
  | cons c a ih =>
    cases b with
    | nil => exact absurd h (List.not_lt_nil _)
    | cons d b =>
      rw [List.flatMap_cons, List.flatMap_cons]
      rcases List.cons_lt_cons_iff.mp h with lt | ⟨rfl, lt⟩
      · exact utf8EncodeChar_append_lt lt _ _
      · exact List.append_left_lt (ih lt)

/-- **The order of texts is the order of their bytes.** -/
theorem encode_lt_encode_iff {a b : String} : encode a < encode b ↔ a < b := by
  constructor
  · intro h
    rcases Std.lt_trichotomy a b with lt | rfl | gt
    · exact lt
    · exact absurd h (List.lt_irrefl _)
    · exact absurd (flatMap_utf8EncodeChar_lt (String.lt_iff.mp gt)) (List.lt_asymm h)
  · intro h
    exact flatMap_utf8EncodeChar_lt (String.lt_iff.mp h)

end Utf8

end ImsCall
