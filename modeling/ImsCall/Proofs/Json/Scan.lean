import Mathlib
import ImsCall.Json.Printer
import ImsCall.Json.Token

/-!
# Scalars in JSON text

A text is cut into tokens from the front. Here each scalar that is written is shown to be cut off as
one token, whatever follows it: the constants, texts with all that is escaped in them, and integers.

A numeral has no closing mark. It ends where the next character is no part of one, so it is cut off
as a whole only where a value may end: in front of a bracket or separator, or at the end of the text.

## Main definitions

* `Json.Delimited` — where a value may end

## Main results

* `Json.scanAfter_punctuation`, `Json.scanAfter_null`, `Json.scanAfter_true`,
  `Json.scanAfter_false` — tokens that are always written alike
* `Json.scanAfter_quoteOnto` — a text in quotes is one token
* `Json.scanAfter_ofInt` — an integer is one token
-/

namespace ImsCall

namespace Json

variable {done : List Token} {rest : List Char}

/-- Where a value may end: at the end of the text, or in front of a bracket or separator. -/
def Delimited : List Char → Prop
  | [] => True
  | c :: _ => (punctuation? c).isSome

/-- A bracket or separator is one of six characters. -/
theorem punctuation?_cases {c : Char} {token : Token} (h : punctuation? c = some token) :
    c = '[' ∨ c = ']' ∨ c = '\x7b' ∨ c = '\x7d' ∨ c = ',' ∨ c = ':' := by
  unfold punctuation? at h
  split at h <;> simp_all

theorem scanAfter_punctuation {c : Char} {token : Token} (h : punctuation? c = some token) :
    Token.scanAfter done (c :: rest) = Token.scanAfter (token :: done) rest := by
  rcases punctuation?_cases h with rfl | rfl | rfl | rfl | rfl | rfl <;>
  · obtain rfl := Option.some.inj h
    rw [Token.scanAfter] <;> simp [isBlank, punctuation?]

theorem scanAfter_null :
    Token.scanAfter done ("null".toList ++ rest) = Token.scanAfter (.null :: done) rest := by
  rw [show "null".toList ++ rest = 'n' :: 'u' :: 'l' :: 'l' :: rest from rfl, Token.scanAfter]

theorem scanAfter_true :
    Token.scanAfter done ("true".toList ++ rest) = Token.scanAfter (.bool true :: done) rest := by
  rw [show "true".toList ++ rest = 't' :: 'r' :: 'u' :: 'e' :: rest from rfl, Token.scanAfter]

theorem scanAfter_false :
    Token.scanAfter done ("false".toList ++ rest) = Token.scanAfter (.bool false :: done) rest := by
  rw [show "false".toList ++ rest = 'f' :: 'a' :: 'l' :: 's' :: 'e' :: rest from rfl,
    Token.scanAfter]

/-! ### Texts -/

theorem hexValue?_char {n : Nat} (h : n < 16) : Digit.hexValue? (Digit.char n) = some n := by
  revert h n
  decide

theorem hexNumber?_unicode {n : Nat} (h : n < 65536) :
    hexNumber? (Digit.char (n / 4096 % 16)) (Digit.char (n / 256 % 16)) (Digit.char (n / 16 % 16))
      (Digit.char (n % 16)) = some n := by
  have digits : n / 4096 % 16 < 16 ∧ n / 256 % 16 < 16 ∧ n / 16 % 16 < 16 ∧ n % 16 < 16 := by omega
  obtain ⟨h₃, h₂, h₁, h₀⟩ := digits
  simp only [hexNumber?, List.mapM_cons, List.mapM_nil, hexValue?_char, h₃, h₂, h₁, h₀]
  simp only [Digit.number, Option.pure_def, Option.bind_eq_bind, Option.bind_some, List.foldl_cons,
    List.foldl_nil, Option.some.injEq]
  omega

/-- A number below the surrogates is a character of its own. -/
theorem pushEscape_of_lt {n : Nat} (h : n < 0xD800) (done : List Glyph) :
    pushEscape n done = .char (Char.ofNat n) :: done := by
  have alone : isSurrogate n = false := by
    rw [isSurrogate]
    simp
    omega
  unfold pushEscape
  split
  · rw [if_neg (by omega), alone]
    rfl
  · rw [alone]
    rfl

/-- **A written character is read back**, whatever follows. -/
theorem scanGlyphs_writtenChar (done : List Glyph) (c : Char) (rest : List Char) :
    scanGlyphs done (writtenChar c ++ rest) = scanGlyphs (.char c :: done) rest := by
  have numbered : Char.ofNat c.toNat = c := Char.ofNat_toNat c
  unfold writtenChar
  split
  · next h => subst h; rfl
  split
  · next h => subst h; rfl
  split
  · next h => rw [← numbered, h]; rfl
  split
  · next h => rw [← numbered, h]; rfl
  split
  · next h => subst h; rfl
  split
  · next h => subst h; rfl
  split
  · next h => subst h; rfl
  split
  · next h =>
    rw [unicodeEscape, List.cons_append, List.cons_append, List.cons_append, List.cons_append,
      List.cons_append, List.cons_append, List.nil_append, scanGlyphs,
      hexNumber?_unicode (by omega)]
    show scanGlyphs (pushEscape c.toNat done) rest = _
    rw [pushEscape_of_lt (by omega), numbered]
  · next quote backslash _ _ _ _ _ visible =>
    rw [List.cons_append, List.nil_append, scanGlyphs, if_neg visible]
    all_goals simp [quote, backslash]

theorem scanGlyphs_ofText (done : List Glyph) (s : String) (rest : List Char) :
    scanGlyphs done ((Glyph.ofText s).flatMap writtenGlyph ++ '"' :: rest)
      = some (done.reverse ++ Glyph.ofText s, rest) := by
  rw [Glyph.ofText]
  induction s.toList generalizing done with
  | nil => rw [List.map_nil, List.append_nil]; rfl
  | cons c cs ih =>
    rw [List.map_cons, List.flatMap_cons, List.append_assoc, writtenGlyph, scanGlyphs_writtenChar,
      ih, List.reverse_cons, List.append_assoc]
    rfl

theorem scanAfter_quoteOnto (s : String) :
    Token.scanAfter done (quoteOnto (Glyph.ofText s) rest)
      = Token.scanAfter (.text (Glyph.ofText s) :: done) rest := by
  have scanned := scanGlyphs_ofText [] s rest
  rw [quoteOnto, Token.scanAfter, if_neg (by decide), if_pos rfl]
  · split
    · next found =>
      obtain ⟨rfl, rfl⟩ := Prod.mk.inj (Option.some.inj (found.symm.trans scanned))
      rfl
    · next missing => cases missing.symm.trans scanned
  all_goals simp

/-! ### Numerals -/

theorem value?_of_isDigit {c : Char} (h : c.isDigit = true) :
    Digit.value? 10 c = some (c.toNat - 48) := by
  have bounds : 48 ≤ c.toNat ∧ c.toNat ≤ 57 := by
    simpa [Char.isDigit, UInt32.le_iff_toNat_le] using h
  have decimal : Digit.isDecimal c = true := by
    simpa [Digit.isDecimal, Char.le_def, UInt32.le_iff_toNat_le] using bounds
  rw [Digit.value?, Digit.hexValue?, if_pos decimal, Option.filter_some, if_pos]
  simp
  omega

/-- What holds at the end of the text and in front of each mark holds where a value may end. -/
theorem Delimited.elim {p : List Char → Prop} (h : Delimited rest) (nil : p [])
    (marks : ∀ s, p ('[' :: s) ∧ p (']' :: s) ∧ p ('\x7b' :: s) ∧ p ('\x7d' :: s) ∧ p (',' :: s) ∧
      p (':' :: s)) : p rest := by
  cases rest with
  | nil => exact nil
  | cons c s =>
    obtain ⟨token, mark⟩ := Option.isSome_iff_exists.mp h
    obtain ⟨openArray, closeArray, openObject, closeObject, comma, colon⟩ := marks s
    rcases punctuation?_cases mark with rfl | rfl | rfl | rfl | rfl | rfl <;> assumption

/-! Where a value may end there is no digit, no fraction and no exponent. -/

theorem spanDigits_of_delimited (h : Delimited rest) : spanDigits rest = ([], rest) :=
  h.elim (p := fun s => spanDigits s = ([], s)) rfl fun _ => ⟨rfl, rfl, rfl, rfl, rfl, rfl⟩

theorem scanFraction_of_delimited (h : Delimited rest) : scanFraction rest = some (none, rest) :=
  h.elim (p := fun s => scanFraction s = some (none, s)) rfl fun _ =>
    ⟨rfl, rfl, rfl, rfl, rfl, rfl⟩

theorem scanExponent_of_delimited (h : Delimited rest) : scanExponent rest = some (none, rest) :=
  h.elim (p := fun s => scanExponent s = some (none, s)) rfl fun _ =>
    ⟨rfl, rfl, rfl, rfl, rfl, rfl⟩

theorem spanDigits_append {digits : List Char} (all : ∀ c ∈ digits, c.isDigit = true)
    (h : Delimited rest) :
    spanDigits (digits ++ rest) = (digits.map fun c => c.toNat - 48, rest) := by
  induction digits with
  | nil => exact spanDigits_of_delimited h
  | cons c digits ih =>
    obtain ⟨isDigit, all⟩ := List.forall_mem_cons.mp all
    rw [List.cons_append, spanDigits, value?_of_isDigit isDigit, ih all]
    rfl

theorem scanNumber_toDigits (n : Nat) (h : Delimited rest) :
    scanNumber (Nat.toDigits 10 n ++ rest) = some (n, rest) := by
  have all : ∀ c ∈ Nat.toDigits 10 n, c.isDigit = true := fun c =>
    Nat.isDigit_of_mem_toDigits (by decide) (by decide)
  have value : Digit.number 10 ((Nat.toDigits 10 n).map fun c => c.toNat - 48) = n := by
    rw [Digit.number, List.foldl_map]
    have back := Nat.ofDigitChars_toDigits (b := 10) (n := n) (by decide) (by decide)
    rw [Nat.ofDigitChars_eq_foldl] at back
    simpa only [Nat.mul_comm, show '0'.toNat = 48 from rfl] using back
  have nonempty : ((Nat.toDigits 10 n).map fun c => c.toNat - 48).isEmpty = false := by
    rw [List.isEmpty_eq_false_iff, ne_eq, List.map_eq_nil_iff]
    exact Nat.toDigits_ne_nil
  rw [scanNumber, scanDigits, spanDigits_append all h]
  simp only [nonempty]
  simp [value]

theorem toDigits_eq_cons (n : Nat) :
    ∃ c cs, Nat.toDigits 10 n = c :: cs ∧ c.isDigit = true := by
  obtain ⟨c, cs, eq⟩ := List.exists_cons_of_ne_nil (Nat.toDigits_ne_nil (b := 10) (n := n))
  refine ⟨c, cs, eq, Nat.isDigit_of_mem_toDigits (b := 10) (n := n) (by decide) (by decide) ?_⟩
  rw [eq]
  exact List.mem_cons_self

theorem toDigits_eq_cons_of_pos {n : Nat} (h : 0 < n) :
    ∃ c cs, Nat.toDigits 10 n = c :: cs ∧ c ≠ '0' := by
  induction n using Nat.strongRecOn with
  | ind n ih =>
    rw [Nat.toDigits_eq_if (by decide)]
    split
    · next lt =>
      refine ⟨n.digitChar, [], rfl, ?_⟩
      interval_cases n <;> decide
    · next ge =>
      obtain ⟨c, cs, eq, ne⟩ := ih (n / 10) (by omega) (by omega)
      exact ⟨c, cs ++ [(n % 10).digitChar], by rw [eq]; rfl, ne⟩

theorem scanWhole_toDigits (n : Nat) (h : Delimited rest) :
    scanWhole (Nat.toDigits 10 n ++ rest) = some (n, rest) := by
  rcases Nat.eq_zero_or_pos n with rfl | pos
  · rfl
  · obtain ⟨c, cs, eq, ne⟩ := toDigits_eq_cons_of_pos pos
    rw [← scanNumber_toDigits n h, eq, List.cons_append, scanWhole]
    intro rest' clash
    exact ne (List.cons.inj clash).1

theorem scanUnsigned_toDigits (negative : Bool) (n : Nat) (h : Delimited rest) :
    scanUnsigned negative (Nat.toDigits 10 n ++ rest)
      = some ({ negative, whole := n }, rest) := by
  rw [scanUnsigned, scanWhole_toDigits n h]
  show (scanFraction rest).bind _ = _
  rw [scanFraction_of_delimited h]
  show (scanExponent rest).bind _ = _
  rw [scanExponent_of_delimited h]
  rfl

theorem render_ofInt (n : Int) : (Numeral.ofInt n).render.toList
    = if n < 0 then '-' :: Nat.toDigits 10 n.natAbs else Nat.toDigits 10 n.natAbs := by
  have digits : (toString n.natAbs).toList = Nat.toDigits 10 n.natAbs := Nat.toList_repr
  simp only [Numeral.ofInt, Numeral.render, String.append_empty, String.toList_append, digits,
    decide_eq_true_eq]
  split <;> rfl

/-- A numeral starts with a sign or a digit. -/
def StartsNumeral (c : Char) : Prop := c = '-' ∨ c.isDigit = true

theorem StartsNumeral.ne {c d : Char} (h : StartsNumeral c) (sign : d ≠ '-')
    (digit : d.isDigit = false) : c ≠ d := by
  rintro rfl
  rcases h with h | h
  · exact sign h
  · exact absurd (h.symm.trans digit) (by decide)

theorem StartsNumeral.punctuation? {c : Char} (h : StartsNumeral c) :
    punctuation? c = none := by
  cases found : Json.punctuation? c with
  | none => rfl
  | some token =>
    rcases punctuation?_cases found with rfl | rfl | rfl | rfl | rfl | rfl <;>
      exact absurd rfl (h.ne (by decide) (by decide))

theorem scanNumeral_ofInt (n : Int) (h : Delimited rest) :
    scanNumeral ((Numeral.ofInt n).render.toList ++ rest) = some (Numeral.ofInt n, rest) := by
  rw [render_ofInt]
  split
  · next negative =>
    rw [List.cons_append, scanNumeral, scanUnsigned_toDigits true n.natAbs h, Numeral.ofInt,
      decide_eq_true negative]
  · next nonneg =>
    obtain ⟨c, cs, eq, isDigit⟩ := toDigits_eq_cons n.natAbs
    have unsigned := scanUnsigned_toDigits false n.natAbs h
    rw [eq, List.cons_append] at unsigned ⊢
    rw [scanNumeral, unsigned, Numeral.ofInt, decide_eq_false nonneg]
    rintro s clash
    obtain rfl := (List.cons.inj clash).1
    cases isDigit

theorem scanAfter_numeral {c : Char} {s : List Char} {n : Numeral} (start : StartsNumeral c)
    (h : scanNumeral (c :: s) = some (n, rest)) :
    Token.scanAfter done (c :: s) = Token.scanAfter (.number n :: done) rest := by
  have noBlank : ¬ isBlank c = true := by
    simp only [isBlank, Bool.or_eq_true, decide_eq_true_eq]
    rintro (((blank | blank) | blank) | blank) <;>
      exact start.ne (by decide) (by decide) blank
  rw [Token.scanAfter, if_neg noBlank, if_neg (start.ne (by decide) (by decide))]
  · split
    · next found => cases start.punctuation?.symm.trans found
    · split
      · next found =>
        obtain ⟨rfl, rfl⟩ := Prod.mk.inj (Option.some.inj (found.symm.trans h))
        rfl
      · next missing => cases missing.symm.trans h
  all_goals exact fun _ clash _ => start.ne (by decide) (by decide) clash

theorem scanAfter_ofInt (n : Int) (h : Delimited rest) :
    Token.scanAfter done ((Numeral.ofInt n).render.toList ++ rest)
      = Token.scanAfter (.number (.ofInt n) :: done) rest := by
  have start : ∃ c cs, (Numeral.ofInt n).render.toList = c :: cs ∧ StartsNumeral c := by
    rw [render_ofInt]
    split
    · exact ⟨'-', _, rfl, .inl rfl⟩
    · obtain ⟨c, cs, eq, isDigit⟩ := toDigits_eq_cons n.natAbs
      exact ⟨c, cs, eq, .inr isDigit⟩
  obtain ⟨c, cs, eq, start⟩ := start
  have scanned := scanNumeral_ofInt n h
  rw [eq, List.cons_append] at scanned ⊢
  exact scanAfter_numeral start scanned

end Json

end ImsCall
