import ImsCall.Json.Tree

/-!
# JSON tokens

A JSON text is cut into tokens: brackets, separators, and whole scalars. Blanks between tokens
are left out. Two scalars never stand side by side in a JSON text, so cutting each as long as
possible loses nothing.

## Main definitions

* `Json.Token` — a token
* `Json.Token.scan?` — the tokens of a text

## Main results

* `Json.length_scanGlyphs`, `Json.length_scanNumeral` — scanning consumes characters
-/

namespace ImsCall

namespace Json

/-- A token of a JSON text. -/
inductive Token where
  | openArray
  | closeArray
  | openObject
  | closeObject
  | comma
  | colon
  | null
  | bool (b : Bool)
  | number (n : Numeral)
  | text (glyphs : List Glyph)
  deriving DecidableEq, Repr

/-! ### Texts -/

/-- The number of four hexadecimal digits. -/
def hexNumber? (a b c d : Char) : Option Nat := do
  return Digit.number 16 (← [a, b, c, d].mapM Digit.hexValue?)

/-- Whether a number is a half of a surrogate pair. -/
def isSurrogate (n : Nat) : Bool := 0xD800 ≤ n && n ≤ 0xDFFF

/-- The character that a letter after a backslash stands for. -/
def escaped? : Char → Option Char
  | '"' => some '"'
  | '\\' => some '\\'
  | '/' => some '/'
  | 'b' => some (Char.ofNat 8)
  | 'f' => some (Char.ofNat 12)
  | 'n' => some '\n'
  | 'r' => some '\r'
  | 't' => some '\t'
  | _ => none

/-- Puts an escaped number behind the glyphs read so far (last one first). The second half of a
surrogate pair joins the first one if that was just read. -/
def pushEscape (n : Nat) (done : List Glyph) : List Glyph :=
  match done with
  | .surrogate high :: before =>
    if high < 0xDC00 ∧ 0xDC00 ≤ n ∧ n ≤ 0xDFFF then
      .char (Char.ofNat (0x10000 + (high - 0xD800) * 1024 + (n - 0xDC00))) :: before
    else if isSurrogate n then .surrogate n :: done
    else .char (Char.ofNat n) :: done
  | _ => if isSurrogate n then .surrogate n :: done else .char (Char.ofNat n) :: done

/-- The glyphs up to the closing quote, after those in `done` (last one first), and what follows
the quote. -/
def scanGlyphs (done : List Glyph) : List Char → Option (List Glyph × List Char)
  | [] => none
  | '"' :: rest => some (done.reverse, rest)
  | '\\' :: 'u' :: a :: b :: c :: d :: rest =>
    match hexNumber? a b c d with
    | some n => scanGlyphs (pushEscape n done) rest
    | none => none
  | '\\' :: e :: rest =>
    match escaped? e with
    | some c => scanGlyphs (.char c :: done) rest
    | none => none
  | c :: rest => scanGlyphs ((if c.toNat < 32 then .control c else .char c) :: done) rest

theorem length_scanGlyphs {done glyphs : List Glyph} {s rest : List Char}
    (h : scanGlyphs done s = some (glyphs, rest)) : rest.length < s.length := by
  fun_induction scanGlyphs done s with
  | case1 => simp at h
  | case2 => simp_all
  | case3 _ a b c d t n hn ih =>
    have := ih h
    simp only [List.length_cons]
    omega
  | case4 => simp at h
  | case5 _ e t _ c hc ih =>
    have := ih h
    simp only [List.length_cons]
    omega
  | case6 => simp at h
  | case7 _ c t _ _ _ ih =>
    have := ih h
    simp only [List.length_cons]
    omega

/-! ### Numerals -/

/-- The digits at the front, and the rest. -/
def spanDigits : List Char → List Nat × List Char
  | [] => ([], [])
  | c :: s =>
    match Digit.value? 10 c with
    | some d =>
      let (digits, rest) := spanDigits s
      (d :: digits, rest)
    | none => ([], c :: s)

theorem length_spanDigits (s : List Char) :
    (spanDigits s).1.length + (spanDigits s).2.length = s.length := by
  induction s with
  | nil => rfl
  | cons c s ih =>
    rw [spanDigits]
    split
    · simp only [List.length_cons]; omega
    · simp

/-- At least one digit, and the rest. -/
def scanDigits (s : List Char) : Option (List Nat × List Char) :=
  let (digits, rest) := spanDigits s
  if digits.isEmpty then none else some (digits, rest)

/-- A number, and the rest. -/
def scanNumber (s : List Char) : Option (Nat × List Char) := do
  let (digits, rest) ← scanDigits s
  return (Digit.number 10 digits, rest)

/-- The whole part of a numeral: a zero alone, or digits that do not start with one. -/
def scanWhole : List Char → Option (Nat × List Char)
  | '0' :: rest => some (0, rest)
  | s => scanNumber s

/-- The fraction of a numeral, if one stands here. -/
def scanFraction : List Char → Option (Option (List Nat) × List Char)
  | '.' :: s => do
    let (digits, rest) ← scanDigits s
    return (some digits, rest)
  | s => some (none, s)

/-- The sign and the digits of an exponent. -/
def scanExponentNumber : List Char → Option (Int × List Char)
  | '-' :: s => do
    let (n, rest) ← scanNumber s
    return (-n, rest)
  | '+' :: s => do
    let (n, rest) ← scanNumber s
    return (n, rest)
  | s => do
    let (n, rest) ← scanNumber s
    return (n, rest)

/-- The exponent of a numeral, if one stands here. -/
def scanExponent : List Char → Option (Option Int × List Char)
  | [] => some (none, [])
  | c :: s =>
    if c = 'e' ∨ c = 'E' then do
      let (e, rest) ← scanExponentNumber s
      return (some e, rest)
    else some (none, c :: s)

/-- A numeral without sign. -/
def scanUnsigned (negative : Bool) (s : List Char) : Option (Numeral × List Char) := do
  let (whole, s) ← scanWhole s
  let (fraction, s) ← scanFraction s
  let (exponent, s) ← scanExponent s
  return ({ negative, whole, fraction, exponent }, s)

/-- A numeral. -/
def scanNumeral : List Char → Option (Numeral × List Char)
  | '-' :: s => scanUnsigned true s
  | s => scanUnsigned false s

theorem length_scanDigits {s rest : List Char} {digits : List Nat}
    (h : scanDigits s = some (digits, rest)) : rest.length < s.length := by
  have hlen := length_spanDigits s
  simp only [scanDigits, List.isEmpty_iff, Option.ite_none_left_eq_some, Option.some.injEq] at h
  obtain ⟨hne, heq⟩ := h
  have := List.length_pos_iff.mpr hne
  rw [← (Prod.mk.inj heq).2]
  omega

theorem length_scanNumber {s rest : List Char} {n : Nat} (h : scanNumber s = some (n, rest)) :
    rest.length < s.length := by
  simp only [scanNumber, Option.bind_eq_bind, Option.pure_def, Option.bind_eq_some_iff,
    Option.some.injEq, Prod.mk.injEq, Prod.exists] at h
  obtain ⟨_, _, hs, _, rfl⟩ := h
  exact length_scanDigits hs

theorem length_scanWhole {s rest : List Char} {n : Nat} (h : scanWhole s = some (n, rest)) :
    rest.length < s.length := by
  unfold scanWhole at h
  split at h
  · simp_all
  · exact length_scanNumber h

theorem length_scanFraction {s rest : List Char} {f : Option (List Nat)}
    (h : scanFraction s = some (f, rest)) : rest.length ≤ s.length := by
  unfold scanFraction at h
  split at h
  · simp only [Option.bind_eq_bind, Option.pure_def, Option.bind_eq_some_iff, Option.some.injEq,
      Prod.mk.injEq, Prod.exists] at h
    obtain ⟨_, _, hs, _, rfl⟩ := h
    have := length_scanDigits hs
    simp only [List.length_cons]
    omega
  · simp_all

theorem length_scanExponentNumber {s rest : List Char} {e : Int}
    (h : scanExponentNumber s = some (e, rest)) : rest.length < s.length := by
  unfold scanExponentNumber at h
  split at h <;>
    simp only [Option.bind_eq_bind, Option.pure_def, Option.bind_eq_some_iff, Option.some.injEq,
      Prod.mk.injEq, Prod.exists] at h <;>
    obtain ⟨_, _, hs, _, rfl⟩ := h <;>
    have := length_scanNumber hs <;>
    grind

theorem length_scanExponent {s rest : List Char} {e : Option Int}
    (h : scanExponent s = some (e, rest)) : rest.length ≤ s.length := by
  unfold scanExponent at h
  split at h
  · simp_all
  · split at h
    · simp only [Option.bind_eq_bind, Option.pure_def, Option.bind_eq_some_iff,
        Option.some.injEq, Prod.mk.injEq, Prod.exists] at h
      obtain ⟨_, _, hs, _, rfl⟩ := h
      have := length_scanExponentNumber hs
      simp only [List.length_cons]
      omega
    · simp_all

theorem length_scanUnsigned {negative : Bool} {s rest : List Char} {n : Numeral}
    (h : scanUnsigned negative s = some (n, rest)) : rest.length < s.length := by
  simp only [scanUnsigned, Option.bind_eq_bind, Option.pure_def, Option.bind_eq_some_iff,
    Option.some.injEq, Prod.mk.injEq, Prod.exists] at h
  obtain ⟨_, _, h₁, _, _, h₂, _, _, h₃, _, rfl⟩ := h
  have := length_scanWhole h₁
  have := length_scanFraction h₂
  have := length_scanExponent h₃
  omega

theorem length_scanNumeral {s rest : List Char} {n : Numeral}
    (h : scanNumeral s = some (n, rest)) : rest.length < s.length := by
  unfold scanNumeral at h
  split at h
  · have := length_scanUnsigned h
    simp only [List.length_cons]; omega
  · exact length_scanUnsigned h

/-! ### Tokens -/

/-- Whether a character may stand between tokens. -/
def isBlank (c : Char) : Bool := c = ' ' || c = '\t' || c = '\n' || c = '\r'

/-- The token of a single character. -/
def punctuation? : Char → Option Token
  | '[' => some .openArray
  | ']' => some .closeArray
  | '\x7b' => some .openObject
  | '\x7d' => some .closeObject
  | ',' => some .comma
  | ':' => some .colon
  | _ => none

/-- The tokens of a text, after those in `done` (last one first). -/
def Token.scanAfter (done : List Token) (s : List Char) : Option (List Token) :=
  match s with
  | [] => some done.reverse
  | 'n' :: 'u' :: 'l' :: 'l' :: rest => scanAfter (.null :: done) rest
  | 't' :: 'r' :: 'u' :: 'e' :: rest => scanAfter (.bool true :: done) rest
  | 'f' :: 'a' :: 'l' :: 's' :: 'e' :: rest => scanAfter (.bool false :: done) rest
  | c :: rest =>
    if isBlank c then scanAfter done rest
    else if c = '"' then
      match _scanned : scanGlyphs [] rest with
      | some (glyphs, after) => scanAfter (.text glyphs :: done) after
      | none => none
    else
      match punctuation? c with
      | some token => scanAfter (token :: done) rest
      | none =>
        match _scanned : scanNumeral (c :: rest) with
        | some (n, after) => scanAfter (.number n :: done) after
        | none => none
  termination_by s.length
  decreasing_by
    all_goals try simp only [List.length_cons]
    all_goals try omega
    · have := length_scanGlyphs _scanned
      omega
    · have := length_scanNumeral _scanned
      simp only [List.length_cons] at this
      omega

/-- The tokens of a text. -/
def Token.scan? (s : String) : Option (List Token) := scanAfter [] s.toList

end Json

end ImsCall
