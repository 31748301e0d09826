import ImsCall.Text.Digit
import ImsCall.Toml.Node

/-!
# Scalars in TOML

Apart from texts, a scalar is written without blanks, except that one blank may stand between a
date and a time. So the longest run of characters that scalars are made of is cut off first, and
the whole run is then classified.

Numbers may hold underscores between digits. An integer must fit 64 bits with sign, and a float
may not be too large; one without bounds is written `inf`.

## Main definitions

* `Toml.integer?`, `Toml.isFloat`, `Toml.isDateTime` — the classes
* `Toml.scanScalar` — a scalar other than a text
-/

namespace ImsCall

namespace Toml

/-- The digits of a run in some base, in which single underscores may stand between digits. -/
def ungroup? (base : Nat) : List Char → Option (List Nat)
  | [] => none
  | [c] => return [← Digit.value? base c]
  | c :: '_' :: s => return (← Digit.value? base c) :: (← ungroup? base s)
  | c :: s => return (← Digit.value? base c) :: (← ungroup? base s)

/-- The number of a run in some base. -/
def grouped? (base : Nat) (s : List Char) : Option Nat := (ungroup? base s).map (Digit.number base)

/-- The digits of a decimal whole number. It starts with a zero only if that is all of it. -/
def wholeDigits? : List Char → Option (List Nat)
  | ['0'] => some [0]
  | '0' :: _ => none
  | s => ungroup? 10 s

/-- Whether a character may stand in a group of decimal digits. -/
def isGroupChar (c : Char) : Bool := Digit.isDecimal c || c = '_'

/-- A number with its sign. -/
def signed (negative : Bool) (n : Nat) : Int := if negative then -n else n

/-- Whether a number is negative, and the number without its sign. -/
def splitSign : List Char → Bool × List Char
  | '+' :: s => (false, s)
  | '-' :: s => (true, s)
  | s => (false, s)

/-! ### Integers -/

def maxInteger : Int := Int64.maxValue.toInt

def minInteger : Int := Int64.minValue.toInt

/-- The integer of a run, whatever its size. -/
def unboundedInteger? : List Char → Option Int
  | '0' :: 'x' :: s => return ↑(← grouped? 16 s)
  | '0' :: 'o' :: s => return ↑(← grouped? 8 s)
  | '0' :: 'b' :: s => return ↑(← grouped? 2 s)
  | s => do
    let (negative, s) := splitSign s
    return signed negative (Digit.number 10 (← wholeDigits? s))

/-- The integer of a run. -/
def integer? (s : List Char) : Option Int := do
  let n ← unboundedInteger? s
  if minInteger ≤ n ∧ n ≤ maxInteger then some n else none

/-! ### Floats -/

/-- The exponent of a run. -/
def exponent? (s : List Char) : Option Int := do
  let (negative, s) := splitSign s
  return signed negative (← grouped? 10 s)

/-- The exponent at the end of a float, if there is one. -/
def exponentPart? : List Char → Option Int
  | [] => some 0
  | e :: s => if e = 'e' ∨ e = 'E' then exponent? s else none

/-- The fraction digits and the exponent that follow the whole part of a float; at least one of
the two must be there. -/
def floatTail? : List Char → Option (List Nat × Int)
  | [] => none
  | '.' :: s => do
    let (fraction, rest) := s.span isGroupChar
    return (← ungroup? 10 fraction, ← exponentPart? rest)
  | s => do return ([], ← exponentPart? s)

/-- Half way between the largest finite double and the next power of two: from here on numbers
are too large. -/
def floatLimit : Nat := Nat.pow 2 1024 - Nat.pow 2 970

/-- Whether a whole number times a power of ten is too large. The number of digits decides, unless
it is close to that of the limit. -/
def isTooLarge (n : Nat) (exponent : Int) : Bool :=
  let digits : Int := (Nat.toDigits 10 n).length
  if n = 0 then false
  else if 310 < digits + exponent then true
  else if digits + exponent < 309 then false
  else floatLimit * Nat.pow 10 (-exponent).toNat ≤ n * Nat.pow 10 exponent.toNat

/-- Whether a run is a float. One that is too large counts only with a minus sign. -/
def isFloat (s : List Char) : Bool :=
  let (negative, s) := splitSign s
  if s = "inf".toList ∨ s = "nan".toList then true
  else
    let (whole, rest) := s.span isGroupChar
    match wholeDigits? whole, floatTail? rest with
    | some digits, some (fraction, exponent) =>
      negative || !isTooLarge (Digit.number 10 (digits ++ fraction)) (exponent - fraction.length)
    | _, _ => false

/-! ### Dates and times -/

/-- Two digits, as a number. -/
def twoDigits? (a b : Char) : Option Nat :=
  ([a, b].mapM (Digit.value? 10)).map (Digit.number 10)

/-- Two digits up to a limit. -/
def isUpTo (limit : Nat) (a b : Char) : Bool :=
  match twoDigits? a b with
  | some n => n ≤ limit
  | none => false

def isLeapYear (year : Nat) : Bool := year % 4 = 0 && (year % 100 ≠ 0 || year % 400 = 0)

/-- The number of days in a month; none in a month that there is not. -/
def daysInMonth (year month : Nat) : Nat :=
  if month = 0 ∨ 12 < month then 0
  else if month = 2 then (if isLeapYear year then 29 else 28)
  else if month = 4 ∨ month = 6 ∨ month = 9 ∨ month = 11 then 30
  else 31

/-- What follows a date. -/
def afterDate? : List Char → Option (List Char)
  | a :: b :: c :: d :: '-' :: m :: n :: '-' :: x :: y :: rest => do
    let century ← twoDigits? a b
    let year ← twoDigits? c d
    let month ← twoDigits? m n
    let day ← twoDigits? x y
    if 1 ≤ day ∧ day ≤ daysInMonth (century * 100 + year) month then some rest else none
  | _ => none

/-- What follows a time. A minute may have a sixty-first second. -/
def afterTime? : List Char → Option (List Char)
  | a :: b :: ':' :: c :: d :: ':' :: e :: f :: rest =>
    if isUpTo 23 a b && isUpTo 59 c d && isUpTo 60 e f then
      match rest with
      | '.' :: x :: rest =>
        if Digit.isDecimal x then some (rest.dropWhile Digit.isDecimal) else none
      | rest => some rest
    else none
  | _ => none

/-- Whether a run is nothing or the offset of a time zone. -/
def isOffset : List Char → Bool
  | [] => true
  | [z] => z = 'Z' || z = 'z'
  | [sign, a, b, ':', c, d] => (sign = '+' || sign = '-') && isUpTo 23 a b && isUpTo 59 c d
  | _ => false

/-- Whether a run is a time, perhaps with an offset. -/
def isZonedTime (s : List Char) : Bool := (afterTime? s).any isOffset

/-- Whether a run is a date, a time, or both. -/
def isDateTime (s : List Char) : Bool :=
  match afterDate? s with
  | some [] => true
  | some (t :: rest) => (t = 'T' || t = 't') && isZonedTime rest
  | none => afterTime? s = some []

/-! ### Scanning -/

/-- Whether a character may stand in a scalar. -/
def isScalarChar (c : Char) : Bool :=
  Digit.isDecimal c || ('a' ≤ c && c ≤ 'z') || ('A' ≤ c && c ≤ 'Z') || c = '+' || c = '-' || c = '_'
    || c = '.' || c = ':'

/-- What a whole run stands for. -/
def classify? (run : List Char) : Option Node :=
  if run = "true".toList then some (.boolean true)
  else if run = "false".toList then some (.boolean false)
  else if isDateTime run then some .dateTime
  else if isFloat run then some .float
  else (integer? run).map .integer

/-- A scalar other than a text. After a date, a blank and a time still belong to it. -/
def scanScalar (s : List Char) : Option (Node × List Char) := do
  let (run, rest) := s.span isScalarChar
  let node ← classify? run
  if afterDate? run = some [] then
    match rest with
    | ' ' :: after =>
      let (time, last) := after.span isScalarChar
      if isZonedTime time then return (node, last) else return (node, rest)
    | _ => return (node, rest)
  else return (node, rest)

end Toml

end ImsCall
