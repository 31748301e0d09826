import ImsCall.Decimal.Rounding

/-!
# The shortest numeral of a double

A finite double is written with the fewest digits that read back as it. Among numerals of that
length the one nearest to the double is taken, and of two equally near the one whose last digit
is even.

A decimal fraction reads back as a double if it lies in the interval of numbers that round to it.
The interval reaches half way to the neighbouring doubles, and its ends belong to it exactly if
the significand is even.

## Main definitions

* `Double.Interval`, `Double.interval` — the numbers that round to a double, as fractions
* `Double.shortestDigits` — the digits, and where the point stands
* `Double.numeral?` — the numeral: positional for sizes from `1e-5` to `1e16`, otherwise with an
  exponent
-/

namespace ImsCall

namespace Double

/-- A magnitude with the ends of the interval that rounds to it, over a common denominator. -/
structure Interval where
  low : Nat
  value : Nat
  high : Nat
  den : Nat
  /-- Whether the ends belong to the interval. -/
  closed : Bool

/-- The numbers that round to the magnitude of a double. Below a power of two the doubles lie
twice as close. -/
def interval (d : Double) : Interval :=
  let (m, scale) := significand d.magnitude
  let step := Nat.pow 2 scale
  { low := 4 * m * step - (if m = Nat.pow 2 52 ∧ scale ≠ 0 then step else 2 * step)
    value := 4 * m * step
    high := 4 * m * step + 2 * step
    den := 4 * Nat.pow 2 1074
    closed := m % 2 = 0 }

/-- Whether a fraction lies in an interval. -/
def Interval.contains (i : Interval) (num den : Nat) : Bool :=
  let x := num * i.den
  if i.closed then i.low * den ≤ x && x ≤ i.high * den
  else i.low * den < x && x < i.high * den

/-- The number of decimal digits of a number. -/
def decimalLength (n : Nat) : Nat := (Nat.toDigits 10 n).length

/-- Where the point stands in front of the first digit of a fraction: the `k` for which it is at
least `10 ^ (k - 1)` and less than `10 ^ k`. -/
def pointOf (num den : Nat) : Int :=
  if den ≤ num then decimalLength (num / den)
  else 1 - decimalLength ((den + num - 1) / num - 1)

/-- A candidate of so many digits: the multiple of `10 ^ (point - length)` nearest to the value
that lies in the interval. -/
def Interval.candidate? (i : Interval) (point : Int) (length : Nat) : Option Nat :=
  let places := length - point
  let up := Nat.pow 10 places.toNat
  let down := Nat.pow 10 (-places).toNat
  let den := i.den * down
  let floor := i.value * up / den
  let inside (c : Nat) : Bool := i.contains (c * down) up
  match inside floor, inside (floor + 1) with
  | true, true => some (divRoundEven (i.value * up) den)
  | true, false => some floor
  | false, true => some (floor + 1)
  | false, false => none

/-- The candidate with the fewest digits, of at least so many. -/
def Interval.shortestFrom (i : Interval) (point : Int) : (tries length : Nat) → Nat × Nat
  | 0, length => (i.value * Nat.pow 10 (length - point).toNat / i.den, length)
  | tries + 1, length =>
    match i.candidate? point length with
    | some c => (c, length)
    | none => i.shortestFrom point tries (length + 1)

/-- The digits of a number without the zeros at its end, last digit first. -/
def significantDigits (n : Nat) : List Nat :=
  (((Nat.toDigits 10 n).map fun c => c.toNat - 48).reverse).dropWhile (· == 0)

/-- The digits of the shortest numeral of a double that is not zero, and where the point stands
in front of the first. Seventeen digits always suffice. -/
def shortestDigits (d : Double) : List Nat × Int :=
  let i := d.interval
  let point := pointOf i.value i.den
  let (c, length) := i.shortestFrom point 17 1
  let carried := decimalLength c - length
  ((significantDigits c).reverse, point + carried)

/-- The sizes that are written without an exponent: those with the point at most so many places
behind the first digit, or fewer than so many zeros between the point and the first digit. -/
def positionalPlaces : Int := 16

def positionalZeros : Int := 5

/-- Digits with a point somewhere, as a numeral. A whole number keeps one zero after its point,
except with an exponent. -/
def layout (negative : Bool) (digits : List Nat) (point : Int) : Numeral :=
  if digits.length ≤ point ∧ point ≤ positionalPlaces then
    { negative, whole := Digit.number 10 digits * Nat.pow 10 (point - digits.length).toNat,
      fraction := some [0] }
  else if 0 < point ∧ point ≤ positionalPlaces then
    { negative, whole := Digit.number 10 (digits.take point.toNat),
      fraction := some (digits.drop point.toNat) }
  else if -positionalZeros < point ∧ point ≤ 0 then
    { negative, whole := 0, fraction := some (List.replicate (-point).toNat 0 ++ digits) }
  else
    { negative, whole := digits.headD 0,
      fraction := if digits.length ≤ 1 then none else some digits.tail,
      exponent := some (point - 1) }

/-- The shortest numeral of a double; nothing, if it is infinite or no number. -/
def numeral? (d : Double) : Option Numeral :=
  if !d.isFinite then none
  else if d.isZero then
    some { negative := d.isNegative, whole := 0, fraction := some [0] }
  else
    let (digits, point) := d.shortestDigits
    some (layout d.isNegative digits point)

end Double

end ImsCall
