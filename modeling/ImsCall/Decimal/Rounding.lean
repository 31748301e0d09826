import ImsCall.Decimal.Numeral
import ImsCall.Double

/-!
# Rounding to doubles

Every finite double is a whole number of units of `2 ^ (-1074)`, so arithmetic on doubles is
arithmetic on fractions of natural numbers followed by one rounding to the nearest double, where
a tie goes to the even neighbour.

## Main definitions

* `Double.units` — the magnitude of a finite double, in units
* `Double.nearest` — the double nearest to a fraction
* `Double.scaled` — a number times a power of ten, rounded after each operation
* `Double.ofNumeral?` — the double that a numeral is read as
-/

namespace ImsCall

/-- The whole number nearest to a fraction; a tie goes to the even one. -/
def divRoundEven (num den : Nat) : Nat :=
  let q := num / den
  let r := num % den
  if 2 * r < den then q
  else if den < 2 * r then q + 1
  else if q % 2 = 0 then q else q + 1

namespace Double

/-- The significand of a magnitude, the hidden bit included, and its scale in binary places. -/
def significand (magnitude : Nat) : Nat × Nat :=
  let exponent := magnitude / Nat.pow 2 52
  let fraction := magnitude % Nat.pow 2 52
  if exponent = 0 then (fraction, 0) else (Nat.pow 2 52 + fraction, exponent - 1)

/-- The magnitude of a finite double in units of `2 ^ (-1074)`. -/
def units (d : Double) : Nat :=
  let (m, scale) := significand d.magnitude
  m * Nat.pow 2 scale

def zero : Double := ⟨0⟩

def infinity : Double := ⟨UInt64.ofNat infinityBits⟩

/-- The same number with the sign bit set. -/
def neg (d : Double) : Double := ⟨UInt64.ofNat (d.magnitude + Nat.pow 2 63)⟩

/-- The double nearest to a fraction; too large a fraction is infinite. A double's pattern grows
with its value, and above a power of two the patterns count steps of one binary scale. -/
def nearest (num den : Nat) : Double :=
  let n := num * Nat.pow 2 1074
  let scale := (n / den).log2 - 52
  let magnitude := divRoundEven n (den * Nat.pow 2 scale) + scale * Nat.pow 2 52
  if infinityBits ≤ magnitude then infinity else ⟨UInt64.ofNat magnitude⟩

/-- The product of two finite doubles without sign. -/
def mulMagnitude (a b : Double) : Double := nearest (a.units * b.units) (Nat.pow 2 2148)

/-- The quotient of two finite doubles without sign. -/
def divMagnitude (a b : Double) : Double := nearest a.units b.units

/-- A power of ten. -/
def tenPow (n : Nat) : Double := nearest (Nat.pow 10 n) 1

/-- The largest power of ten that is a finite double. -/
def maxTenPow : Nat := 308

/-- A double divided by a power of ten, in steps of at most the largest one. -/
def dividedByTenPow (d : Double) (places : Nat) : Double :=
  if places ≤ maxTenPow then d.divMagnitude (tenPow places)
  else if d.isZero then d
  else (d.divMagnitude (tenPow maxTenPow)).dividedByTenPow (places - maxTenPow)
  termination_by places
  decreasing_by simp only [maxTenPow] at *; omega

/-- A whole number times a power of ten, rounded after each operation; nothing, if the product is
too large. -/
def scaled (n : Nat) (exponent : Int) : Option Double :=
  let d := nearest n 1
  if exponent < 0 then some (d.dividedByTenPow exponent.natAbs)
  else if exponent ≤ maxTenPow then
    let product := d.mulMagnitude (tenPow exponent.toNat)
    if product.isFinite then some product else none
  else if d.isZero then some d
  else none

end Double

namespace Numeral

/-- The largest number that the digits of a numeral are gathered in. -/
def gatherLimit : Nat := UInt64.size - 1

/-- The leading digits of a number that fit the limit, and how many digits are left out. -/
def gatherWhole (n : Nat) : Nat × Nat :=
  if n ≤ gatherLimit then (n, 0)
  else
    let (kept, dropped) := gatherWhole (n / 10)
    (kept, dropped + 1)
  termination_by n
  decreasing_by simp only [gatherLimit, UInt64.size] at *; omega

/-- A number with more digits behind it, as long as it fits the limit, and how many it took. -/
def gatherFraction (n : Nat) : List Nat → Nat × Nat
  | [] => (n, 0)
  | d :: ds =>
    if n * 10 + d ≤ gatherLimit then
      let (kept, taken) := gatherFraction (n * 10 + d) ds
      (kept, taken + 1)
    else (n, 0)

/-- The largest exponent that is read. -/
def exponentLimit : Nat := Nat.pow 2 31 - 1

/-- A sum of exponents, held within 32 bits. -/
def saturated (e : Int) : Int := max Int32.minValue.toInt (min e Int32.maxValue.toInt)

/-- The magnitude of the double that a numeral is read as: its leading digits as a whole number,
scaled by a power of ten; nothing, if it is too large. -/
def magnitude? (n : Numeral) : Option Double :=
  let (whole, dropped) := gatherWhole n.whole
  let (digits, taken) := gatherFraction whole (n.fraction.getD [])
  let exponent := n.exponent.getD 0
  if exponentLimit < exponent.natAbs then
    if digits = 0 ∨ exponent < 0 then some .zero else none
  else Double.scaled digits (saturated (dropped - taken + exponent))

end Numeral

/-- The double that a numeral is read as; nothing, if it is too large. -/
def Double.ofNumeral? (n : Numeral) : Option Double :=
  n.magnitude?.map fun d => if n.negative then d.neg else d

end ImsCall
