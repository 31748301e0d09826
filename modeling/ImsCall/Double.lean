/-!
# Double-precision numbers as bit patterns

A bag of extras carries doubles without computing with them, so a double is its 64-bit pattern:
every pattern, NaN payloads included, passes through unchanged, and equality of values is
equality of patterns. Numeric comparison, where a NaN differs from itself and the two zeros
agree, is `Double.numericEq`.
-/

namespace ImsCall

/-- A double-precision number, by its bit pattern. -/
structure Double where
  /-- Sign, eleven exponent bits and fifty-two fraction bits, most significant first. -/
  bits : UInt64
  deriving DecidableEq, Repr, Inhabited

namespace Double

/-- The pattern without its sign. -/
def magnitude (d : Double) : Nat := d.bits.toNat % Nat.pow 2 63

def isNegative (d : Double) : Bool := Nat.pow 2 63 ≤ d.bits.toNat

/-- The pattern of positive infinity. -/
def infinityBits : Nat := 0x7FF0000000000000

def isNaN (d : Double) : Bool := infinityBits < d.magnitude

def isFinite (d : Double) : Bool := d.magnitude < infinityBits

def isZero (d : Double) : Bool := d.magnitude == 0

/-- Equality as numbers: a NaN equals nothing, and zero has no sign. -/
def numericEq (a b : Double) : Bool :=
  !a.isNaN && (a == b || (a.isZero && b.isZero))

end Double

end ImsCall
