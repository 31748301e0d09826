/-!
# Digits

Digits of number systems up to base sixteen, where the letters may be of either case when read
and are of lower case when written.
-/

namespace ImsCall

namespace Digit

/-- Whether a character is a decimal digit. -/
def isDecimal (c : Char) : Bool := '0' ≤ c && c ≤ '9'

/-- The number that a hexadecimal digit stands for. -/
def hexValue? (c : Char) : Option Nat :=
  if isDecimal c then some (c.toNat - 48)
  else if 'a' ≤ c ∧ c ≤ 'f' then some (c.toNat - 87)
  else if 'A' ≤ c ∧ c ≤ 'F' then some (c.toNat - 55)
  else none

/-- The number that a digit of some base stands for. -/
def value? (base : Nat) (c : Char) : Option Nat := (hexValue? c).filter (· < base)

/-- The digit for a number below sixteen. -/
def char (n : Nat) : Char := Char.ofNat (if n < 10 then 48 + n else 87 + n)

/-- The number that digits give in a base, highest digit first. -/
def number (base : Nat) (digits : List Nat) : Nat := digits.foldl (fun n d => n * base + d) 0

end Digit

end ImsCall
