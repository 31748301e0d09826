import ImsCall.Text.Digit

/-!
# Decimal numerals

A decimal numeral as it is written: a sign, a whole part, and perhaps a fraction and an exponent.
The whole part has no leading zeros, so its number says how it is written; a fraction is kept
digit by digit.

## Main definitions

* `Numeral` — a numeral
* `Numeral.int?` — the integer it denotes, if it is written as one
* `Numeral.ofInt` — the numeral of an integer
* `Numeral.render` — its text

## Main results

* `Numeral.int?_ofInt` — the numeral of an integer denotes it
-/

namespace ImsCall

/-- A decimal numeral as it is written. -/
structure Numeral where
  negative : Bool := false
  whole : Nat
  /-- The digits after the point, if there is one. -/
  fraction : Option (List Nat) := none
  exponent : Option Int := none
  deriving DecidableEq, Repr

namespace Numeral

/-- The numeral of an integer. -/
def ofInt (n : Int) : Numeral := { negative := n < 0, whole := n.natAbs }

/-- The integer that a numeral denotes. One with a point or an exponent is none, and neither is
zero with a sign. -/
def int? (n : Numeral) : Option Int :=
  match n.fraction, n.exponent with
  | none, none =>
    if n.negative then if n.whole = 0 then none else some (-n.whole) else some n.whole
  | _, _ => none

@[simp] theorem int?_ofInt (n : Int) : (ofInt n).int? = some n := by
  by_cases h : n < 0
  · have : n.natAbs ≠ 0 := by omega
    simp only [int?, ofInt, h, decide_true, if_true, if_neg this, Option.some.injEq]
    omega
  · simp only [int?, ofInt, h, decide_false, Bool.false_eq_true, if_false, Option.some.injEq]
    omega

/-- The text of an exponent. It has a sign in either direction. -/
def exponentText (e : Int) : String := "e" ++ (if 0 ≤ e then "+" else "") ++ toString e

/-- The text of a numeral. -/
def render (n : Numeral) : String :=
  (if n.negative then "-" else "") ++ toString n.whole
    ++ (match n.fraction with
      | some digits => "." ++ String.ofList (digits.map Digit.char)
      | none => "")
    ++ (match n.exponent with
      | some e => exponentText e
      | none => "")

end Numeral

end ImsCall
