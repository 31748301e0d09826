import ImsCall.Json.Parser
import ImsCall.Json.Printer

/-!
# Types with a JSON form

A type has a JSON form if its values can be written as JSON values and read from them. A record is
written as an object with its fields in order. It is read from an object, whose other members are
passed over, or from an array that holds the fields in order.

## Main definitions

* `JsonForm` — a type with a JSON form
* `JsonForm.toText`, `JsonForm.ofText?` — the form as a text
* `Json.fields?` — the fields of a record
-/

namespace ImsCall

/-- A type whose values can be written as JSON values and read from them. -/
class JsonForm (α : Type) where
  toJson : α → Json
  ofJson? : Json → Option α

export JsonForm (toJson)

namespace JsonForm

variable {α : Type} [JsonForm α]

/-- The text of a value's JSON form. -/
def toText (a : α) : String := (toJson a).render

/-- The value whose JSON form a text is. -/
def ofText? (s : String) : Option α := (Json.parse? s).bind ofJson?

end JsonForm

namespace Json

/-- The integer that a value is written as, if it lies in a range. -/
def intBetween? (low high : Int) (j : Json) : Option Int := do
  let n ← j.int?
  if low ≤ n ∧ n ≤ high then some n else none

/-- The items of an array, each read in one way. -/
def items? {α : Type} (read : Json → Option α) (j : Json) : Option (List α) := do
  (← j.array?).mapM read

/-- The fields of a record, each as far as it is there. No field may stand twice, and an array
may not hold more than the fields. -/
def fields? (names : List String) : Json → Option (List (Option Json))
  | .array items =>
    if items.length ≤ names.length then
      some (items.map some ++ List.replicate (names.length - items.length) none)
    else none
  | j => do
    let members ← j.members?
    let single := names.all fun name => (members.filter fun m => m.1 == name).length ≤ 1
    let sound := members.all fun m => names.contains m.1 || m.2.isSound
    if single && sound then some (names.map fun name => members.lookup name) else none

/-- A field that may be missing. -/
def fieldOr {α : Type} [JsonForm α] (default : α) : Option Json → Option α
  | none => some default
  | some j => JsonForm.ofJson? j

end Json

/-! ### Scalars -/

instance : JsonForm Bool where
  toJson := .bool
  ofJson? := Json.bool?

instance : JsonForm String where
  toJson := Json.ofText
  ofJson? := Json.text?

instance : JsonForm Int32 where
  toJson n := Json.ofInt n.toInt
  ofJson? j := (j.intBetween? Int32.minValue.toInt Int32.maxValue.toInt).map Int32.ofInt

instance : JsonForm Int64 where
  toJson n := Json.ofInt n.toInt
  ofJson? j := (j.intBetween? Int64.minValue.toInt Int64.maxValue.toInt).map Int64.ofInt

instance : JsonForm UInt8 where
  toJson n := Json.ofInt n.toNat
  ofJson? j := (j.intBetween? 0 (UInt8.size - 1 : Nat)).map fun n => UInt8.ofNat n.toNat

instance : JsonForm UInt16 where
  toJson n := Json.ofInt n.toNat
  ofJson? j := (j.intBetween? 0 (UInt16.size - 1 : Nat)).map fun n => UInt16.ofNat n.toNat

instance : JsonForm UInt64 where
  toJson n := Json.ofInt n.toNat
  ofJson? j := (j.intBetween? 0 (UInt64.size - 1 : Nat)).map fun n => UInt64.ofNat n.toNat

instance {α : Type} [JsonForm α] : JsonForm (List α) where
  toJson items := .array (items.map toJson)
  ofJson? := Json.items? JsonForm.ofJson?

end ImsCall
