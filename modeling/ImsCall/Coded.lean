/-!
# Enumerations carried as codes

Every enumeration of a call profile travels as a signed 32-bit code, in the extras and on the
wire alike. `Coded` ties such a type to its table of codes; a code that is not in the table is
refused by the caller, with the label of the enumeration and the code.

## Main definitions

* `CodeKind` — the enumerations that travel as codes, with the label a diagnostic uses
* `Coded` — a type with its values in order, their codes and their names
* `Coded.ofCode?` — the value a code stands for, if any
* `Coded.table` — all names with their codes, in order

## Main results

* `Coded.ofCode?_code`, `Coded.code_of_ofCode?` — reading a code and writing it are inverse
-/

namespace ImsCall

/-- The enumerations that travel as codes. -/
inductive CodeKind where
  | serviceType
  | callType
  | restrictCause
  | dialString
  | audioQuality
  | mediaDirection
  | rttMode
  | presentation
  | identityRule
  deriving DecidableEq, Repr

namespace CodeKind

/-- The words a diagnostic uses for an enumeration. -/
def label : CodeKind → String
  | .serviceType => "service type"
  | .callType => "call type"
  | .restrictCause => "restrict cause"
  | .dialString => "dial string"
  | .audioQuality => "audio quality"
  | .mediaDirection => "media direction"
  | .rttMode => "rtt mode"
  | .presentation => "presentation"
  | .identityRule => "oir"

/-- Every kind, in order. -/
def all : List CodeKind :=
  [.serviceType, .callType, .restrictCause, .dialString, .audioQuality, .mediaDirection,
    .rttMode, .presentation, .identityRule]

/-- The enumeration a label names. -/
def ofLabel? (text : String) : Option CodeKind :=
  all.find? fun k => k.label == text

end CodeKind

/-- A finite type whose values travel as signed 32-bit codes. The last field says that looking a
value's own code up finds that value, so the codes are distinct and the list is complete. -/
class Coded (α : Type) where
  /-- Which enumeration this is. -/
  kind : CodeKind
  /-- Every value, in order of declaration. -/
  all : List α
  /-- The code of a value. -/
  code : α → Int32
  /-- The name of a value. -/
  name : α → String
  find_code (a : α) : all.find? (fun b => code b == code a) = some a

namespace Coded

variable {α : Type} [Coded α]

/-- The value that a code stands for. -/
def ofCode? (c : Int32) : Option α := all.find? fun a => code a == c

/-- Every name with its code, in order of declaration. -/
def table (α : Type) [Coded α] : List (String × Int32) :=
  (all (α := α)).map fun a => (name a, code a)

@[simp] theorem ofCode?_code (a : α) : ofCode? (code a) = some a := find_code a

theorem code_of_ofCode? {c : Int32} {a : α} (h : ofCode? c = some a) : code a = c := by
  simpa using List.find?_some h

/-- A code is refused exactly when no value has it. -/
theorem ofCode?_eq_none_iff {c : Int32} : (ofCode? c : Option α) = none ↔ ∀ a : α, code a ≠ c := by
  constructor
  · rintro h a rfl
    simp at h
  · intro h
    cases hc : (ofCode? c : Option α) with
    | none => rfl
    | some a => exact absurd (code_of_ofCode? hc) (h a)

end Coded

end ImsCall
