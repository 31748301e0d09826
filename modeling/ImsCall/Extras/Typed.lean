import ImsCall.Logged

/-!
# Typed reading

Reading a key as a kind of value never fails: a key that holds nothing reads as nothing, and a
key that holds another kind reads as nothing and reports one `Event.kindMismatch`.

## Main definitions

* `Extras.read` — every reading is one of these, with a kind and a way to take it apart

## Main results

* `Extras.value_read`, `Extras.events_read` — what a reading yields and what it reports
-/

namespace ImsCall

namespace Extras

/-- Reads a key as an expected kind. -/
def read {α : Type} (expected : Kind) (extract : Value → Option α) (e : Extras) (key : String) :
    Logged (Option α) :=
  match e.get? key with
  | none => pure none
  | some value =>
    match extract value with
    | some a => pure (some a)
    | none => ⟨none, [.kindMismatch key expected value.kind]⟩

section

variable {α : Type} {expected : Kind} {extract : Value → Option α}

@[simp] theorem value_read (e : Extras) (key : String) :
    (e.read expected extract key).value = (e.get? key).bind extract := by
  rw [read]
  cases e.get? key with
  | none => rfl
  | some value =>
    rw [Option.bind_some]
    dsimp only
    cases extract value <;> rfl

@[simp] theorem events_read (e : Extras) (key : String) :
    (e.read expected extract key).events =
      match e.get? key with
      | some value => if (extract value).isSome then [] else [.kindMismatch key expected value.kind]
      | none => [] := by
  rw [read]
  cases e.get? key with
  | none => rfl
  | some value =>
    dsimp only
    cases extract value <;> rfl

end

def readInt (e : Extras) (key : String) : Logged (Option Int32) := e.read .int Value.int? key

def readLong (e : Extras) (key : String) : Logged (Option Int64) := e.read .long Value.long? key

def readDouble (e : Extras) (key : String) : Logged (Option Double) :=
  e.read .double Value.double? key

def readBool (e : Extras) (key : String) : Logged (Option Bool) := e.read .bool Value.bool? key

def readString (e : Extras) (key : String) : Logged (Option String) :=
  e.read .string Value.string? key

def readBundle (e : Extras) (key : String) : Logged (Option Extras) :=
  e.read .bundle Value.bundle? key

/-- The text under a key, or a default. -/
def readStringOr (e : Extras) (key default : String) : Logged String :=
  return (← e.readString key).getD default

/-- The flag under a key, or a default. -/
def readBoolOr (e : Extras) (key : String) (default : Bool) : Logged Bool :=
  return (← e.readBool key).getD default

/-- The number under a key, or a default. -/
def readIntOr (e : Extras) (key : String) (default : Int32) : Logged Int32 :=
  return (← e.readInt key).getD default

/-- The text under the first of several spellings of a key that holds text. Every spelling tried
before it reports a mismatch if it holds another kind. -/
def readFirstString (e : Extras) : List String → Logged (Option String)
  | [] => pure none
  | key :: others => do
    match ← e.readString key with
    | some text => return some text
    | none => e.readFirstString others

end Extras

end ImsCall
