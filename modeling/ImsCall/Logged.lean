import ImsCall.Extras.Basic

/-!
# Logged results

Some operations report what they met on the way without failing. Such an operation yields a
`Logged` value: its result together with the events it reported, in order.

## Main definitions

* `Event` — everything that is ever reported, with its `level` and `message`
* `Logged` — a result with its events; a monad whose sequencing appends events
-/

namespace ImsCall

/-- How serious an event is. -/
inductive Level where
  | warn
  | info
  | debug
  deriving DecidableEq, Repr

/-- The name of a level. -/
def Level.name : Level → String
  | .warn => "WARN"
  | .info => "INFO"
  | .debug => "DEBUG"

/-- What an operation may report. -/
inductive Event where
  /-- A key was read as one kind of value and holds another. -/
  | kindMismatch (key : String) (expected found : Kind)
  /-- Sanitizing took entries out of a bag; entries of nested bags do not count. -/
  | removed (count : Nat)
  /-- A profile was encoded, in so many bytes. -/
  | encoded (size : Nat) (service call : Int32)
  /-- A profile was decoded. -/
  | decoded (version : UInt16) (service call : Int32) (hasExtras : Bool)
  deriving DecidableEq, Repr

namespace Event

def level : Event → Level
  | .kindMismatch .. => .warn
  | .removed .. => .info
  | .encoded .. => .debug
  | .decoded .. => .debug

def message : Event → String
  | .kindMismatch .. => "call extra has unexpected type, returning default"
  | .removed count =>
    "sanitize: " ++ toString count ++ " extra values were removed - "
      ++ "only primitive types and system objects are permitted"
  | .encoded .. => "encoded call profile"
  | .decoded .. => "decoded call profile"

end Event

/-- A result with the events reported on the way to it. -/
structure Logged (α : Type) where
  value : α
  events : List Event := []

namespace Logged

variable {α β : Type}

/-- Only an event. -/
def report (e : Event) : Logged Unit := ⟨(), [e]⟩

instance : Monad Logged where
  pure a := ⟨a, []⟩
  bind x f := ⟨(f x.value).value, x.events ++ (f x.value).events⟩

@[ext] theorem ext {x y : Logged α} (hv : x.value = y.value) (he : x.events = y.events) :
    x = y := by
  cases x; cases y; simp_all

instance : LawfulMonad Logged :=
  LawfulMonad.mk' Logged (fun x => ext rfl (List.append_nil x.events)) (fun _ _ => rfl)
    (fun x f g => ext rfl (List.append_assoc x.events _ _))

@[simp] theorem value_pure (a : α) : (pure a : Logged α).value = a := rfl

@[simp] theorem events_pure (a : α) : (pure a : Logged α).events = [] := rfl

@[simp] theorem value_bind (x : Logged α) (f : α → Logged β) :
    (x >>= f).value = (f x.value).value := rfl

@[simp] theorem events_bind (x : Logged α) (f : α → Logged β) :
    (x >>= f).events = x.events ++ (f x.value).events := rfl

@[simp] theorem value_map (f : α → β) (x : Logged α) : (f <$> x).value = f x.value := rfl

@[simp] theorem events_map (f : α → β) (x : Logged α) : (f <$> x).events = x.events :=
  List.append_nil x.events

@[simp] theorem value_report (e : Event) : (report e).value = () := rfl

@[simp] theorem events_report (e : Event) : (report e).events = [e] := rfl

end Logged

end ImsCall
