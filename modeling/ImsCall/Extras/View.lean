import ImsCall.CallType
import ImsCall.Extras.Basic
import ImsCall.Presentation

/-!
# The typed view of a bag

Twenty keys of a bag carry defined semantics. The view lifts them out into nineteen typed fields
and keeps everything else in a residual bag. A well-known key whose value has the wrong kind, or
a number that is no code of its enumeration, stays in the residual, so the view loses nothing.

Key strings are part of the interface with the telephony middle layer and are matched exactly,
case included. The radio technology alone has two spellings: it is read from either, the usual
one first, and written under the usual one.

## Main definitions

* `Shape` — what a field holds, and how it is stored as a value
* `Field` — the fields, with their keys and shapes
* `View` — one optional value per field, and the residual bag
* `Extras.view` — a bag as a view
* `View.applyTo` — writes the fields that are present into a bag
* `View.toExtras` — the whole bag again, residual included

## Main results

* `Shape.read?_write`, `Shape.write_of_read?` — storing and reading a field are inverse
-/

namespace ImsCall

/-- What a field holds. -/
inductive Shape where
  | flag
  | identityRule
  | dialString
  | text
  | bundle
  deriving DecidableEq, Repr

namespace Shape

/-- The values of a field of this shape. -/
abbrev Carrier : Shape → Type
  | .flag => Bool
  | .identityRule => IdentityRule
  | .dialString => DialString
  | .text => String
  | .bundle => Extras

/-- Reads a stored value; another kind of value or an unknown code reads as nothing. -/
def read? : (s : Shape) → Value → Option s.Carrier
  | .flag, value => value.bool?
  | .identityRule, value => value.int?.bind Coded.ofCode?
  | .dialString, value => value.int?.bind Coded.ofCode?
  | .text, value => value.string?
  | .bundle, value => value.bundle?

/-- The value that stores a field. -/
def write : (s : Shape) → s.Carrier → Value
  | .flag, b => .bool b
  | .identityRule, r => .int (Coded.code r)
  | .dialString, d => .int (Coded.code d)
  | .text, t => .string t
  | .bundle, bag => .bundle bag

/-- Equality of field values that compares doubles as numbers. -/
def numericEq : (s : Shape) → s.Carrier → s.Carrier → Bool
  | .flag, a, b => a == b
  | .identityRule, a, b => a == b
  | .dialString, a, b => a == b
  | .text, a, b => a == b
  | .bundle, a, b => a.numericEq b

@[simp] theorem read?_write (s : Shape) (c : s.Carrier) : s.read? (s.write c) = some c := by
  cases s <;> simp [read?, write, Value.bool?, Value.int?, Value.string?, Value.bundle?]

private theorem int_of_ofCode? {α : Type} [Coded α] {value : Value} {a : α}
    (h : value.int?.bind Coded.ofCode? = some a) : .int (Coded.code a) = value := by
  cases value <;> simp only [Value.int?, Option.bind_none, Option.bind_some, reduceCtorEq] at h
  rw [Coded.code_of_ofCode? h]

theorem write_of_read? : {s : Shape} → {value : Value} → {c : s.Carrier} →
    s.read? value = some c → s.write c = value
  | .flag, value, _, h => by cases value <;> simp_all [read?, write, Value.bool?]
  | .identityRule, _, _, h => int_of_ofCode? h
  | .dialString, _, _, h => int_of_ofCode? h
  | .text, value, _, h => by cases value <;> simp_all [read?, write, Value.string?]
  | .bundle, value, _, h => by cases value <;> simp_all [read?, write, Value.bundle?]

end Shape

/-- The well-known fields of a bag. -/
inductive Field where
  /-- The session is a conference call. -/
  | conference
  | emergencyCall
  /-- The session is connected to the voice mail system. -/
  | voicemail
  /-- Video can be switched on and off during the call. -/
  | callModeChangeable
  /-- The session can be extended to a conference. -/
  | conferenceAvailable
  /-- The call is pulled from another device. -/
  | callPull
  /-- How the originating number may be presented. -/
  | identityRule
  /-- How the calling name may be presented. -/
  | callingNameRule
  | dialString
  /-- The originating number of an incoming call. -/
  | originatingIdentity
  | callingName
  /-- The text of a USSD message that the network sent. -/
  | ussd
  /-- The identity of the connected user. -/
  | remoteUri
  | childNumber
  | codec
  | displayText
  | additionalCallInfo
  /-- The radio technology, as a decimal number. -/
  | radioTechnology
  /-- A nested bag reserved for vendors. -/
  | vendorExtras
  deriving DecidableEq, Repr

namespace Field

/-- Every field, in order. -/
def all : List Field :=
  [.conference, .emergencyCall, .voicemail, .callModeChangeable, .conferenceAvailable, .callPull,
    .identityRule, .callingNameRule, .dialString, .originatingIdentity, .callingName, .ussd,
    .remoteUri, .childNumber, .codec, .displayText, .additionalCallInfo, .radioTechnology,
    .vendorExtras]

theorem mem_all (f : Field) : f ∈ all := by
  cases f <;> decide

def shape : Field → Shape
  | .conference | .emergencyCall | .voicemail | .callModeChangeable | .conferenceAvailable
  | .callPull => .flag
  | .identityRule | .callingNameRule => .identityRule
  | .dialString => .dialString
  | .originatingIdentity | .callingName | .ussd | .remoteUri | .childNumber | .codec
  | .displayText | .additionalCallInfo | .radioTechnology => .text
  | .vendorExtras => .bundle

/-- The values of a field. -/
abbrev Carrier (f : Field) : Type := f.shape.Carrier

/-- The key a field is written under. -/
def key : Field → String
  | .conference => "conference"
  | .emergencyCall => "e_call"
  | .voicemail => "vms"
  | .callModeChangeable => "call_mode_changeable"
  | .conferenceAvailable => "conference_avail"
  | .callPull => "CallPull"
  | .identityRule => "oir"
  | .callingNameRule => "cnap"
  | .dialString => "dialstring"
  | .originatingIdentity => "oi"
  | .callingName => "cna"
  | .ussd => "ussd"
  | .remoteUri => "remote_uri"
  | .childNumber => "ChildNum"
  | .codec => "Codec"
  | .displayText => "DisplayText"
  | .additionalCallInfo => "AdditionalCallInfo"
  | .radioTechnology => "CallRadioTech"
  | .vendorExtras => "OemCallExtras"

/-- The spelling of the radio technology key that some modems send; it is only ever read. -/
def alternateRadioKey : String := "callRadioTech"

/-- The keys a field is read from, in order of preference. -/
def spellings : Field → List String
  | .radioTechnology => [key .radioTechnology, alternateRadioKey]
  | f => [f.key]

/-- Every well-known key, field by field. -/
def wellKnownKeys : List String := all.flatMap spellings

/-- Whether a key carries defined semantics. -/
def isWellKnown (k : String) : Bool := wellKnownKeys.contains k

/-- What a field reads under one key of a bag. -/
def readAt? (f : Field) (e : Extras) (k : String) : Option f.Carrier :=
  (e.get? k).bind f.shape.read?

/-- The key that a field is read from: the first spelling that holds a value of its shape. -/
def source? (f : Field) (e : Extras) : Option String :=
  f.spellings.find? fun k => (f.readAt? e k).isSome

/-- What a field reads in a bag. -/
def read? (f : Field) (e : Extras) : Option f.Carrier := f.spellings.findSome? (f.readAt? e)

end Field

/-- Typed well-known fields and the entries that are none. -/
structure View where
  /-- The value of each field that is present. -/
  field (f : Field) : Option f.Carrier := none
  /-- All other entries. -/
  residual : Extras := .empty

namespace View

instance : Inhabited View := ⟨{}⟩

/-- Writes one field into a bag, if it is present. -/
def writeField (v : View) (e : Extras) (f : Field) : Extras :=
  match v.field f with
  | some c => e.insert f.key (f.shape.write c)
  | none => e

/-- Writes every field that is present into a bag. The residual entries are not copied. -/
def applyTo (v : View) (e : Extras) : Extras := Field.all.foldl v.writeField e

/-- The whole bag of a view: the residual entries and the fields. -/
def toExtras (v : View) : Extras := v.applyTo v.residual

/-- Equality of optional field values that compares doubles as numbers. -/
def fieldNumericEq (s : Shape) : Option s.Carrier → Option s.Carrier → Bool
  | some a, some b => s.numericEq a b
  | none, none => true
  | _, _ => false

/-- Equality of views that compares doubles as numbers. -/
def numericEq (v w : View) : Bool :=
  Field.all.all (fun f => fieldNumericEq f.shape (v.field f) (w.field f))
    && v.residual.numericEq w.residual

end View

namespace Extras

/-- The entries that no field of the view takes. -/
def residual (e : Extras) : Extras :=
  (Field.all.filterMap fun f => f.source? e).foldl Extras.erase e

/-- Splits a bag into typed fields and residual entries. -/
def view (e : Extras) : View where
  field f := f.read? e
  residual := e.residual

end Extras

end ImsCall
