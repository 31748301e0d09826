import ImsCall.Decimal.Shortest
import ImsCall.Json.Form
import ImsCall.Settings
import ImsCall.Media
import ImsCall.VideoState

/-!
# The JSON forms of a profile's parts

Enumerations are written as their codes and sets of flags as their bits. A value of a bag is an
object with one member, named for its kind; a bag is an object with its keys as names. Settings
may leave fields out.

A payload is written as an array of numbers. It is read from such an array, or from a text, whose
bytes it then is.

## Main definitions

* `Value.ofJson?`, `Extras.ofJson?` — values and bags, given how many levels bags may nest
-/

namespace ImsCall

instance {α : Type} [Coded α] : JsonForm α where
  toJson a := toJson (Coded.code a)
  ofJson? j := (JsonForm.ofJson? j).bind Coded.ofCode?

instance : JsonForm VideoState where
  toJson s := toJson s.bits
  ofJson? j := (JsonForm.ofJson? j).map VideoState.mk

instance : JsonForm VideoQuality where
  toJson q := toJson q.bits
  ofJson? j := (JsonForm.ofJson? j).map VideoQuality.mk

/-- A double is written as its shortest numeral, and as null if it is infinite or no number. -/
instance : JsonForm Double where
  toJson d :=
    match d.numeral? with
    | some n => .number n
    | none => .null
  ofJson?
    | .number n => Double.ofNumeral? n
    | _ => none

/-! ### Objects -/

/-- The payload that a value is written as. -/
def Json.payload? : Json → Option Bytes
  | .text glyphs => some (glyphs.flatMap Glyph.bytes)
  | j => JsonForm.ofJson? j

instance : JsonForm OpaqueObject where
  toJson o := Json.record [("type_name", toJson o.typeName), ("payload", toJson o.payload)]
  ofJson? j := do
    match ← j.fields? ["type_name", "payload"] with
    | [some typeName, some payload] =>
      return ⟨← JsonForm.ofJson? typeName, ← payload.payload?⟩
    | _ => none

/-! ### Values and bags -/

/-- The name of a kind of value. -/
def Kind.variantName : Kind → String
  | .int => "Int"
  | .long => "Long"
  | .double => "Double"
  | .bool => "Bool"
  | .string => "String"
  | .ints => "IntArray"
  | .longs => "LongArray"
  | .doubles => "DoubleArray"
  | .bools => "BoolArray"
  | .strings => "StringArray"
  | .bundle => "Bundle"
  | .object => "Object"

/-- The kind that a name stands for. -/
def Kind.ofVariantName? (name : String) : Option Kind :=
  Kind.all.find? fun k => k.variantName == name

@[simp] theorem Kind.ofVariantName?_variantName (k : Kind) :
    Kind.ofVariantName? k.variantName = some k := by
  cases k <;> decide +kernel

/-- A value of some kind, under the name of the kind. -/
def Kind.tagged (k : Kind) (content : Json) : Json := Json.record [(k.variantName, content)]

mutual

/-- A value as JSON. -/
def Value.toJson : Value → Json
  | .int n => Kind.int.tagged (ImsCall.toJson n)
  | .long n => Kind.long.tagged (ImsCall.toJson n)
  | .double d => Kind.double.tagged (ImsCall.toJson d)
  | .bool b => Kind.bool.tagged (ImsCall.toJson b)
  | .string s => Kind.string.tagged (ImsCall.toJson s)
  | .ints ns => Kind.ints.tagged (ImsCall.toJson ns)
  | .longs ns => Kind.longs.tagged (ImsCall.toJson ns)
  | .doubles ds => Kind.doubles.tagged (ImsCall.toJson ds)
  | .bools bs => Kind.bools.tagged (ImsCall.toJson bs)
  | .strings ss => Kind.strings.tagged (ImsCall.toJson ss)
  | .bundle bag => Kind.bundle.tagged (.object bag.toMembers)
  | .object o => Kind.object.tagged (ImsCall.toJson o)

/-- Entries as members of an object. -/
def Entries.toMembers : {low : Option String} → Entries low → List (List Glyph × Json)
  | _, .nil => []
  | _, .cons key _ value rest => (Glyph.ofText key, value.toJson) :: rest.toMembers

end

/-- The content of a value of some kind, given a reader for the bags nested in it. -/
def Kind.content? (bag : Json → Option Extras) (j : Json) : Kind → Option Value
  | .int => return .int (← JsonForm.ofJson? j)
  | .long => return .long (← JsonForm.ofJson? j)
  | .double => return .double (← JsonForm.ofJson? j)
  | .bool => return .bool (← JsonForm.ofJson? j)
  | .string => return .string (← JsonForm.ofJson? j)
  | .ints => return .ints (← JsonForm.ofJson? j)
  | .longs => return .longs (← JsonForm.ofJson? j)
  | .doubles => return .doubles (← JsonForm.ofJson? j)
  | .bools => return .bools (← JsonForm.ofJson? j)
  | .strings => return .strings (← JsonForm.ofJson? j)
  | .bundle => return .bundle (← bag j)
  | .object => return .object (← JsonForm.ofJson? j)

/-- The value that an object with one member stands for, given a reader for the bags nested in
it. -/
def Value.ofJson? (bag : Json → Option Extras) (j : Json) : Option Value := do
  match ← j.members? with
  | [(name, content)] => (← Kind.ofVariantName? name).content? bag content
  | _ => none

/-- The bag that an object stands for. Bags may nest so many levels, this one included; the last
member of a name wins. -/
def Extras.ofJson? : Nat → Json → Option Extras
  | 0, _ => none
  | levels + 1, j => do
    let entries ← (← j.members?).mapM fun m =>
      return (m.1, ← Value.ofJson? (Extras.ofJson? levels) m.2)
    return Extras.ofList entries

instance : JsonForm Extras where
  toJson e := .object e.toMembers
  ofJson? := Extras.ofJson? Extras.maxDepth

instance : JsonForm Value where
  toJson := Value.toJson
  ofJson? := Value.ofJson? JsonForm.ofJson?

/-! ### Media and settings -/

instance : JsonForm MediaProfile where
  toJson m := Json.record [("audio_quality", toJson m.audioQuality),
    ("audio_direction", toJson m.audioDirection), ("video_quality", toJson m.videoQuality),
    ("video_direction", toJson m.videoDirection), ("rtt_mode", toJson m.rttMode)]
  ofJson? j := do
    match ← j.fields? ["audio_quality", "audio_direction", "video_quality", "video_direction",
      "rtt_mode"] with
    | [some aq, some ad, some vq, some vd, some rtt] =>
      return ⟨← JsonForm.ofJson? aq, ← JsonForm.ofJson? ad, ← JsonForm.ofJson? vq,
        ← JsonForm.ofJson? vd, ← JsonForm.ofJson? rtt⟩
    | _ => none

instance : JsonForm Policy where
  toJson p := Json.record [("system_namespaces", toJson p.namespaces)]
  ofJson? j := do
    match ← j.fields? ["system_namespaces"] with
    | [namespaces] => return ⟨← Json.fieldOr ({} : Policy).namespaces namespaces⟩
    | _ => none

instance : JsonForm WireSettings where
  toJson w := Json.record [("version", toJson w.version), ("max_size", toJson w.maxSize)]
  ofJson? j := do
    match ← j.fields? ["version", "max_size"] with
    | [version, maxSize] =>
      return ⟨← Json.fieldOr ({} : WireSettings).version version,
        ← Json.fieldOr ({} : WireSettings).maxSize maxSize⟩
    | _ => none

instance : JsonForm Settings where
  toJson s := Json.record [("sanitizer", toJson s.sanitizer), ("wire", toJson s.wire)]
  ofJson? j := do
    match ← j.fields? ["sanitizer", "wire"] with
    | [sanitizer, wire] => return ⟨← Json.fieldOr {} sanitizer, ← Json.fieldOr {} wire⟩
    | _ => none

end ImsCall
