import ImsCall.Bytes
import ImsCall.Decimal.Numeral

/-!
# JSON trees

A JSON value as it is written: numbers as numerals, members in order and with repetitions. A text
may be written with parts that are no character — a control character that is not escaped, or
half of a surrogate pair. Whether such a text is acceptable is for its reader to say, so the parts
are kept as glyphs.

## Main definitions

* `Glyph` — a part of a written text
* `Json` — a value
* `Json.text?`, `Json.glyphBytes` — a text as characters, and as bytes
* `Json.isSound` — whether no text is written with an unescaped control character
-/

namespace ImsCall

/-- A part of a text in JSON. -/
inductive Glyph where
  | char (c : Char)
  /-- A control character that is not escaped. -/
  | control (c : Char)
  /-- An escaped half of a surrogate pair, without its other half. -/
  | surrogate (unit : Nat)
  deriving DecidableEq, Repr

/-- A JSON value. -/
inductive Json where
  | null
  | bool (b : Bool)
  | number (n : Numeral)
  | text (glyphs : List Glyph)
  | array (items : List Json)
  | object (members : List (List Glyph × Json))
  deriving Repr

namespace Glyph

/-- The character of a glyph that is one. -/
def char? : Glyph → Option Char
  | .char c => some c
  | _ => none

/-- The bytes of a glyph: UTF-8, extended to single surrogates. -/
def bytes : Glyph → Bytes
  | .char c => String.utf8EncodeChar c
  | .control c => String.utf8EncodeChar c
  | .surrogate u =>
    [UInt8.ofNat (0xE0 + u / 4096), UInt8.ofNat (0x80 + u / 64 % 64), UInt8.ofNat (0x80 + u % 64)]

/-- The text of glyphs, if they all are characters. -/
def text? (glyphs : List Glyph) : Option String := (glyphs.mapM char?).map String.ofList

/-- The glyphs of a text. -/
def ofText (s : String) : List Glyph := s.toList.map .char

private theorem mapM_char?_map_char (cs : List Char) :
    (cs.map Glyph.char).mapM char? = some cs := by
  induction cs with
  | nil => rfl
  | cons c cs ih =>
    rw [List.map_cons, List.mapM_cons, ih]
    rfl

@[simp] theorem text?_ofText (s : String) : text? (ofText s) = some s := by
  rw [text?, ofText, mapM_char?_map_char, Option.map_some, String.ofList_toList]

/-- Whether a glyph is not an unescaped control character. -/
def isSound : Glyph → Bool
  | .control _ => false
  | _ => true

end Glyph

namespace Json

/-- A text. -/
def ofText (s : String) : Json := .text (Glyph.ofText s)

/-- An integer. -/
def ofInt (n : Int) : Json := .number (.ofInt n)

/-- An object with members of known names. -/
def record (members : List (String × Json)) : Json :=
  .object (members.map fun m => (Glyph.ofText m.1, m.2))

def text? : Json → Option String
  | .text glyphs => Glyph.text? glyphs
  | _ => none

/-- The integer that a value is written as. -/
def int? : Json → Option Int
  | .number n => n.int?
  | _ => none

def bool? : Json → Option Bool
  | .bool b => some b
  | _ => none

def array? : Json → Option (List Json)
  | .array items => some items
  | _ => none

mutual

/-- Whether no text of a value is written with an unescaped control character. -/
def isSound : Json → Bool
  | .text glyphs => glyphs.all Glyph.isSound
  | .array items => allSound items
  | .object members => allMembersSound members
  | _ => true

/-- Whether all items are sound. -/
def allSound : List Json → Bool
  | [] => true
  | item :: items => item.isSound && allSound items

/-- Whether all members are sound. -/
def allMembersSound : List (List Glyph × Json) → Bool
  | [] => true
  | (name, value) :: members =>
    name.all Glyph.isSound && value.isSound && allMembersSound members

end

/-- The members of an object under their names; nothing, if a name is no text. -/
def members? : Json → Option (List (String × Json))
  | .object members => members.mapM fun m => return (← Glyph.text? m.1, m.2)
  | _ => none

end Json

end ImsCall
