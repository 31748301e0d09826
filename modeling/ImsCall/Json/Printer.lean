import ImsCall.Json.Tree

/-!
# Writing JSON

A value is written without blanks. In a text the quote, the backslash and the control characters
are escaped, five of the latter by a letter; all other characters stand for themselves.
-/

namespace ImsCall

namespace Json

/-- An escape by number. -/
def unicodeEscape (n : Nat) : List Char :=
  ['\\', 'u', Digit.char (n / 4096 % 16), Digit.char (n / 256 % 16), Digit.char (n / 16 % 16),
    Digit.char (n % 16)]

/-- A character as it is written inside a text. -/
def writtenChar (c : Char) : List Char :=
  if c = '"' then ['\\', '"']
  else if c = '\\' then ['\\', '\\']
  else if c.toNat = 8 then ['\\', 'b']
  else if c.toNat = 12 then ['\\', 'f']
  else if c = '\n' then ['\\', 'n']
  else if c = '\r' then ['\\', 'r']
  else if c = '\t' then ['\\', 't']
  else if c.toNat < 32 then unicodeEscape c.toNat
  else [c]

/-- A glyph as it is written inside a text. -/
def writtenGlyph : Glyph → List Char
  | .char c => writtenChar c
  | .control c => [c]
  | .surrogate u => unicodeEscape u

/-- A text in quotes, in front of other characters. -/
def quoteOnto (glyphs : List Glyph) (rest : List Char) : List Char :=
  '"' :: (glyphs.flatMap writtenGlyph ++ '"' :: rest)

mutual

/-- A value as it is written, in front of other characters. -/
def renderOnto (rest : List Char) : Json → List Char
  | .null => "null".toList ++ rest
  | .bool true => "true".toList ++ rest
  | .bool false => "false".toList ++ rest
  | .number n => n.render.toList ++ rest
  | .text glyphs => quoteOnto glyphs rest
  | .array [] => '[' :: ']' :: rest
  | .array (item :: items) => '[' :: renderOnto (renderItemsOnto rest items) item
  | .object [] => '\x7b' :: '\x7d' :: rest
  | .object ((name, value) :: members) =>
    '\x7b' :: quoteOnto name (':' :: renderOnto (renderMembersOnto rest members) value)

/-- Further items of an array and its end. -/
def renderItemsOnto (rest : List Char) : List Json → List Char
  | [] => ']' :: rest
  | item :: items => ',' :: renderOnto (renderItemsOnto rest items) item

/-- Further members of an object and its end. -/
def renderMembersOnto (rest : List Char) : List (List Glyph × Json) → List Char
  | [] => '\x7d' :: rest
  | (name, value) :: members =>
    ',' :: quoteOnto name (':' :: renderOnto (renderMembersOnto rest members) value)

end

/-- The text of a value. -/
def render (j : Json) : String := String.ofList (renderOnto [] j)

end Json

end ImsCall
