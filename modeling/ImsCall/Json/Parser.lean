import ImsCall.Json.Token

/-!
# Parsing JSON

Tokens are put together by a machine with a stack: a frame for each array or object that is still
open, and a state that says what may come next. So nesting is bounded by nothing but the text, and
parsing is one pass over the tokens.

## Main definitions

* `Json.Frame`, `Json.State` — what is still open, and what may come next
* `Json.State.step?` — the state after a token
* `Json.parse?` — the value of a text
-/

namespace ImsCall

namespace Json

/-- An array or object that is still open. What it holds so far has the last part first. -/
inductive Frame where
  | array (items : List Json)
  /-- An object, and the name of the member that is being read. -/
  | object (members : List (List Glyph × Json)) (name : List Glyph)

/-- What may come next. -/
inductive State where
  /-- A value. -/
  | value (outer : List Frame)
  /-- The first item of an array, or its end. -/
  | firstItem (outer : List Frame)
  /-- The first member of an object, or its end. -/
  | firstMember (outer : List Frame)
  /-- The name of a further member. -/
  | member (members : List (List Glyph × Json)) (outer : List Frame)
  /-- The colon after a name. -/
  | colon (members : List (List Glyph × Json)) (name : List Glyph) (outer : List Frame)
  /-- After an item or member: a comma or the end. -/
  | after (frame : Frame) (outer : List Frame)
  /-- The whole value is read. -/
  | done (j : Json)

namespace State

/-- The state after a complete value. -/
def complete (j : Json) : List Frame → State
  | [] => .done j
  | .array items :: outer => .after (.array (j :: items)) outer
  | .object members name :: outer => .after (.object ((name, j) :: members) name) outer

/-- The state after the first token of a value. -/
def start? (outer : List Frame) : Token → Option State
  | .null => some (complete .null outer)
  | .bool b => some (complete (.bool b) outer)
  | .number n => some (complete (.number n) outer)
  | .text glyphs => some (complete (.text glyphs) outer)
  | .openArray => some (.firstItem outer)
  | .openObject => some (.firstMember outer)
  | _ => none

/-- The state after a token; nothing, if the token may not come here. -/
def step? : State → Token → Option State
  | .value outer, token => start? outer token
  | .firstItem outer, .closeArray => some (complete (.array []) outer)
  | .firstItem outer, token => start? (.array [] :: outer) token
  | .firstMember outer, .closeObject => some (complete (.object []) outer)
  | .firstMember outer, .text name => some (.colon [] name outer)
  | .member members outer, .text name => some (.colon members name outer)
  | .colon members name outer, .colon => some (.value (.object members name :: outer))
  | .after (.array items) outer, .comma => some (.value (.array items :: outer))
  | .after (.array items) outer, .closeArray => some (complete (.array items.reverse) outer)
  | .after (.object members _) outer, .comma => some (.member members outer)
  | .after (.object members _) outer, .closeObject =>
    some (complete (.object members.reverse) outer)
  | _, _ => none

/-- The state after several tokens. -/
def run? (s : State) : List Token → Option State
  | [] => some s
  | token :: tokens =>
    match s.step? token with
    | some next => next.run? tokens
    | none => none

end State

/-- The value that tokens make up. -/
def ofTokens? (tokens : List Token) : Option Json :=
  match (State.value []).run? tokens with
  | some (.done j) => some j
  | _ => none

/-- The value of a text. -/
def parse? (s : String) : Option Json := (Token.scan? s).bind ofTokens?

end Json

end ImsCall
