import ImsCall.Text.Digit

/-!
# Texts in TOML

Texts stand in double quotes, where a backslash escapes, or in single quotes, where nothing does.
In triple quotes a text may run over several lines: a line end right after the opening quotes is
left out, every other one counts as a line feed, and in double quotes a backslash at the end of a
line leaves out the line end and all blanks after it. One or two quotes may stand inside such a
text, also right before the closing ones.

Every scanner takes characters off the front and yields what it read and what is left.

## Main definitions

* `Toml.scanBasic`, `Toml.scanLiteral` — the rest of a text after its opening quote
* `Toml.scanText` — a text
-/

namespace ImsCall

namespace Toml

def isBlank (c : Char) : Bool := c = ' ' || c = '\t'

/-- Whether a line ends here. -/
def startsLineEnd : List Char → Bool
  | '\n' :: _ => true
  | '\r' :: '\n' :: _ => true
  | _ => false

/-- Whether only blanks stand before the end of the line. -/
def endsLine (s : List Char) : Bool := startsLineEnd (s.dropWhile isBlank)

/-- Whether a character may stand in a text or comment: all but the control characters, of which
only the tab may. -/
def isTextChar (c : Char) : Bool := c = '\t' || (32 ≤ c.toNat && c.toNat ≠ 127)

/-- The character of a code point, if it is one. -/
def charOf? (n : Nat) : Option Char :=
  if n.isValidChar then some (Char.ofNat n) else none

/-- The character that a letter after a backslash stands for. -/
def escaped? : Char → Option Char
  | 'b' => some (Char.ofNat 8)
  | 't' => some '\t'
  | 'n' => some '\n'
  | 'f' => some (Char.ofNat 12)
  | 'r' => some '\r'
  | '"' => some '"'
  | '\\' => some '\\'
  | _ => none

/-- Where a scanner stands inside a text in double quotes. -/
inductive Place where
  | text
  /-- Right after a backslash. -/
  | escape
  /-- Inside a code point, with so many digits to come. -/
  | codePoint (left value : Nat)
  /-- Inside the blanks that a backslash at the end of a line leaves out. -/
  | gap
  deriving DecidableEq, Repr

/-- What follows the closing quotes of a text over several lines, and the quotes that stand right
before them: up to two that follow three others. -/
def splitClosing (quote : Char) : List Char → List Char × List Char
  | a :: b :: s =>
    if a = quote ∧ b = quote then ([quote, quote], s)
    else if a = quote then ([quote], b :: s)
    else ([], a :: b :: s)
  | [a] => if a = quote then ([quote], []) else ([], [a])
  | [] => ([], [])

/-- The rest of a text in single or triple double quotes, after the characters in `done` (last one
first). -/
def scanBasic (triple : Bool) (place : Place) (done : List Char) :
    List Char → Option (String × List Char)
  | [] => none
  | c :: s =>
    match place with
    | .escape =>
      if c = 'u' then scanBasic triple (.codePoint 4 0) done s
      else if c = 'U' then scanBasic triple (.codePoint 8 0) done s
      else
        match escaped? c with
        | some e => scanBasic triple .text (e :: done) s
        | none => none
    | .codePoint left value =>
      match Digit.hexValue? c with
      | none => none
      | some d =>
        if left ≤ 1 then
          match charOf? (value * 16 + d) with
          | some e => scanBasic triple .text (e :: done) s
          | none => none
        else scanBasic triple (.codePoint (left - 1) (value * 16 + d)) done s
    | place =>
      if place = .gap ∧ (isBlank c ∨ startsLineEnd (c :: s)) then scanBasic triple .gap done s
      else if c = '"' then
        if triple then
          match s with
          | '"' :: '"' :: rest =>
            let (quotes, rest) := splitClosing '"' rest
            some (String.ofList (quotes ++ done).reverse, rest)
          | _ => scanBasic triple .text ('"' :: done) s
        else some (String.ofList done.reverse, s)
      else if c = '\\' then
        if triple && endsLine s then scanBasic triple .gap done s
        else scanBasic triple .escape done s
      else if triple && c = '\n' then scanBasic triple .text ('\n' :: done) s
      else if triple && startsLineEnd (c :: s) then scanBasic triple .text done s
      else if isTextChar c then scanBasic triple .text (c :: done) s
      else none

/-- The rest of a text in single or triple single quotes, after the characters in `done` (last one
first). -/
def scanLiteral (triple : Bool) (done : List Char) : List Char → Option (String × List Char)
  | [] => none
  | c :: s =>
    if c = '\'' then
      if triple then
        match s with
        | '\'' :: '\'' :: rest =>
          let (quotes, rest) := splitClosing '\'' rest
          some (String.ofList (quotes ++ done).reverse, rest)
        | _ => scanLiteral triple ('\'' :: done) s
      else some (String.ofList done.reverse, s)
    else if triple && c = '\n' then scanLiteral triple ('\n' :: done) s
    else if triple && startsLineEnd (c :: s) then scanLiteral triple done s
    else if isTextChar c then scanLiteral triple (c :: done) s
    else none

/-- What follows a line end that stands here, or else everything. -/
def dropLineEnd : List Char → List Char
  | '\n' :: s => s
  | '\r' :: '\n' :: s => s
  | s => s

/-- A text, in any kind of quotes. -/
def scanText : List Char → Option (String × List Char)
  | '"' :: '"' :: '"' :: s => scanBasic true .text [] (dropLineEnd s)
  | '"' :: s => scanBasic false .text [] s
  | '\'' :: '\'' :: '\'' :: s => scanLiteral true [] (dropLineEnd s)
  | '\'' :: s => scanLiteral false [] s
  | _ => none

end Toml

end ImsCall
