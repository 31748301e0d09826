import ImsCall.Toml.Scalar
import ImsCall.Toml.Text

/-!
# Statements in TOML

A document is a sequence of lines, each blank but for a comment, or with one statement: a header
that opens a table, a header that opens one more table of an array, or a key with its value.

Arrays and inline tables may nest to a limit, and so may the parts of a dotted key; nesting is
recursion on what is left of the limit.

## Main definitions

* `Toml.Statement` — a statement
* `Toml.scanNode` — a value
* `Toml.scanStatements` — the statements of a document
-/

namespace ImsCall

namespace Toml

/-- A statement, with the path that leads to its key and the key. -/
inductive Statement where
  /-- Opens a table. -/
  | open (path : List String) (key : String)
  /-- Opens one more table of an array. -/
  | append (path : List String) (key : String)
  /-- Gives a key a value. -/
  | define (path : List String) (key : String) (value : Node)

/-- How deep values nest, and how many parts a dotted key has, at most. -/
def maxNesting : Nat := 79

def skipBlanks (s : List Char) : List Char := s.dropWhile isBlank

/-- What follows a comment that stands here, or else everything. -/
def dropComment : List Char → List Char
  | '#' :: s => s.dropWhile isTextChar
  | s => s

/-- What follows the end of a line, before which only blanks and a comment may stand. -/
def endLine? (s : List Char) : Option (List Char) :=
  match dropComment (skipBlanks s) with
  | [] => some []
  | rest => if startsLineEnd rest then some (dropLineEnd rest) else none

/-- What follows blanks, line ends and comments; `comment` says whether one is open. -/
def skipLines (comment : Bool) : List Char → Option (List Char)
  | [] => some []
  | c :: s =>
    if c = '\n' then skipLines false s
    else if startsLineEnd (c :: s) then skipLines comment s
    else if comment then (if isTextChar c then skipLines true s else none)
    else if isBlank c then skipLines false s
    else if c = '#' then skipLines true s
    else some (c :: s)

/-! ### Keys -/

/-- Whether a character may stand in a key without quotes. -/
def isKeyChar (c : Char) : Bool :=
  Digit.isDecimal c || ('a' ≤ c && c ≤ 'z') || ('A' ≤ c && c ≤ 'Z') || c = '_' || c = '-'

/-- A part of a key. -/
def scanKeyPart : List Char → Option (String × List Char)
  | '"' :: s => scanBasic false .text [] s
  | '\'' :: s => scanLiteral false [] s
  | s =>
    let (run, rest) := s.span isKeyChar
    if run.isEmpty then none else some (String.ofList run, rest)

/-- The parts of a key, separated by dots, of which so many may still come. -/
def scanKeyParts : Nat → List Char → Option (List String × List Char)
  | 0, _ => none
  | left + 1, s => do
    let (part, s) ← scanKeyPart (skipBlanks s)
    match skipBlanks s with
    | '.' :: s =>
      let (parts, s) ← scanKeyParts left s
      return (part :: parts, s)
    | s => return ([part], s)

/-- A key: the path that leads to it, and its last part. -/
def scanKey (s : List Char) : Option ((List String × String) × List Char) := do
  let (parts, s) ← scanKeyParts maxNesting s
  let last ← parts.getLast?
  return ((parts.dropLast, last), s)

/-! ### Values -/

/-- A way to read a value. -/
abbrev ScanNode := List Char → Option (Node × List Char)

/-- The rest of an array after the items in `done` (last one first). Lines may end anywhere
between items, and a comma may follow the last one. Each item takes a character, so the first
argument bounds their number. -/
def scanItems (item : ScanNode) : Nat → List Node → ScanNode
  | 0, _, _ => none
  | room + 1, done, s => do
    match ← skipLines false s with
    | ']' :: rest => return (.array done.reverse, rest)
    | s =>
      let (node, s) ← item s
      match ← skipLines false s with
      | ',' :: rest => scanItems item room (node :: done) rest
      | ']' :: rest => return (.array (node :: done).reverse, rest)
      | _ => none

/-- A key and its value. -/
def scanPair (item : ScanNode) (s : List Char) :
    Option ((List String × String × Node) × List Char) := do
  let ((path, key), s) ← scanKey s
  match skipBlanks s with
  | '=' :: s =>
    let (node, s) ← item (skipBlanks s)
    return ((path, key, node), s)
  | _ => none

/-- The rest of an inline table that has pairs, after those in `done` (last one first). -/
def scanPairs (item : ScanNode) : Nat → List (List String × String × Node) → ScanNode
  | 0, _, _ => none
  | room + 1, done, s => do
    let (pair, s) ← scanPair item s
    match skipBlanks s with
    | ',' :: rest => scanPairs item room (pair :: done) rest
    | '\x7d' :: rest => do
      let table ← Table.ofPairs? (pair :: done).reverse
      return (.table .inline table, rest)
    | _ => none

/-- The rest of an inline table. -/
def scanInline (item : ScanNode) (s : List Char) : Option (Node × List Char) :=
  match skipBlanks s with
  | '\x7d' :: rest => some (.table .inline [], rest)
  | s => scanPairs item s.length [] s

/-- A value, in which so many levels of arrays and inline tables may still nest. -/
def scanNode : Nat → ScanNode
  | levels, s =>
    match s with
    | '"' :: _ | '\'' :: _ => (scanText s).map fun (text, rest) => (.string text, rest)
    | '[' :: rest =>
      match levels with
      | 0 => none
      | levels + 1 => scanItems (scanNode levels) (rest.length + 1) [] rest
    | '\x7b' :: rest =>
      match levels with
      | 0 => none
      | levels + 1 => scanInline (scanNode levels) rest
    | s => scanScalar s

/-! ### Lines -/

/-- The statement on a line that starts with one, and what follows the line. -/
def scanStatement : List Char → Option (Statement × List Char)
  | '[' :: '[' :: s => do
    let ((path, key), s) ← scanKey s
    match s with
    | ']' :: ']' :: s => return (.append path key, ← endLine? s)
    | _ => none
  | '[' :: s => do
    let ((path, key), s) ← scanKey s
    match s with
    | ']' :: s => return (.open path key, ← endLine? s)
    | _ => none
  | s => do
    let ((path, key, node), s) ← scanPair (scanNode maxNesting) s
    return (.define path key node, ← endLine? s)

/-- The statements of a document after those in `done` (last one first). Each takes a character,
so the first argument bounds their number. -/
def scanStatementsAfter : Nat → List Statement → List Char → Option (List Statement)
  | 0, _, _ => none
  | room + 1, done, s => do
    match ← skipLines false s with
    | [] => return done.reverse
    | s =>
      let (statement, s) ← scanStatement s
      scanStatementsAfter room (statement :: done) s

/-- The statements of a document, before which a byte order mark may stand. -/
def scanStatements (s : List Char) : Option (List Statement) :=
  match s with
  | '\uFEFF' :: s => scanStatementsAfter (s.length + 1) [] s
  | s => scanStatementsAfter (s.length + 1) [] s

end Toml

end ImsCall
