/-!
# TOML trees

A document is a table of keys. The grammar lets tables come about in several ways, and what may
still be added to a table depends on how it did, so a table carries its origin:

* a header `[a]` opens a table for the pairs that follow it, once;
* a header `[a.b]` implies the table `a`, which a header of its own may still open;
* a dotted key `a.b = 1` makes the table `a`, to which further dotted keys may add;
* an inline table is complete as it stands.

## Main definitions

* `Toml.Node`, `Toml.Table` — values and tables
* `Toml.Table.open?`, `Toml.Table.append?`, `Toml.Table.define?` — the three ways to extend a
  document
-/

namespace ImsCall

namespace Toml

/-- How a table came about. -/
inductive Origin where
  | header
  | implied
  | dotted
  | inline
  deriving DecidableEq, Repr

/-- A value of a document. Of numbers with a fraction and of dates only their presence is kept. -/
inductive Node where
  | string (s : String)
  | integer (n : Int)
  | boolean (b : Bool)
  | float
  | dateTime
  | array (items : List Node)
  | table (origin : Origin) (entries : List (String × Node))
  /-- An array of tables, each opened by a header; the last one comes first. -/
  | tables (last : List (String × Node)) (before : List (List (String × Node)))
  deriving Repr

/-- The keys of a table with their values. -/
abbrev Table := List (String × Node)

namespace Table

/-- The value of a key. -/
def get? (t : Table) (key : String) : Option Node := t.lookup key

/-- A table with another value for a key that it has. -/
def replace (t : Table) (key : String) (node : Node) : Table :=
  t.map fun entry => if entry.1 == key then (key, node) else entry

/-- A table with one more key. -/
def add (t : Table) (key : String) (node : Node) : Table := t ++ [(key, node)]

/-- Whether dotted keys may reach into a table. -/
def reachable : Origin → Bool
  | .implied | .dotted => true
  | .header | .inline => false

/-- Whether headers may reach into a table. -/
def nestable : Origin → Bool
  | .header | .implied | .dotted => true
  | .inline => false

/-- Changes the table at the end of a path. Tables that are missing on the way are created with
an origin; those that are there must be of an origin that may be entered, and of an array of
tables the last one is entered. -/
def alterAt (created : Origin) (enter : Origin → Bool) (change : Origin → Table → Option Table) :
    List String → Origin → Table → Option Table
  | [], origin, t => change origin t
  | key :: path, _, t =>
    match t.get? key with
    | none => do
      let inner ← alterAt created enter change path created []
      return t.add key (.table created inner)
    | some (.table origin entries) =>
      if enter origin then do
        let inner ← alterAt created enter change path origin entries
        return t.replace key (.table origin inner)
      else none
    | some (.tables last before) => do
      let inner ← alterAt created enter change path .header last
      return t.replace key (.tables inner before)
    | some _ => none

/-- Changes the table that a header names, creating those above it. -/
def alterHeader (change : Origin → Table → Option Table) (path : List String) (t : Table) :
    Option Table :=
  alterAt .implied nestable change path .header t

/-- Opens a table by a header. It may have been implied, but not opened before. -/
def open? (t : Table) (path : List String) (key : String) : Option Table :=
  alterHeader (fun _ parent =>
    match parent.get? key with
    | none => some (parent.add key (.table .header []))
    | some (.table .implied entries) => some (parent.replace key (.table .header entries))
    | some _ => none) path t

/-- Opens one more table of an array of tables by a header. -/
def append? (t : Table) (path : List String) (key : String) : Option Table :=
  alterHeader (fun _ parent =>
    match parent.get? key with
    | none => some (parent.add key (.tables [] []))
    | some (.tables last before) => some (parent.replace key (.tables [] (last :: before)))
    | some _ => none) path t

/-- Gives a dotted key a value. The key must be new, and a table that the dots lead into must be
one that dotted keys have made. -/
def define? (path : List String) (key : String) (value : Node) (origin : Origin) (t : Table) :
    Option Table :=
  alterAt .dotted reachable (fun origin parent =>
    if (origin == .dotted) == path.isEmpty then none
    else if (parent.get? key).isSome then none
    else some (parent.add key value)) path origin t

/-- The table of an inline table's pairs. -/
def ofPairs? (pairs : List (List String × String × Node)) : Option Table :=
  pairs.foldlM (fun t pair => t.define? pair.1 pair.2.1 pair.2.2 .inline) []

end Table

end Toml

end ImsCall
