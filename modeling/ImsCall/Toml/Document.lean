import ImsCall.Toml.Statement

/-!
# TOML documents

The statements of a document build one table. A header opens a table, and the pairs after it
belong to that table until the next header; the pairs before the first header belong to the
document itself.
-/

namespace ImsCall

namespace Toml

/-- A document that is being built: its table, and the path to the table that is open. -/
structure Draft where
  root : Table := []
  current : List String := []

namespace Draft

/-- The document after a statement; nothing, if the statement is not allowed here. -/
def extend? (d : Draft) : Statement → Option Draft
  | .open path key => do
    return { root := ← d.root.open? path key, current := path ++ [key] }
  | .append path key => do
    return { root := ← d.root.append? path key, current := path ++ [key] }
  | .define path key value => do
    let root ← d.root.alterHeader (fun _ t => t.define? path key value .header) d.current
    return { d with root }

end Draft

/-- The table of a document. -/
def parse? (s : String) : Option Table := do
  let statements ← scanStatements s.toList
  return (← statements.foldlM Draft.extend? {}).root

end Toml

end ImsCall
