import ImsCall.Settings
import ImsCall.Text.Utf8
import ImsCall.Toml.Document

/-!
# Settings from documents

Settings are written as a TOML document with two sections, `sanitizer` and `wire`, of which each
part may be left out; other keys are passed over. A section may also be written as an array that
holds its parts in order, and a date in place of a section leaves out all of its parts.

A document that is not well formed, or whose values do not fit, is refused as unreadable; only
then are the settings themselves checked.

## Main definitions

* `Settings.ofTable?` — the settings of a document's table
* `Settings.ofToml` — the settings of a document
* `Settings.ofFile` — the settings of a file
-/

namespace ImsCall

/-- The parts of a section, each as far as it is there. -/
def Toml.Node.parts? (names : List String) : Toml.Node → Option (List (Option Toml.Node))
  | .table _ entries => some (names.map fun name => entries.lookup name)
  | .array items => some ((List.range names.length).map fun i => items[i]?)
  | .dateTime => some (names.map fun _ => none)
  | _ => none

/-- The text that a value is. -/
def Toml.Node.string? : Toml.Node → Option String
  | .string s => some s
  | _ => none

/-- The integer that a value is, if it lies between zero and a limit. -/
def Toml.Node.natUpTo? (limit : Nat) : Toml.Node → Option Nat
  | .integer n => if 0 ≤ n ∧ n ≤ limit then some n.toNat else none
  | _ => none

/-- The texts that a value lists. -/
def Toml.Node.strings? : Toml.Node → Option (List String)
  | .array items => items.mapM string?
  | _ => none

/-- A part that may be left out. -/
def partOr {α : Type} (default : α) (read : Toml.Node → Option α) : Option Toml.Node → Option α
  | none => some default
  | some node => read node

/-- The policy of a section. -/
def Policy.ofToml? (node : Toml.Node) : Option Policy := do
  match ← node.parts? ["system_namespaces"] with
  | [namespaces] => return ⟨← partOr ({} : Policy).namespaces (·.strings?) namespaces⟩
  | _ => none

/-- The settings of the wire form of a section. -/
def WireSettings.ofToml? (node : Toml.Node) : Option WireSettings := do
  match ← node.parts? ["version", "max_size"] with
  | [version, maxSize] =>
    let version ← partOr ({} : WireSettings).version
      (fun n => (n.natUpTo? (UInt16.size - 1)).map UInt16.ofNat) version
    let maxSize ← partOr ({} : WireSettings).maxSize
      (fun n => (n.natUpTo? (UInt64.size - 1)).map UInt64.ofNat) maxSize
    return { version, maxSize }
  | _ => none

namespace Settings

/-- The settings of a document's table, not yet checked. -/
def ofTable? (t : Toml.Table) : Option Settings := do
  let sanitizer ← partOr {} Policy.ofToml? (t.get? "sanitizer")
  let wire ← partOr {} WireSettings.ofToml? (t.get? "wire")
  return { sanitizer, wire }

/-- The settings of a document. -/
def ofToml (document : String) : Except Fault Settings :=
  match (Toml.parse? document).bind ofTable? with
  | some s => s.validate
  | none => .error (.settings .unreadable)

/-- What a path leads to. -/
inductive FileState where
  | missing
  | directory
  | content (bytes : Bytes)

/-- The settings of a file. -/
def ofFile : FileState → Except Fault Settings
  | .missing => .error (.file .missing)
  | .directory => .error (.file .isDirectory)
  | .content bytes =>
    match Utf8.decode bytes with
    | .ok document => ofToml document
    | .error _ => .error (.file .notText)

end Settings

end ImsCall
