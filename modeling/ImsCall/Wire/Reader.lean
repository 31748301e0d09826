import ImsCall.Fault
import ImsCall.Wire.Bytes

/-!
# Reading profiles from bytes

A reader takes items off the front of some bytes, or stops at the first item that is wrong. The
bytes are read from left to right and every item says how long it is, so a reader never looks
beyond the item it reads.

Counted items are read by recursion on the declared count. Each element takes at least one byte,
so a count beyond what the bytes can hold ends at the end of the bytes. Bags are read by recursion
on the number of levels they may still nest.

What may hold a bag is read by way of a reader for that bag, and the bag may be read in other ways
than by levels. So these readers are put together in any monad that readers lift to.

## Main definitions

* `Wire.Reader` — a computation that consumes bytes
* `Wire.Content` — everything a profile's bytes say, codes not yet looked up
* `Wire.Reader.value`, `Wire.Reader.body`, `Wire.Reader.contentOf` — a value, a bag and a profile,
  given a reader for the bags in them
* `Wire.Reader.bag`, `Wire.Reader.content` — bags by levels, and profiles with such bags
* `Wire.readContent` — one whole profile, with nothing after it
-/

namespace ImsCall

namespace Wire

/-- A computation that consumes bytes from the front. -/
abbrev Reader := StateT Bytes (Except ReadFault)

/-- Everything that the bytes of a profile say. The service and the call type are still codes. -/
structure Content where
  version : UInt16
  service : Int32
  call : Int32
  extras : Option Extras
  media : MediaProfile

namespace Reader

variable {α : Type}

/-! ### What holds no bags -/

/-- A word of some width. -/
def word (width : Nat) : Reader Nat := fun s =>
  match Bytes.splitExact? width s with
  | some (bytes, rest) => .ok (ofWord bytes, rest)
  | none => .error .endOfInput

def byte : Reader UInt8 := return UInt8.ofNat (← word 1)

def int32 : Reader Int32 := return (UInt32.ofNat (← word 4)).toInt32

def int64 : Reader Int64 := return (UInt64.ofNat (← word 8)).toInt64

def double : Reader Double := return ⟨UInt64.ofNat (← word 8)⟩

/-- A byte that is zero or one. -/
def flag (bad : UInt8 → ReadFault) : Reader Bool := do
  match ← byte with
  | 0 => return false
  | 1 => return true
  | b => throw (bad b)

def bool : Reader Bool := flag .badBool

/-- As many bytes as the reader is told. -/
def exactly (n : Nat) : Reader Bytes := fun s =>
  match Bytes.splitExact? n s with
  | some (bytes, rest) => .ok (bytes, rest)
  | none => .error .overlongRun

/-- Bytes after their number. -/
def run : Reader Bytes := do exactly (← word 8)

def text : Reader String := do
  match Utf8.decode (← run) with
  | .ok s => return s
  | .error cause => throw (.badText cause)

/-- A value of an enumeration, as its code. -/
def code [Coded α] : Reader α := do
  let c ← int32
  match Coded.ofCode? c with
  | some a => return a
  | none => throw (.unknownCode (Coded.kind α) c)

/-- The kind of a value. -/
def kind : Reader Kind := do
  let tag ← word 4
  match Kind.ofTag? tag with
  | some k => return k
  | none => throw (.badTag (UInt32.ofNat tag))

def object : Reader OpaqueObject := do
  let typeName ← text
  let payload ← run
  return { typeName, payload }

def media : Reader MediaProfile := do
  let audioQuality ← code
  let audioDirection ← code
  let videoBits ← int32
  let videoDirection ← code
  let rttMode ← code
  return { audioQuality, audioDirection, videoQuality := ⟨videoBits⟩, videoDirection, rttMode }

/-- The version at the front of some bytes. -/
def version : Reader UInt16 := return UInt16.ofNat (← word 2)

/-! ### What may hold bags -/

section Parts

variable {m : Type → Type} [Monad m] {α : Type}

/-- Reads an item so many times, after the items in `done` (last one first). -/
def replicateAfter (item : m α) : Nat → List α → m (List α)
  | 0, done => return done.reverse
  | n + 1, done => do
    let a ← item
    replicateAfter item n (a :: done)

/-- Reads an item so many times. -/
def replicate (item : m α) (n : Nat) : m (List α) := replicateAfter item n []

variable [MonadLiftT Reader m]

/-- Elements after their number. -/
def array (item : m α) : m (List α) := do replicate item (← word 8)

/-- The content of a value of some kind, given a reader for the bags nested in it. -/
def valueOf (bag : m Extras) : Kind → m Value
  | .int => return .int (← int32)
  | .long => return .long (← int64)
  | .double => return .double (← double)
  | .bool => return .bool (← bool)
  | .string => return .string (← text)
  | .ints => return .ints (← array int32)
  | .longs => return .longs (← array int64)
  | .doubles => return .doubles (← array double)
  | .bools => return .bools (← array bool)
  | .strings => return .strings (← array text)
  | .bundle => return .bundle (← bag)
  | .object => return .object (← object)

/-- A value, given a reader for the bags nested in it. -/
def value (bag : m Extras) : m Value := do valueOf bag (← kind)

/-- An entry of a bag, given a reader for the bags nested in it. -/
def entry (bag : m Extras) : m (String × Value) := do
  let key ← text
  let v ← value bag
  return (key, v)

/-- The entries of a bag, given a reader for the bags nested in it. They may come in any order, and
the last one for a key wins. -/
def body (bag : m Extras) : m Extras := return Extras.ofList (← array (entry bag))

/-- A bag that may be absent, given a reader for bags. -/
def optionBag (bag : m Extras) : m (Option Extras) := do
  match ← flag .badOption with
  | false => return none
  | true => return some (← bag)

/-- A profile's content, given a reader for bags. -/
def contentOf (bag : m Extras) : m Content := do
  let version ← version
  let service ← int32
  let call ← int32
  let extras ← optionBag bag
  let media ← media
  return { version, service, call, extras, media }

end Parts

/-- A bag that may nest so many levels, its own included. -/
def bag : Nat → Reader Extras
  | 0 => throw .tooDeep
  | levels + 1 => body (bag levels)

/-- A profile's content, with a bag that nests as deep as bags may. -/
def content : Reader Content := contentOf (bag Extras.maxDepth)

end Reader

/-- The content of one profile, with nothing after it. -/
def readContent (s : Bytes) : Except ReadFault Content :=
  match Reader.content s with
  | .ok (content, []) => .ok content
  | .ok (_, _ :: _) => .error .trailing
  | .error fault => .error fault

end Wire

end ImsCall
