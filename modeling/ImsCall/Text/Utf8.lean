import ImsCall.Bytes

/-!
# UTF-8

Text is written and read as UTF-8. Reading stops at the first sequence that is not well formed,
and says where it starts and what is wrong with it: either the text ends inside a sequence that
is well formed so far, or a byte does not continue the sequence it stands in.

## Main definitions

* `Utf8.encode`, `Utf8.decode` — writing and reading
* `Utf8.Malformed` — why bytes are no text
-/

namespace ImsCall

namespace Utf8

/-- Why bytes are no text. -/
inductive Malformed where
  /-- The sequence at an index goes wrong after so many bytes that start a sequence. -/
  | invalid (width index : Nat)
  /-- The bytes end inside the sequence at an index. -/
  | incomplete (index : Nat)
  deriving DecidableEq, Repr

def Malformed.message : Malformed → String
  | .invalid width index =>
    "invalid utf-8 sequence of " ++ toString width ++ " bytes from index " ++ toString index
  | .incomplete index => "incomplete utf-8 byte sequence from index " ++ toString index

/-- The bytes of a text. -/
def encode (s : String) : Bytes := s.toList.flatMap String.utf8EncodeChar

/-- The number of bytes of a text. -/
def size (s : String) : Nat := s.toList.foldr (fun c n => c.utf8Size + n) 0

/-- Whether a byte continues a sequence. -/
def isContinuation (b : UInt8) : Bool := 0x80 ≤ b && b ≤ 0xBF

/-- Whether a second byte may follow a lead byte. It must continue the sequence; after four of
the lead bytes the range is narrower, which rules out overlong forms, surrogates and numbers
beyond the last code point. -/
def mayFollow (lead second : UInt8) : Bool :=
  if lead == 0xE0 then 0xA0 ≤ second && second ≤ 0xBF
  else if lead == 0xED then 0x80 ≤ second && second ≤ 0x9F
  else if lead == 0xF0 then 0x90 ≤ second && second ≤ 0xBF
  else if lead == 0xF4 then 0x80 ≤ second && second ≤ 0x8F
  else isContinuation second

/-- The number of bytes in the sequence that a byte leads; nothing, if it leads none. -/
def width? (lead : UInt8) : Option Nat :=
  if lead ≤ 0x7F then some 1
  else if lead < 0xC2 then none
  else if lead ≤ 0xDF then some 2
  else if lead ≤ 0xEF then some 3
  else if lead ≤ 0xF4 then some 4
  else none

/-- The bits of a code point that the lead byte of a sequence of some width carries. -/
def leadBits (width : Nat) (lead : UInt8) : Nat :=
  if width = 1 then lead.toNat else lead.toNat % Nat.pow 2 (7 - width)

/-! ### Reading byte by byte -/

/-- A sequence of which some bytes are still missing. -/
structure Pending where
  lead : UInt8
  width : Nat
  /-- How many bytes are read. -/
  seen : Nat
  /-- The bits that they carry. -/
  bits : Nat
  deriving DecidableEq, Repr

/-- Whether a byte may stand next in a sequence. -/
def Pending.accepts (p : Pending) (b : UInt8) : Bool :=
  if p.seen = 1 then mayFollow p.lead b else isContinuation b

/-- The sequence with one more byte. -/
def Pending.push (p : Pending) (b : UInt8) : Pending :=
  { p with seen := p.seen + 1, bits := p.bits * 64 + b.toNat % 64 }

/-- Reads the bytes from an index on, after the characters in `done` (last one first) and the
sequence that is still open. -/
def decodeFrom (index : Nat) (done : List Char) (pending : Option Pending) :
    Bytes → Except Malformed (List Char)
  | [] =>
    match pending with
    | none => .ok done.reverse
    | some p => .error (.incomplete (index - p.seen))
  | b :: s =>
    match pending with
    | none =>
      match width? b with
      | none => .error (.invalid 1 index)
      | some 1 => decodeFrom (index + 1) (Char.ofNat (leadBits 1 b) :: done) none s
      | some width => decodeFrom (index + 1) done (some ⟨b, width, 1, leadBits width b⟩) s
    | some p =>
      if p.accepts b then
        let p := p.push b
        if p.seen = p.width then decodeFrom (index + 1) (Char.ofNat p.bits :: done) none s
        else decodeFrom (index + 1) done (some p) s
      else .error (.invalid p.seen (index - p.seen))

/-- The text of some bytes. -/
def decode (s : Bytes) : Except Malformed String := (decodeFrom 0 [] none s).map String.ofList

end Utf8

end ImsCall
