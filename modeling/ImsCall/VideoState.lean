import ImsCall.CallType

/-!
# Video states

The call display layer describes video by independent flags: transmitting, receiving, paused.
Any 32-bit word is a video state; bits beyond the three flags are kept and never matter.

Call types and video states are read as one another with losses: only voice and the three
directional kinds of video telephony survive a round trip, every other call type reads back as
audio only.

## Main definitions

* `VideoState` — the flags, with union, intersection and complement
* `VideoState.raise` — setting flags in a state
* `VideoState.describe` — the text of a state
* `CallType.videoState`, `VideoState.callType` — each read as the other
-/

namespace ImsCall

/-- A set of video flags. -/
structure VideoState where
  /-- The flags as a word, unknown bits included. -/
  bits : Int32
  deriving DecidableEq, Repr

namespace VideoState

/-- No video either way. -/
def audioOnly : VideoState := ⟨0⟩

def transmitting : VideoState := ⟨1⟩

def receiving : VideoState := ⟨2⟩

/-- Video both ways. -/
def bidirectional : VideoState := ⟨3⟩

def paused : VideoState := ⟨4⟩

instance : Inhabited VideoState := ⟨audioOnly⟩

instance : OrOp VideoState := ⟨fun a b => ⟨a.bits ||| b.bits⟩⟩

instance : AndOp VideoState := ⟨fun a b => ⟨a.bits &&& b.bits⟩⟩

instance : Complement VideoState := ⟨fun a => ⟨~~~a.bits⟩⟩

@[simp] theorem bits_or (a b : VideoState) : (a ||| b).bits = a.bits ||| b.bits := rfl

@[simp] theorem bits_and (a b : VideoState) : (a &&& b).bits = a.bits &&& b.bits := rfl

@[simp] theorem bits_complement (a : VideoState) : (~~~a).bits = ~~~a.bits := rfl

/-- Sets the flags of another state in a state, which keeps those that it has. -/
def raise (s flags : VideoState) : VideoState := { s with bits := s.bits ||| flags.bits }

/-- Whether every flag of `flags` is set in `state`. -/
def contains (state flags : VideoState) : Bool := state.bits &&& flags.bits == flags.bits

/-- Neither transmitting nor receiving. -/
def isAudioOnly (s : VideoState) : Bool := !s.contains transmitting && !s.contains receiving

/-- Transmitting or receiving. -/
def isVideo (s : VideoState) : Bool := s.contains transmitting || s.contains receiving

/-- Transmitting and receiving. -/
def isBidirectional (s : VideoState) : Bool := s.contains bidirectional

def isPaused (s : VideoState) : Bool := s.contains paused

/-- The directions of a state, then whether it is paused. -/
def describe (s : VideoState) : String :=
  let directions :=
    if s.isAudioOnly then "Audio"
    else (if s.contains transmitting then "Tx" else "")
      ++ (if s.contains receiving then "Rx" else "")
  if s.isPaused then directions ++ " Paused" else directions

/-- The call type for a state. Being paused wins over the directions. -/
def callType (s : VideoState) : CallType :=
  if s.isPaused then .videoNoDirection
  else match s.contains transmitting, s.contains receiving with
    | true, true => .videoTwoWay
    | true, false => .videoTxOnly
    | false, true => .videoRxOnly
    | false, false => .voice

end VideoState

namespace CallType

/-- The directions of a call type. Only the directional kinds of video telephony have any. -/
def videoState : CallType → VideoState
  | .videoTxOnly => .transmitting
  | .videoRxOnly => .receiving
  | .videoTwoWay => .bidirectional
  | _ => .audioOnly

/-- The directions for a raw call type code; an unknown code has none. -/
def videoStateOfCode (c : Int32) : VideoState :=
  match (Coded.ofCode? c : Option CallType) with
  | some t => t.videoState
  | none => .audioOnly

end CallType

end ImsCall
