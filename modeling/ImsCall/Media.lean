import ImsCall.Coded

/-!
# Media profiles

Quality and direction of audio and video as negotiated for the streams of a call
(3GPP TS 26.114). A call profile owns exactly one media profile.

## Main definitions

* `AudioQuality`, `MediaDirection`, `RttMode` — enumerations carried as codes
* `VideoQuality` — a set of video resolutions
* `MediaProfile` — the five fields together, with their text form `MediaProfile.describe`
-/

namespace ImsCall

/-- The audio codec in use. -/
inductive AudioQuality where
  /-- No audio. -/
  | none
  | amr
  | amrWb
  | qcelp13k
  | evrc
  | evrcB
  | evrcWb
  | evrcNw
  | gsmEfr
  | gsmFr
  | gsmHr
  | g711U
  | g723
  | g711A
  | g722
  | g711Ab
  | g729
  | evsNb
  | evsWb
  | evsSwb
  | evsFb
  deriving DecidableEq, Repr

instance : Inhabited AudioQuality := ⟨.none⟩

instance : Coded AudioQuality where
  kind := .audioQuality
  all := [.none, .amr, .amrWb, .qcelp13k, .evrc, .evrcB, .evrcWb, .evrcNw, .gsmEfr, .gsmFr,
    .gsmHr, .g711U, .g723, .g711A, .g722, .g711Ab, .g729, .evsNb, .evsWb, .evsSwb, .evsFb]
  code
    | .none => 0
    | .amr => 1
    | .amrWb => 2
    | .qcelp13k => 3
    | .evrc => 4
    | .evrcB => 5
    | .evrcWb => 6
    | .evrcNw => 7
    | .gsmEfr => 8
    | .gsmFr => 9
    | .gsmHr => 10
    | .g711U => 11
    | .g723 => 12
    | .g711A => 13
    | .g722 => 14
    | .g711Ab => 15
    | .g729 => 16
    | .evsNb => 17
    | .evsWb => 18
    | .evsSwb => 19
    | .evsFb => 20
  name
    | .none => "None"
    | .amr => "Amr"
    | .amrWb => "AmrWb"
    | .qcelp13k => "Qcelp13k"
    | .evrc => "Evrc"
    | .evrcB => "EvrcB"
    | .evrcWb => "EvrcWb"
    | .evrcNw => "EvrcNw"
    | .gsmEfr => "GsmEfr"
    | .gsmFr => "GsmFr"
    | .gsmHr => "GsmHr"
    | .g711U => "G711U"
    | .g723 => "G723"
    | .g711A => "G711A"
    | .g722 => "G722"
    | .g711Ab => "G711Ab"
    | .g729 => "G729"
    | .evsNb => "EvsNb"
    | .evsWb => "EvsWb"
    | .evsSwb => "EvsSwb"
    | .evsFb => "EvsFb"
  find_code a := by cases a <;> rfl

/-- The direction of a media stream. -/
inductive MediaDirection where
  /-- Not negotiated: there is no such stream. -/
  | invalid
  | inactive
  | receive
  | send
  | sendReceive
  deriving DecidableEq, Repr

instance : Coded MediaDirection where
  kind := .mediaDirection
  all := [.invalid, .inactive, .receive, .send, .sendReceive]
  code
    | .invalid => -1
    | .inactive => 0
    | .receive => 1
    | .send => 2
    | .sendReceive => 3
  name
    | .invalid => "Invalid"
    | .inactive => "Inactive"
    | .receive => "Receive"
    | .send => "Send"
    | .sendReceive => "SendReceive"
  find_code a := by cases a <;> rfl

/-- The attribute that session descriptions use for a direction, if there is one. -/
def MediaDirection.sdpAttribute? : MediaDirection → Option String
  | .invalid => none
  | .inactive => some "inactive"
  | .receive => some "recvonly"
  | .send => some "sendonly"
  | .sendReceive => some "sendrecv"

/-- Whether real-time text is on. -/
inductive RttMode where
  | disabled
  | full
  deriving DecidableEq, Repr

instance : Inhabited RttMode := ⟨.disabled⟩

instance : Coded RttMode where
  kind := .rttMode
  all := [.disabled, .full]
  code
    | .disabled => 0
    | .full => 1
  name
    | .disabled => "Disabled"
    | .full => "Full"
  find_code a := by cases a <;> rfl

/-- A set of video resolutions. Several may be offered at once; unknown bits are kept. -/
structure VideoQuality where
  /-- The resolutions as a word, unknown bits included. -/
  bits : Int32
  deriving DecidableEq, Repr

namespace VideoQuality

/-- No resolution at all. -/
def none : VideoQuality := ⟨0⟩

def qcif : VideoQuality := ⟨1⟩

def qvgaLandscape : VideoQuality := ⟨2⟩

def qvgaPortrait : VideoQuality := ⟨4⟩

def vgaLandscape : VideoQuality := ⟨8⟩

def vgaPortrait : VideoQuality := ⟨16⟩

instance : Inhabited VideoQuality := ⟨none⟩

instance : OrOp VideoQuality := ⟨fun a b => ⟨a.bits ||| b.bits⟩⟩

@[simp] theorem bits_or (a b : VideoQuality) : (a ||| b).bits = a.bits ||| b.bits := rfl

/-- Whether every resolution of `wanted` is offered. -/
def contains (offered wanted : VideoQuality) : Bool :=
  offered.bits &&& wanted.bits == wanted.bits

def isNone (q : VideoQuality) : Bool := q.bits == 0

end VideoQuality

/-- The media of a call's streams. -/
structure MediaProfile where
  audioQuality : AudioQuality := .none
  audioDirection : MediaDirection := .sendReceive
  videoQuality : VideoQuality := .none
  videoDirection : MediaDirection := .invalid
  rttMode : RttMode := .disabled
  deriving DecidableEq, Repr

namespace MediaProfile

instance : Inhabited MediaProfile := ⟨{}⟩

/-- Video is paused when its stream is negotiated but inactive. -/
def isVideoPaused (m : MediaProfile) : Bool := m.videoDirection == .inactive

def isRtt (m : MediaProfile) : Bool := m.rttMode == .full

/-- The text of a media profile: every field by name, as its code or bits. -/
def describe (m : MediaProfile) : String :=
  "\x7b audioQuality=" ++ toString (Coded.code m.audioQuality).toInt
    ++ ", audioDirection=" ++ toString (Coded.code m.audioDirection).toInt
    ++ ", videoQuality=" ++ toString m.videoQuality.bits.toInt
    ++ ", videoDirection=" ++ toString (Coded.code m.videoDirection).toInt
    ++ ", rttMode=" ++ toString (Coded.code m.rttMode).toInt ++ " \x7d"

end MediaProfile

end ImsCall
