import ImsCall.CallType
import ImsCall.Extras.Typed
import ImsCall.Extras.View
import ImsCall.Media
import ImsCall.VideoState

/-!
# Call profiles

A call profile carries the attributes of an IMS call between the telephony middle layer and call
control: service type, call type, the cause that restricts call types, a bag of extras and the
media of the call's streams.

A new profile has an empty bag. The bag is absent only after it was taken out, or when a peer
sent a profile without one; reading an absent bag yields the defaults, and writing to it does
nothing.

## Main definitions

* `Profile` — the five parts
* `Profile.text`, `Profile.flag`, `Profile.number` — reading an extra, with a default
* `Profile.videoState` — the video state, paused media taken into account
* `Profile.describe` — the text of a profile
-/

namespace ImsCall

/-- The attributes of a call. -/
structure Profile where
  service : ServiceType := .normal
  call : CallType := .voiceAndVideo
  restrictCause : RestrictCause := .none
  /-- The bag of extras, if there is one. -/
  extras : Option Extras := some .empty
  media : MediaProfile := {}

namespace Profile

instance : Inhabited Profile := ⟨{}⟩

/-- A profile with an empty bag and the default media. -/
def new (service : ServiceType) (call : CallType) : Profile := { service, call }

/-! ### Reading extras -/

/-- The text of an extra. -/
def text (p : Profile) (key : String) (default : String := "") : Logged String :=
  match p.extras with
  | some e => e.readStringOr key default
  | none => pure default

/-- The flag of an extra. -/
def flag (p : Profile) (key : String) (default : Bool := false) : Logged Bool :=
  match p.extras with
  | some e => e.readBoolOr key default
  | none => pure default

/-- The number of an extra. -/
def number (p : Profile) (key : String) (default : Int32 := -1) : Logged Int32 :=
  match p.extras with
  | some e => e.readIntOr key default
  | none => pure default

/-- The radio technology, read from either spelling of its key. -/
def radioTechnology (p : Profile) : Logged (Option String) :=
  match p.extras with
  | some e => e.readFirstString Field.radioTechnology.spellings
  | none => pure none

/-! ### Changing a profile -/

/-- Changes the bag, if there is one. -/
def mapExtras (p : Profile) (f : Extras → Extras) : Profile :=
  { p with extras := p.extras.map f }

/-- Writes an extra, if there is a bag. -/
def setExtra (p : Profile) (key : String) (value : Value) : Profile :=
  p.mapExtras (·.insert key value)

/-- The profile without its bag. -/
def dropExtras (p : Profile) : Profile := { p with extras := none }

/-- Takes the call type, and nothing else, from another profile. -/
def updateCallType (p other : Profile) : Profile := { p with call := other.call }

/-- Takes the extras from another profile; if it has none, the bag becomes empty. -/
def updateExtras (p other : Profile) : Profile :=
  { p with extras := some (other.extras.getD .empty) }

/-! ### Video -/

/-- The stream of the video is negotiated but inactive. -/
def isVideoPaused (p : Profile) : Bool := p.media.isVideoPaused

/-- Whether the call type carries video either way. -/
def isVideoCall (p : Profile) : Bool := p.call.videoState.isVideo

/-- The video state of a profile. A call without video is never paused. -/
def videoState (p : Profile) : VideoState :=
  let state := p.call.videoState
  if p.isVideoPaused && !state.isAudioOnly then state ||| .paused else state &&& ~~~.paused

/-! ### Equality and text -/

/-- Equality of optional bags that compares doubles as numbers. -/
def extrasNumericEq : Option Extras → Option Extras → Bool
  | some a, some b => a.numericEq b
  | none, none => true
  | _, _ => false

/-- Equality of profiles that compares doubles as numbers. -/
def numericEq (p q : Profile) : Bool :=
  p.service == q.service && p.call == q.call && p.restrictCause == q.restrictCause
    && extrasNumericEq p.extras q.extras && p.media == q.media

/-- The text of a profile: its codes and its media. -/
def describe (p : Profile) : String :=
  "\x7b serviceType=" ++ toString (Coded.code p.service).toInt
    ++ ", callType=" ++ toString (Coded.code p.call).toInt
    ++ ", restrictCause=" ++ toString (Coded.code p.restrictCause).toInt
    ++ ", mediaProfile=" ++ p.media.describe ++ " \x7d"

end Profile

namespace Extras

/-- A bag inside so many others, each of which holds the next one alone under a key. -/
def wrap (key : String) : Nat → Extras → Extras
  | 0, e => e
  | n + 1, e => wrap key n (empty.insert key (.bundle e))

end Extras

end ImsCall
