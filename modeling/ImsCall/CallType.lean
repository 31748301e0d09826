import ImsCall.Coded

/-!
# Service type, call type, restrict cause and dial string

The core enumerations of a call profile. Codes follow GSMA IR.92/IR.94 and 3GPP TS 24.229 usage
and are what goes on the wire.
-/

namespace ImsCall

/-- The service an IMS call is placed under. -/
inductive ServiceType where
  /-- Placed without an IMS registration; the device connects at call initiation. -/
  | none
  /-- A regular call over a registered IMS connection. -/
  | normal
  | emergency
  deriving DecidableEq, Repr

instance : Inhabited ServiceType := ⟨.normal⟩

instance : Coded ServiceType where
  kind := .serviceType
  all := [.none, .normal, .emergency]
  code
    | .none => 0
    | .normal => 1
    | .emergency => 2
  name
    | .none => "None"
    | .normal => "Normal"
    | .emergency => "Emergency"
  find_code a := by cases a <;> rfl

/-- What a call carries. The `video…` values are video telephony with two-way audio, the
`videoShare…` values carry video only. -/
inductive CallType where
  /-- Voice that may be upgraded to video and back. -/
  | voiceAndVideo
  | voice
  /-- Video that may fall back to voice. -/
  | videoAndVoice
  | videoTwoWay
  | videoTxOnly
  | videoRxOnly
  /-- Video telephony whose video is inactive. -/
  | videoNoDirection
  | videoShareTwoWay
  | videoShareTx
  | videoShareRx
  deriving DecidableEq, Repr

instance : Inhabited CallType := ⟨.voiceAndVideo⟩

instance : Coded CallType where
  kind := .callType
  all := [.voiceAndVideo, .voice, .videoAndVoice, .videoTwoWay, .videoTxOnly, .videoRxOnly,
    .videoNoDirection, .videoShareTwoWay, .videoShareTx, .videoShareRx]
  code
    | .voiceAndVideo => 1
    | .voice => 2
    | .videoAndVoice => 3
    | .videoTwoWay => 4
    | .videoTxOnly => 5
    | .videoRxOnly => 6
    | .videoNoDirection => 7
    | .videoShareTwoWay => 8
    | .videoShareTx => 9
    | .videoShareRx => 10
  name
    | .voiceAndVideo => "VoiceAndVideo"
    | .voice => "Voice"
    | .videoAndVoice => "VideoAndVoice"
    | .videoTwoWay => "VideoTwoWay"
    | .videoTxOnly => "VideoTxOnly"
    | .videoRxOnly => "VideoRxOnly"
    | .videoNoDirection => "VideoNoDirection"
    | .videoShareTwoWay => "VideoShareTwoWay"
    | .videoShareTx => "VideoShareTx"
    | .videoShareRx => "VideoShareRx"
  find_code a := by cases a <;> rfl

/-- Whether a call only shares video, without two-way audio. -/
def CallType.isVideoShare : CallType → Bool
  | .videoShareTwoWay | .videoShareTx | .videoShareRx => true
  | _ => false

/-- Why the call types open to a call are restricted. -/
inductive RestrictCause where
  | none
  /-- The peer's radio access technology does not support the service. -/
  | rat
  /-- The service is disabled at the peer. -/
  | disabled
  /-- High definition is not supported. -/
  | hd
  deriving DecidableEq, Repr

instance : Inhabited RestrictCause := ⟨.none⟩

instance : Coded RestrictCause where
  kind := .restrictCause
  all := [.none, .rat, .disabled, .hd]
  code
    | .none => 0
    | .rat => 1
    | .disabled => 2
    | .hd => 3
  name
    | .none => "None"
    | .rat => "Rat"
    | .disabled => "Disabled"
    | .hd => "Hd"
  find_code a := by cases a <;> rfl

/-- What the dial string of an outgoing call is. -/
inductive DialString where
  | normal
  /-- Supplementary service configuration. -/
  | serviceConfiguration
  | ussd
  deriving DecidableEq, Repr

instance : Inhabited DialString := ⟨.normal⟩

instance : Coded DialString where
  kind := .dialString
  all := [.normal, .serviceConfiguration, .ussd]
  code
    | .normal => 0
    | .serviceConfiguration => 1
    | .ussd => 2
  name
    | .normal => "Normal"
    | .serviceConfiguration => "SsConf"
    | .ussd => "Ussd"
  find_code a := by cases a <;> rfl

end ImsCall
