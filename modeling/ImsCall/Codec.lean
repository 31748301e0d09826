import ImsCall.Settings
import ImsCall.Wire.Reader

/-!
# Encoding and decoding profiles

A codec turns profiles into self-contained buffers and back, under settings that are known to be
honoured. A buffer holds exactly one profile.

Encoding sanitizes the extras first; decoding does not, it trusts the sender to have done so.
The restrict cause is not sent, so a decoded profile has none.

## Main definitions

* `Codec` — settings without a fault; `Codec.ofSettings` makes one
* `Codec.encode`, `Codec.decode` — the two directions, each with the events it reports
* `Codec.read` — decoding without its events
-/

namespace ImsCall

/-- An encoder and decoder under settings that can be honoured. -/
structure Codec where
  settings : Settings := {}
  /-- Nothing about the settings is at fault. -/
  honoured : settings.fault? = none := by decide

namespace Codec

instance : Inhabited Codec := ⟨{}⟩

/-- A codec under given settings, unless they cannot be honoured. -/
def ofSettings (s : Settings) : Except Fault Codec :=
  match h : s.fault? with
  | none => .ok ⟨s, h⟩
  | some fault => .error fault

/-- The most bytes a profile may have. -/
def maxSize (c : Codec) : Nat := c.settings.wire.maxSize.toNat

/-- The bag that is sent for a profile's bag. -/
def outgoing (c : Codec) : Option Extras → Logged (Option Extras)
  | none => pure none
  | some e => return some (← e.sanitize c.settings.sanitizer).extras

/-- Why a profile whose bag is sanitized cannot be sent. -/
def refusal? (c : Codec) (p : Profile) : Option EncodeFault :=
  match p.extras with
  | some e =>
    if Extras.maxDepth < e.depth then some (.tooDeep e.depth)
    else if c.maxSize < p.wireSize then some .tooLarge
    else none
  | none => if c.maxSize < p.wireSize then some .tooLarge else none

/-- The event that reports a profile as encoded in some bytes. -/
def encodedEvent (p : Profile) (bytes : Bytes) : Event :=
  .encoded bytes.length (Coded.code p.service) (Coded.code p.call)

/-- The bytes of a profile whose bag is sanitized, reported if there are any. -/
def send (c : Codec) (p : Profile) : Logged (Except Fault Bytes) :=
  match c.refusal? p with
  | some cause => pure (.error (.encoding cause))
  | none => do
    let bytes := p.bytes c.settings.wire.version
    Logged.report (encodedEvent p bytes)
    return .ok bytes

/-- The bytes of a profile. Its bag is sanitized first, whatever comes of the rest. -/
def encode (c : Codec) (p : Profile) : Logged (Except Fault Bytes) := do
  c.send { p with extras := ← c.outgoing p.extras }

/-- The content of a buffer, once its size and version are accepted. -/
def readContent (c : Codec) (data : Bytes) : Except Fault Wire.Content :=
  if c.maxSize < data.length then .error (.decoding (.oversized data.length c.maxSize))
  else
    match Wire.Reader.version data with
    | .error _ => .error (.decoding .missingHeader)
    | .ok (version, _) =>
      if version = wireVersion then
        (Wire.readContent data).mapError fun fault => .decoding (.malformed fault)
      else .error (.unsupportedVersion version wireVersion)

/-- The profile that a buffer's content stands for. -/
def ofContent (content : Wire.Content) : Except Fault Profile := do
  let service ← Coded.ofCode content.service
  let call ← Coded.ofCode content.call
  return { service, call, extras := content.extras, media := content.media }

/-- The profile in a buffer. -/
def read (c : Codec) (data : Bytes) : Except Fault Profile := do
  ofContent (← c.readContent data)

/-- The event that reports a profile as decoded. Only one version is ever read. -/
def decodedEvent (p : Profile) : Event :=
  .decoded wireVersion (Coded.code p.service) (Coded.code p.call) p.extras.isSome

/-- The profile in a buffer, reported if there is one. -/
def decode (c : Codec) (data : Bytes) : Logged (Except Fault Profile) :=
  match c.read data with
  | .error fault => pure (.error fault)
  | .ok p => do
    Logged.report (decodedEvent p)
    return .ok p

@[simp] theorem value_decode (c : Codec) (data : Bytes) : (c.decode data).value = c.read data := by
  unfold decode
  cases c.read data <;> rfl

end Codec

end ImsCall
