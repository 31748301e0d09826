import ImsCall.Coded
import ImsCall.Extras.Basic
import ImsCall.Text.Utf8

/-!
# Faults

Reading, changing and sanitizing profiles never fails. Faults come only from what converts
foreign data: codes into enumerations, bytes into profiles and back, documents into settings.

Each kind of fault is given by its cause, and the wording is derived from the cause. Where a
caller has a reason of its own, it states it.

## Main definitions

* `ReadFault` — what can be wrong with the bytes of a profile
* `EncodeFault`, `DecodeFault`, `SettingsFault`, `FileFault` — causes by activity
* `Fault` — all of them, with `Fault.category` and `Fault.message`
-/

namespace ImsCall

/-- The first thing that is wrong with bytes read as a profile. -/
inductive ReadFault where
  /-- The bytes end inside an item of fixed width. -/
  | endOfInput
  /-- A text or payload declares more bytes than are left. -/
  | overlongRun
  | badBool (byte : UInt8)
  | badOption (byte : UInt8)
  | badTag (tag : UInt32)
  | badText (cause : Utf8.Malformed)
  | unknownCode (kind : CodeKind) (code : Int32)
  /-- Bags nest too deep. -/
  | tooDeep
  /-- Bytes follow a whole profile. -/
  | trailing
  deriving DecidableEq, Repr

/-- The wording for a code that stands for nothing. -/
def unknownCodeMessage (kind : CodeKind) (code : Int32) : String :=
  "Unknown " ++ kind.label ++ " code: " ++ toString code.toInt

def ReadFault.message : ReadFault → String
  | .endOfInput => "io error: unexpected end of file"
  | .overlongRun => "io error: "
  | .badBool byte =>
    "invalid u8 while decoding bool, expected 0 or 1, found " ++ toString byte.toNat
  | .badOption byte => "tag for enum is not valid, found " ++ toString byte.toNat
  | .badTag tag =>
    "invalid value: integer `" ++ toString tag.toNat ++ "`, expected variant index 0 <= i < 12"
  | .badText cause => "string is not valid utf8: " ++ cause.message
  | .unknownCode kind code => unknownCodeMessage kind code
  | .tooDeep => "call extras nested deeper than " ++ toString Extras.maxDepth ++ " levels"
  | .trailing => "Slice had bytes remaining after deserialization"

/-- Why a profile was not encoded. -/
inductive EncodeFault where
  /-- Bags nest too deep. -/
  | tooDeep (depth : Nat)
  /-- The encoded profile would exceed the limit. -/
  | tooLarge
  /-- A reason that the caller states. -/
  | stated (reason : String)
  deriving DecidableEq, Repr

def EncodeFault.message : EncodeFault → String
  | .tooDeep depth =>
    "call extras nested " ++ toString depth ++ " levels deep, limit is "
      ++ toString Extras.maxDepth
  | .tooLarge => "the size limit has been reached"
  | .stated reason => reason

/-- Why bytes were not decoded. -/
inductive DecodeFault where
  /-- There are more bytes than the limit allows. -/
  | oversized (size limit : Nat)
  /-- There are too few bytes for a version. -/
  | missingHeader
  /-- The bytes are not those of one profile. -/
  | malformed (cause : ReadFault)
  /-- A reason that the caller states. -/
  | stated (reason : String)
  deriving DecidableEq, Repr

def DecodeFault.message : DecodeFault → String
  | .oversized size limit =>
    toString size ++ " bytes exceeds the limit of " ++ toString limit
  | .missingHeader => "missing header: " ++ ReadFault.endOfInput.message
  | .malformed cause => cause.message
  | .stated reason => reason

/-- Why settings were refused. -/
inductive SettingsFault where
  /-- The document is not well formed, or its values do not fit the settings. -/
  | unreadable
  | noNamespaces
  /-- One of the namespaces is the empty text, which every type name starts with. -/
  | emptyNamespace
  | zeroMaxSize
  /-- A reason that the caller states. -/
  | stated (reason : String)
  deriving DecidableEq, Repr

def SettingsFault.message : SettingsFault → String
  | .unreadable => "TOML parse error"
  | .noNamespaces => "sanitizer.system_namespaces must not be empty"
  | .emptyNamespace => "sanitizer.system_namespaces must not contain an empty prefix"
  | .zeroMaxSize => "wire.max_size must be positive"
  | .stated reason => reason

/-- Why a file was not read. -/
inductive FileFault where
  | missing
  | isDirectory
  | notText
  /-- A reason that the caller states. -/
  | stated (reason : String)
  deriving DecidableEq, Repr

def FileFault.message : FileFault → String
  | .missing => "No such file or directory (os error 2)"
  | .isDirectory => "Is a directory (os error 21)"
  | .notText => "stream did not contain valid UTF-8"
  | .stated reason => reason

/-- Everything that can go wrong. -/
inductive Fault where
  | unknownCode (kind : CodeKind) (code : Int32)
  | unsupportedVersion (found supported : UInt16)
  | encoding (cause : EncodeFault)
  | decoding (cause : DecodeFault)
  | settings (cause : SettingsFault)
  | file (cause : FileFault)
  deriving DecidableEq, Repr

/-- The activities that faults come from. -/
inductive Category where
  | conversion
  | wire
  | configuration
  | file
  deriving DecidableEq, Repr

def Category.label : Category → String
  | .conversion => "Conversion"
  | .wire => "Wire"
  | .configuration => "Configuration"
  | .file => "I/O"

namespace Fault

def category : Fault → Category
  | .unknownCode .. => .conversion
  | .unsupportedVersion .. | .encoding _ | .decoding _ => .wire
  | .settings _ => .configuration
  | .file _ => .file

def message : Fault → String
  | .unknownCode kind code => unknownCodeMessage kind code
  | .unsupportedVersion found supported =>
    "Unsupported wire version: " ++ toString found.toNat ++ " (supported: "
      ++ toString supported.toNat ++ ")"
  | .encoding cause => "Encoding failed: " ++ cause.message
  | .decoding cause => "Decoding failed: " ++ cause.message
  | .settings cause => "Invalid configuration: " ++ cause.message
  | .file cause => "I/O operation failed: " ++ cause.message

end Fault

/-- The value that a code stands for, or the fault that it stands for none. -/
def Coded.ofCode {α : Type} [Coded α] (c : Int32) : Except Fault α :=
  match Coded.ofCode? c with
  | some a => .ok a
  | none => .error (.unknownCode (Coded.kind α) c)

@[simp] theorem Coded.ofCode_code {α : Type} [Coded α] (a : α) :
    Coded.ofCode (Coded.code a) = .ok a := by
  simp [Coded.ofCode]

end ImsCall
