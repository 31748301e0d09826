import ImsCall.Extras.Sanitize
import ImsCall.Fault

/-!
# Settings

Which objects may leave the process, which version the encoder writes and how large an encoded
profile may be. Settings are plain data; `Settings.fault?` says what cannot be honoured about
them, and the first of its checks that fails is the fault.
-/

namespace ImsCall

/-- The version that is written, and the only one that is read. -/
def wireVersion : UInt16 := 1

/-- Settings of the wire form. -/
structure WireSettings where
  /-- The version that is written. -/
  version : UInt16 := wireVersion
  /-- The most bytes an encoded profile may have, written or read. -/
  maxSize : UInt64 := 1048576
  deriving DecidableEq, Repr, Inhabited

/-- Everything that can be set. -/
structure Settings where
  sanitizer : Policy := {}
  wire : WireSettings := {}
  deriving DecidableEq, Repr, Inhabited

namespace Settings

/-- What cannot be honoured about settings. -/
def fault? (s : Settings) : Option Fault :=
  if s.sanitizer.namespaces.isEmpty then some (.settings .noNamespaces)
  else if s.sanitizer.namespaces.any String.isEmpty then some (.settings .emptyNamespace)
  else if s.wire.version ≠ wireVersion then
    some (.unsupportedVersion s.wire.version wireVersion)
  else if s.wire.maxSize = 0 then some (.settings .zeroMaxSize)
  else none

/-- Settings that can be honoured, or what cannot. -/
def validate (s : Settings) : Except Fault Settings :=
  match s.fault? with
  | some fault => .error fault
  | none => .ok s

theorem fault?_default : fault? {} = none := by decide

/-- Settings can be honoured exactly when there are namespaces, none of them empty, the version
is the supported one and the limit is positive. -/
theorem fault?_eq_none_iff (s : Settings) :
    s.fault? = none ↔ s.sanitizer.namespaces ≠ [] ∧ "" ∉ s.sanitizer.namespaces ∧
      s.wire.version = wireVersion ∧ s.wire.maxSize ≠ 0 := by
  unfold fault?
  split
  · next h => simp_all
  · split
    · next h =>
      obtain ⟨ns, mem, empty⟩ := List.any_eq_true.mp h
      have : ns = "" := by simpa using empty
      subst this
      simp [mem]
    · next h₁ h₂ =>
      have hne : "" ∉ s.sanitizer.namespaces := fun mem =>
        h₂ (List.any_eq_true.mpr ⟨"", mem, by decide⟩)
      have : s.sanitizer.namespaces ≠ [] := by simpa using h₁
      split
      · next h => simp [h]
      · split <;> simp_all

end Settings

end ImsCall
