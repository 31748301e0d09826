import ImsCall.Proofs.Codec.Transfer
import ImsCall.Proofs.Wire.Extension

/-!
# Buffers that are cut or extended

A buffer says itself where it ends. Nothing that a codec accepts is a part of something else that
it accepts: cut off anywhere, the buffer is refused because it runs out, and with anything behind
it, it is refused for that, or for its size. It does not matter what the bytes are that are cut
off or added, nor how the cut falls into nested bags.

Both refusals are faults of decoding. A cut or extended buffer is never taken for one of another
version, or for one with unknown codes.

## Main definitions

* `DecodeFault.isShortage` — a buffer is refused because it ran out

## Main results

* `Codec.decode_of_cut_or_extended` — what becomes of an accepted buffer that is cut or extended
-/

namespace ImsCall

/-- Whether a buffer is refused because it ran out. -/
def DecodeFault.isShortage : DecodeFault → Bool
  | .missingHeader => true
  | .malformed cause => cause.isShortage
  | _ => false

namespace Codec

variable {c : Codec} {p : Profile} {b y : Bytes} {content : Wire.Content} {fault : Fault}

/-- A buffer whose content is refused is refused. -/
theorem read_of_readContent_eq_error (h : c.readContent b = .error fault) :
    c.read b = .error fault := by
  rw [read, h]
  rfl

/-- An accepted buffer starts with the supported version. -/
theorem version_of_readContent (h : c.readContent b = .ok content) :
    ∃ rest, Wire.Reader.version b = .ok (wireVersion, rest) := by
  obtain ⟨fits, supported, hread⟩ := readContent_eq_ok_iff.mp h
  rw [← supported]
  exact Wire.version_of_readContent (Nat.lt_of_le_of_lt fits c.maxSize_lt) hread

/-- Behind the content of an accepted buffer nothing else is accepted. -/
theorem readContent_append (h : c.readContent b = .ok content) (hy : y ≠ []) :
    c.readContent (b ++ y) = .error (.decoding
      (if (b ++ y).length ≤ c.maxSize then .malformed .trailing
        else .oversized (b ++ y).length c.maxSize)) := by
  obtain ⟨rest, hversion⟩ := version_of_readContent h
  obtain ⟨-, -, hread⟩ := readContent_eq_ok_iff.mp h
  rw [readContent]
  by_cases fits : (b ++ y).length ≤ c.maxSize
  · rw [if_neg (Nat.not_lt.mpr fits), if_pos fits,
      Wire.Reader.steady_version.append_ok y hversion]
    dsimp only
    rw [if_pos rfl, Wire.readContent_append hread hy]
    rfl
  · rw [if_pos (Nat.not_le.mp fits), if_neg fits]

/-- A buffer that is accepted as a whole runs out wherever it is cut off. -/
theorem isShortage_of_readContent (h : c.readContent (b ++ y) = .ok content) (hy : y ≠ []) :
    ∃ cause, c.readContent b = .error (.decoding cause) ∧ cause.isShortage = true := by
  obtain ⟨rest, hversion⟩ := version_of_readContent h
  obtain ⟨fits, -, hread⟩ := readContent_eq_ok_iff.mp h
  rw [List.length_append] at fits
  rw [readContent, if_neg (by omega)]
  cases header : Wire.Reader.version b with
  | error _ => exact ⟨.missingHeader, rfl, rfl⟩
  | ok found =>
    obtain ⟨version, left⟩ := found
    -- The version was not cut off, so it is the one of the whole buffer.
    have same := Wire.Reader.steady_version.append_ok y header
    rw [hversion] at same
    obtain rfl : wireVersion = version := congrArg Prod.fst (Except.ok.inj same)
    obtain ⟨cause, hcause, short⟩ := Wire.isShortage_of_readContent hread hy
    dsimp only
    rw [if_pos rfl, hcause]
    exact ⟨.malformed cause, rfl, short⟩

/-- **Buffers delimit themselves.** An accepted buffer that is cut off anywhere, or at the front,
is refused because it ran out. With any more bytes it is refused because of these, or because it
is too large then. -/
theorem decode_of_cut_or_extended (accepted : (c.decode b).value = .ok p) :
    (∀ cut, cut <+: b → cut ≠ b →
      ∃ cause : DecodeFault, cause.isShortage = true ∧
        (c.decode cut).value = .error (.decoding cause)) ∧
      ∀ more, more ≠ [] →
        (c.decode (b ++ more)).value = .error (.decoding
          (if (b ++ more).length ≤ c.maxSize then .malformed .trailing
            else .oversized (b ++ more).length c.maxSize)) := by
  rw [value_decode, read] at accepted
  obtain ⟨content, hcontent, -⟩ := except_bind_eq_ok_iff.mp accepted
  refine ⟨?cut, ?extended⟩
  case cut =>
    rintro cut ⟨y, rfl⟩ shorter
    have hy : y ≠ [] := by
      rintro rfl
      exact shorter cut.append_nil.symm
    obtain ⟨cause, refused, short⟩ := isShortage_of_readContent hcontent hy
    rw [value_decode]
    exact ⟨cause, short, read_of_readContent_eq_error refused⟩
  case extended =>
    intro more nonempty
    rw [value_decode]
    exact read_of_readContent_eq_error (readContent_append hcontent nonempty)

/-- The record of a careless sender, cut off inside its bag, and sent twice in a row. -/
theorem decode_of_cut_or_extended_careless :
    ((default : Codec).decode careless.bytes).value = .ok careless.profile ∧
      (∃ cause : DecodeFault, cause.isShortage = true ∧
        ((default : Codec).decode (careless.bytes.take 60)).value = .error (.decoding cause)) ∧
      ((default : Codec).decode (careless.bytes ++ careless.bytes)).value =
        .error (.decoding (.malformed .trailing)) := by
  obtain ⟨cuts, extended⟩ := decode_of_cut_or_extended value_decode_careless
  have shorter : careless.bytes.take 60 ≠ careless.bytes := by decide +kernel
  have nonempty : careless.bytes ≠ [] := by decide +kernel
  have fits : (careless.bytes ++ careless.bytes).length ≤ (default : Codec).maxSize := by
    decide +kernel
  refine ⟨value_decode_careless, cuts _ (List.take_prefix 60 _) shorter, ?_⟩
  rw [extended careless.bytes nonempty, if_pos fits]

end Codec

end ImsCall
