import ImsCall.Proofs.Codec.Basic

/-!
# Profiles on their way

What becomes of a profile, or of a buffer, that goes through a codec: a profile that is encoded
and decoded, a buffer that is decoded, and a buffer that is decoded and encoded again. The buffer
may come from anywhere. Its entries may be out of order, repeat a key, hold unapproved objects and
nest to the limit.

## Main results

* `Codec.decode_of_encode` — a profile that is sent arrives sanitized, without its restrict cause
* `Codec.decode_eq_ok_iff_spells` — the buffers that are accepted, and what each of them means
* `Codec.encode_of_decode` — what is accepted can be sent on, and takes no more bytes
* `Codec.encode_eq_iff_canonical` — it is sent on byte for byte exactly if it was canonical
-/

namespace ImsCall

namespace Codec

variable {c : Codec} {p : Profile} {b : Bytes}

/-- The record of a careless sender: keys out of order, one of them twice, and in a nested bag an
object of a type that is not approved. -/
def careless : Wire.Record where
  service := .normal
  call := .voice
  bag := some <|
    .cons "b" (.bundle .nil) <|
    .cons "a" (.bundle (.cons "x" (.plain (.object ⟨"java.X", [7]⟩) rfl) .nil)) <|
    .cons "b" (.plain (.double ⟨0x7ff8000000000001⟩) rfl) .nil
  media := {}

/-- The record that is sent on for `careless`. -/
def tidied : Wire.Record :=
  { careless with
    bag := some <|
      .cons "a" (.bundle .nil) <|
      .cons "b" (.plain (.double ⟨0x7ff8000000000001⟩) rfl) .nil }

theorem value_decode_careless :
    ((default : Codec).decode careless.bytes).value = .ok careless.profile := by
  cbv

theorem value_encode_careless :
    ((default : Codec).encode careless.profile).value = .ok tidied.bytes := by
  rfl

/-- **A profile that is sent arrives**, with its bag sanitized and without its restrict cause. -/
theorem decode_of_encode (sent : (c.encode p).value = .ok b) :
    (c.decode b).value = .ok { c.sanitized p with restrictCause := .none } := by
  obtain ⟨shallow, fits, rfl⟩ := value_encode_eq_ok_iff.mp sent
  rw [value_decode]
  exact read_bytes_record shallow fits

theorem decode_of_encode_careless :
    ((default : Codec).encode { careless.profile with restrictCause := .rat }).value
        = .ok tidied.bytes ∧
      ((default : Codec).decode tidied.bytes).value = .ok tidied.profile := by
  have sent : ((default : Codec).encode { careless.profile with restrictCause := .rat }).value
      = .ok tidied.bytes := by rfl
  exact ⟨sent, decode_of_encode sent⟩

/-- **The accepted buffers are the spellings within the limits.** What is accepted is not
sanitized. -/
theorem decode_eq_ok_iff_spells :
    (c.decode b).value = .ok p ↔ b.length ≤ c.maxSize ∧ Wire.Spells b p := by
  rw [value_decode, read_eq_ok_iff]

/-- **What is accepted can be sent on without growing.** It arrives sanitized, and from then on
it keeps its bytes. -/
theorem encode_of_decode (accepted : (c.decode b).value = .ok p) :
    ∃ b', (c.encode p).value = .ok b' ∧ b'.length ≤ b.length ∧
      (c.decode b').value = .ok (c.sanitized p) ∧
      (c.encode (c.sanitized p)).value = .ok b' := by
  rw [value_decode] at accepted
  have shallow := shallow_record_sanitized_of_read accepted
  have shrunk := wireSize_sanitized_le_of_read accepted
  have fits := Nat.le_trans shrunk (length_le_of_read accepted)
  refine ⟨(c.sanitized p).record.bytes, value_encode_of_read accepted, ?_, ?_, ?_⟩
  · rwa [Profile.length_bytes_record]
  · have same : { c.sanitized p with restrictCause := .none } = c.sanitized p := by
      rw [← restrictCause_of_read accepted]
      rfl
    rw [value_decode, read_bytes_record shallow fits, same]
  · rw [value_encode_eq_ok_iff, sanitized_sanitized]
    exact ⟨shallow, fits, rfl⟩

/-- What is sent on for `careless` has its keys in order, one entry for each, and no unapproved
object. -/
theorem encode_of_decode_careless :
    ((default : Codec).decode careless.bytes).value = .ok careless.profile ∧
      ((default : Codec).encode careless.profile).value = .ok tidied.bytes ∧
      tidied.bytes.length ≤ careless.bytes.length ∧
      ((default : Codec).decode tidied.bytes).value = .ok tidied.profile ∧
      ((default : Codec).encode tidied.profile).value = .ok tidied.bytes := by
  obtain ⟨b', sent, shrunk, arrived, fixed⟩ := encode_of_decode value_decode_careless
  obtain rfl : tidied.bytes = b' := Except.ok.inj (value_encode_careless.symm.trans sent)
  have clean : (default : Codec).sanitized careless.profile = tidied.profile := by rfl
  rw [clean] at arrived fixed
  exact ⟨value_decode_careless, sent, shrunk, arrived, fixed⟩

/-- **Exactly the canonical buffers are sent on as they came.** An accepted buffer has one
spelling. It comes back byte for byte if the keys ascend strictly in every bag of that spelling
and all of its objects are approved, and otherwise it does not. -/
theorem encode_eq_iff_canonical (accepted : (c.decode b).value = .ok p) :
    ∃ r : Wire.Record, (∀ r' : Wire.Record, r'.bytes = b ↔ r' = r) ∧ r.profile = p ∧
      ((c.encode p).value = .ok b ↔ r.Canonical c.settings.sanitizer) := by
  rw [value_decode] at accepted
  have sent := value_encode_of_read accepted
  obtain ⟨fits, r, rfl, rfl, -⟩ := read_eq_ok_iff.mp accepted
  have short := Nat.lt_of_le_of_lt fits c.maxSize_lt
  have only : ∀ r' : Wire.Record, r'.bytes = r.bytes ↔ r' = r := by
    intro r'
    exact ⟨fun eq => (Wire.Record.bytes_inj short eq.symm).symm, fun eq => eq ▸ rfl⟩
  refine ⟨r, only, rfl, ?_⟩
  rw [sent, Except.ok.injEq, only, Wire.Record.canonical_iff]
  constructor
  · intro same
    exact ⟨_, fun e he => isSafe_of_mem_extras_sanitized he, same⟩
  · rintro ⟨q, safe, rfl⟩
    -- The profile that was read is `q` without its restrict cause, so it is sanitized already.
    have same : c.sanitized q.record.profile = q.record.profile := by
      apply sanitized_of_isSafe
      rw [q.profile_record]
      exact safe
    rw [same, q.profile_record]
    rfl

/-- `careless` is the only spelling of its bytes and not canonical, so they do not come back.
`tidied` is canonical. -/
theorem encode_eq_iff_canonical_careless :
    (((default : Codec).decode careless.bytes).value = .ok careless.profile ∧
      (∀ r : Wire.Record, r.bytes = careless.bytes ↔ r = careless) ∧
      ((default : Codec).encode careless.profile).value ≠ .ok careless.bytes ∧
      ¬ careless.Canonical (default : Codec).settings.sanitizer) ∧
    ((default : Codec).decode tidied.bytes).value = .ok tidied.profile ∧
      (∀ r : Wire.Record, r.bytes = tidied.bytes ↔ r = tidied) ∧
      ((default : Codec).encode tidied.profile).value = .ok tidied.bytes ∧
      tidied.Canonical (default : Codec).settings.sanitizer := by
  refine ⟨?changed, ?kept⟩
  case changed =>
    obtain ⟨r, only, -, back⟩ := encode_eq_iff_canonical value_decode_careless
    obtain rfl : careless = r := (only careless).mp rfl
    have differs : ((default : Codec).encode careless.profile).value ≠ .ok careless.bytes := by
      rw [value_encode_careless, ne_eq, Except.ok.injEq]
      decide +kernel
    exact ⟨value_decode_careless, only, differs, mt back.mpr differs⟩
  case kept =>
    have accepted : ((default : Codec).decode tidied.bytes).value = .ok tidied.profile := by cbv
    obtain ⟨r, only, -, back⟩ := encode_eq_iff_canonical accepted
    obtain rfl : tidied = r := (only tidied).mp rfl
    have same : ((default : Codec).encode tidied.profile).value = .ok tidied.bytes := by rfl
    exact ⟨accepted, only, same, back.mp same⟩

end Codec

end ImsCall
