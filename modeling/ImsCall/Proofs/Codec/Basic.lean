import ImsCall.Codec
import ImsCall.Proofs.Extras.Report
import ImsCall.Proofs.Wire.Canonical
import ImsCall.Proofs.Wire.Grammar

/-!
# What a codec sends and reads

A codec refuses a profile that is too large or nests too deep, and a buffer that is too large or
of another version. What is left are records: a codec sends the record of the sanitized profile,
if the record is within its limits, and reads the profile of any record within its limits.

With both directions stated by records, a statement about encoding and decoding is one about
records and the profiles they stand for.

## Main definitions

* `Codec.sanitized` — a profile with its bag sanitized
* `Codec.withheld` — how many entries of its bag are reported as removed

## Main results

* `Codec.value_encode_eq_ok_iff` — what is sent
* `Codec.events_encode` — what is reported about it
* `Codec.read_eq_ok_iff` — what is read
-/

namespace ImsCall

namespace Codec

variable {c : Codec} {p : Profile} {b : Bytes}

/-- A profile with its bag sanitized under the policy of a codec. -/
def sanitized (c : Codec) (p : Profile) : Profile :=
  { p with extras := p.extras.map fun e => (e.sanitize c.settings.sanitizer).value.extras }

/-- How many entries of a profile's bag sanitizing takes out, nested bags not counted. -/
def withheld (c : Codec) (p : Profile) : Nat :=
  p.extras.elim 0 fun e => e.unapprovedCount c.settings.sanitizer

theorem version_eq (c : Codec) : c.settings.wire.version = wireVersion :=
  ((Settings.fault?_eq_none_iff c.settings).mp c.honoured).2.2.1

theorem maxSize_lt (c : Codec) : c.maxSize < 2 ^ 64 := c.settings.wire.maxSize.toNat_lt

/-! ### Sanitized profiles -/

theorem extras_sanitized (c : Codec) (p : Profile) :
    (c.sanitized p).extras = p.extras.map (Extras.strip · c.settings.sanitizer) := by
  simp only [sanitized, Extras.extras_sanitize]

/-- The bag of a sanitized profile is safe. -/
theorem isSafe_of_mem_extras_sanitized {e : Extras} (he : e ∈ (c.sanitized p).extras) :
    e.isSafe c.settings.sanitizer = true := by
  rw [extras_sanitized] at he
  obtain ⟨e', -, rfl⟩ := Option.map_eq_some_iff.mp he
  exact Entries.isSafe_strip e'

/-- A profile with a safe bag is sanitized already. -/
theorem sanitized_of_isSafe (safe : ∀ e ∈ p.extras, e.isSafe c.settings.sanitizer = true) :
    c.sanitized p = p := by
  obtain ⟨service, call, cause, extras, media⟩ := p
  cases extras with
  | none => rfl
  | some e =>
    simp only [sanitized, Option.map_some, Extras.extras_sanitize, Extras.strip,
      Entries.strip_of_isSafe (safe e rfl)]

theorem sanitized_sanitized (c : Codec) (p : Profile) :
    c.sanitized (c.sanitized p) = c.sanitized p :=
  sanitized_of_isSafe fun _ he => isSafe_of_mem_extras_sanitized he

/-- Sanitizing makes no profile larger. -/
theorem wireSize_sanitized_le (c : Codec) (p : Profile) :
    (c.sanitized p).wireSize ≤ p.wireSize := by
  rw [Profile.wireSize, Profile.wireSize, extras_sanitized]
  cases p.extras with
  | none => exact Nat.le_refl _
  | some e =>
    have := Entries.entrySize_strip_le c.settings.sanitizer e
    simp only [Option.map_some, Extras.wireSize, Extras.strip]
    omega

/-- Sanitizing makes no bag deeper or less deep. -/
theorem shallow_record_sanitized_iff :
    (c.sanitized p).record.Shallow ↔ ∀ e ∈ p.extras, e.depth ≤ Extras.maxDepth := by
  rw [Profile.shallow_record_iff, extras_sanitized]
  cases p.extras with
  | none => simp
  | some e => simp [Extras.strip, Entries.depth_strip]

/-! ### Sending -/

/-- A profile is sent if it is within the limits. -/
theorem refusal?_eq_none_iff :
    c.refusal? p = none ↔ p.record.Shallow ∧ p.wireSize ≤ c.maxSize := by
  rw [refusal?, Profile.shallow_record_iff]
  cases p.extras with
  | none => simp
  | some e =>
    by_cases deep : Extras.maxDepth < e.depth
    · simp [deep, Nat.not_le.mpr deep]
    · simp [deep, Nat.le_of_not_lt deep]

theorem value_encode (c : Codec) (p : Profile) :
    (c.encode p).value = (c.send (c.sanitized p)).value := by
  rw [encode, Logged.value_bind, sanitized]
  cases p.extras <;> rfl

theorem value_send (c : Codec) (p : Profile) :
    (c.send p).value =
      match c.refusal? p with
      | some cause => .error (.encoding cause)
      | none => .ok p.record.bytes := by
  rw [send, Profile.bytes_record, ← c.version_eq]
  cases c.refusal? p <;> rfl

/-- What is sent for a profile is the record of the sanitized profile, if it is within the
limits. -/
theorem value_encode_eq_ok_iff :
    (c.encode p).value = .ok b ↔
      (c.sanitized p).record.Shallow ∧ (c.sanitized p).wireSize ≤ c.maxSize ∧
        (c.sanitized p).record.bytes = b := by
  rw [value_encode, value_send, ← and_assoc, ← refusal?_eq_none_iff]
  cases c.refusal? (c.sanitized p) <;> simp

/-- What is sent is reported. -/
theorem events_send (c : Codec) (p : Profile) :
    (c.send p).events = ((c.send p).value.toOption.map (encodedEvent p)).toList := by
  rw [send]
  cases c.refusal? p <;> rfl

/-- What sanitizing removed is reported first, whatever comes of the rest. -/
theorem events_encode (c : Codec) (p : Profile) :
    (c.encode p).events = Event.removals (c.withheld p) ++ (c.send (c.sanitized p)).events := by
  rw [encode, Logged.events_bind, sanitized, withheld]
  cases p.extras with
  | none => rfl
  | some e =>
    have reported : (c.outgoing (some e)).events =
        Event.removals (e.unapprovedCount c.settings.sanitizer) := by
      rw [outgoing, Logged.events_bind, Logged.events_pure, List.append_nil,
        Extras.events_sanitize]
    rw [reported]
    rfl

/-! ### Reading -/

/-- The version is read in front, and again with everything else. -/
theorem readContent_eq_ok_iff {content : Wire.Content} :
    c.readContent b = .ok content ↔
      b.length ≤ c.maxSize ∧ content.version = wireVersion ∧ Wire.readContent b = .ok content := by
  rw [readContent]
  by_cases fits : b.length ≤ c.maxSize
  · have hs : b.length < 2 ^ 64 := Nat.lt_of_le_of_lt fits c.maxSize_lt
    rw [if_neg (Nat.not_lt.mpr fits)]
    cases hread : Wire.readContent b with
    | error fault =>
      constructor
      · intro h
        split at h
        · cases h
        · split at h <;> cases h
      · rintro ⟨-, -, ⟨⟩⟩
    | ok found =>
      obtain ⟨rest, hversion⟩ := Wire.version_of_readContent hs hread
      rw [hversion]
      dsimp only
      by_cases supported : found.version = wireVersion
      · rw [if_pos supported]
        constructor
        · rintro ⟨⟩
          exact ⟨fits, supported, rfl⟩
        · rintro ⟨-, -, ⟨⟩⟩
          rfl
      · rw [if_neg supported]
        constructor
        · rintro ⟨⟩
        · rintro ⟨-, h, ⟨⟩⟩
          exact absurd h supported
  · rw [if_pos (Nat.not_le.mp fits)]
    simp [fits]

theorem ofCode_eq_ok_iff {α : Type} [Coded α] {code : Int32} {a : α} :
    Coded.ofCode code = .ok a ↔ code = Coded.code a := by
  rw [Coded.ofCode]
  constructor
  · intro h
    cases found : (Coded.ofCode? code : Option α) with
    | none =>
      rw [found] at h
      cases h
    | some a =>
      rw [found] at h
      cases h
      exact (Coded.code_of_ofCode? found).symm
  · rintro rfl
    rw [Coded.ofCode?_code]

/-- The codes of a content are those of the profile, and everything else is as it was read. -/
theorem ofContent_eq_ok_iff {content : Wire.Content} :
    ofContent content = .ok p ↔
      content.service = Coded.code p.service ∧ content.call = Coded.code p.call ∧
        p.restrictCause = .none ∧ content.extras = p.extras ∧ content.media = p.media := by
  rw [ofContent, except_bind_eq_ok_iff]
  constructor
  · rintro ⟨service, hservice, h⟩
    obtain ⟨call, hcall, ⟨⟩⟩ := except_bind_eq_ok_iff.mp h
    exact ⟨ofCode_eq_ok_iff.mp hservice, ofCode_eq_ok_iff.mp hcall, rfl, rfl, rfl⟩
  · obtain ⟨service, call, cause, extras, media⟩ := p
    rintro ⟨hservice, hcall, rfl, rfl, rfl⟩
    exact ⟨service, ofCode_eq_ok_iff.mpr hservice,
      except_bind_eq_ok_iff.mpr ⟨call, ofCode_eq_ok_iff.mpr hcall, rfl⟩⟩

/-- What is read are the records within the limits. -/
theorem read_eq_ok_iff : c.read b = .ok p ↔ b.length ≤ c.maxSize ∧ Wire.Spells b p := by
  rw [read, except_bind_eq_ok_iff]
  constructor
  · rintro ⟨content, hcontent, h⟩
    obtain ⟨fits, hversion, hread⟩ := readContent_eq_ok_iff.mp hcontent
    have hs := Nat.lt_of_le_of_lt fits c.maxSize_lt
    obtain ⟨bag, shallow, hbag, rfl⟩ := (Wire.readContent_eq_ok_iff hs).mp hread
    obtain ⟨hservice, hcall, hcause, hextras, hmedia⟩ := ofContent_eq_ok_iff.mp h
    refine ⟨fits, ⟨p.service, p.call, bag, p.media⟩, ?_, ?_, shallow⟩
    · rw [hversion, hservice, hcall, hmedia]
      rfl
    · rw [Wire.Record.profile, ← hcause, hbag, hextras]
  · rintro ⟨fits, r, rfl, rfl, shallow⟩
    have hs := Nat.lt_of_le_of_lt fits c.maxSize_lt
    refine ⟨⟨wireVersion, Coded.code r.service, Coded.code r.call, r.bag.map Wire.Listing.extras,
      r.media⟩, ?_, ofContent_eq_ok_iff.mpr ⟨rfl, rfl, rfl, rfl, rfl⟩⟩
    refine readContent_eq_ok_iff.mpr ⟨fits, rfl, (Wire.readContent_eq_ok_iff hs).mpr ?_⟩
    exact ⟨r.bag, shallow, rfl, rfl⟩

/-! ### Between the two -/

/-- What is written for a profile within the limits is read as that profile, but for the restrict
cause. -/
theorem read_bytes_record (shallow : p.record.Shallow) (fits : p.wireSize ≤ c.maxSize) :
    c.read p.record.bytes = .ok { p with restrictCause := .none } := by
  refine read_eq_ok_iff.mpr ⟨?_, p.record, rfl, p.profile_record, shallow⟩
  rwa [Profile.length_bytes_record]

/-! What is known of a profile that was read. -/

theorem length_le_of_read (h : c.read b = .ok p) : b.length ≤ c.maxSize :=
  (read_eq_ok_iff.mp h).1

/-- What a codec sends is read, by any codec that accepts it, as the sanitized profile without its
restrict cause. -/
theorem read_of_encode {receiver : Codec} {q : Profile} (sent : (c.encode p).value = .ok b)
    (accepted : receiver.read b = .ok q) : q = { c.sanitized p with restrictCause := .none } := by
  obtain ⟨shallow, -, rfl⟩ := value_encode_eq_ok_iff.mp sent
  have fits := length_le_of_read accepted
  rw [Profile.length_bytes_record] at fits
  exact Except.ok.inj (accepted.symm.trans (read_bytes_record shallow fits))

theorem restrictCause_of_read (h : c.read b = .ok p) : p.restrictCause = .none := by
  obtain ⟨-, r, -, rfl, -⟩ := read_eq_ok_iff.mp h
  rfl

/-- Sanitizing and writing take no more bytes than were read. -/
theorem wireSize_sanitized_le_of_read (h : c.read b = .ok p) :
    (c.sanitized p).wireSize ≤ b.length := by
  obtain ⟨-, r, rfl, rfl, -⟩ := read_eq_ok_iff.mp h
  exact Nat.le_trans (c.wireSize_sanitized_le _) r.wireSize_profile_le

/-- What was read is not too deep to be written. -/
theorem shallow_record_sanitized_of_read (h : c.read b = .ok p) :
    (c.sanitized p).record.Shallow := by
  obtain ⟨-, r, -, rfl, shallow⟩ := read_eq_ok_iff.mp h
  exact shallow_record_sanitized_iff.mpr shallow.depth_le

/-- What was read can be sent on. -/
theorem value_encode_of_read (h : c.read b = .ok p) :
    (c.encode p).value = .ok (c.sanitized p).record.bytes := by
  have fits := Nat.le_trans (wireSize_sanitized_le_of_read h) (length_le_of_read h)
  exact value_encode_eq_ok_iff.mpr ⟨shallow_record_sanitized_of_read h, fits, rfl⟩

end Codec

end ImsCall
