import ImsCall.Proofs.Codec.Basic

/-!
# The limits of sending

A codec sends nothing that nests too deep and nothing that takes too many bytes. The two limits
look at different things. Sanitizing leaves the depth of a bag alone, so the depth is that of the
bag as it is. It does not leave the size alone, and the size that counts is the one of what is
left.

So the outcome for a profile is settled by two numbers, before anything is written: the depth of
its own bag, and the size of the sanitized profile. Where both are too large, the profile is
refused for its depth.

## Main definitions

* `Profile.bagDepth` — how deep the bag of a profile nests

## Main results

* `Codec.value_encode_eq` — the outcome, by the two numbers
* `Codec.encode_of_wider` — a higher limit on the size changes nothing about what was sent
* `Codec.encode_within_limits` — which profiles are sent, in how many bytes, and what the others
  are refused for
-/

namespace ImsCall

/-- How deep the bag of a profile nests. Without a bag, nothing does. -/
def Profile.bagDepth (p : Profile) : Nat := p.extras.elim 0 Entries.depth

namespace Codec

variable {c wider : Codec} {p : Profile} {b : Bytes}

/-! ### The outcome -/

theorem bagDepth_sanitized (c : Codec) (p : Profile) : (c.sanitized p).bagDepth = p.bagDepth := by
  rw [Profile.bagDepth, Profile.bagDepth, extras_sanitized]
  cases p.extras with
  | none => rfl
  | some e => exact Entries.depth_strip e

/-- A profile is refused for its depth whatever its size, and for its size if its depth is no
reason. -/
theorem refusal?_eq (c : Codec) (p : Profile) :
    c.refusal? p =
      if Extras.maxDepth < p.bagDepth then some (.tooDeep p.bagDepth)
      else if c.maxSize < p.wireSize then some .tooLarge
      else none := by
  rw [refusal?, Profile.bagDepth]
  cases p.extras with
  | none => rfl
  | some e => rfl

/-- The outcome of encoding, by the depth of the bag and the size of what sanitizing leaves. -/
theorem value_encode_eq (c : Codec) (p : Profile) :
    (c.encode p).value =
      if Extras.maxDepth < p.bagDepth then .error (.encoding (.tooDeep p.bagDepth))
      else if c.maxSize < (c.sanitized p).wireSize then .error (.encoding .tooLarge)
      else .ok ((c.sanitized p).bytes wireVersion) := by
  rw [value_encode, value_send, refusal?_eq, bagDepth_sanitized, Profile.bytes_record]
  by_cases deep : Extras.maxDepth < p.bagDepth
  · rw [if_pos deep, if_pos deep]
  · rw [if_neg deep, if_neg deep]
    by_cases large : c.maxSize < (c.sanitized p).wireSize
    · rw [if_pos large, if_pos large]
    · rw [if_neg large, if_neg large]

/-- What is reported about a profile depends on the policy and on the outcome. -/
theorem events_encode_eq (c : Codec) (p : Profile) :
    (c.encode p).events = Event.removals (c.withheld p) ++
      ((c.encode p).value.toOption.map (encodedEvent (c.sanitized p))).toList := by
  rw [events_encode, events_send, ← value_encode]

/-! ### Another limit -/

/-- What was sent under a limit is sent in the same way under a higher one. -/
theorem encode_of_wider (policy : wider.settings.sanitizer = c.settings.sanitizer)
    (higher : c.maxSize ≤ wider.maxSize) (sent : (c.encode p).value = .ok b) :
    wider.encode p = c.encode p := by
  have left : wider.sanitized p = c.sanitized p := by
    rw [sanitized, sanitized, policy]
  have removed : wider.withheld p = c.withheld p := by
    rw [withheld, withheld, policy]
  have value : (wider.encode p).value = (c.encode p).value := by
    obtain ⟨shallow, fits, rfl⟩ := value_encode_eq_ok_iff.mp sent
    rw [sent, value_encode_eq_ok_iff, left]
    exact ⟨shallow, Nat.le_trans fits higher, rfl⟩
  refine Logged.ext value ?_
  rw [events_encode_eq, events_encode_eq, value, left, removed]

/-! ### What the limits decide -/

/-- **The limits decide.** A profile is sent exactly if its own bag nests no deeper than it may
and the sanitized profile is no larger than it may be, and its size is then the length of what is
sent. If the bag nests too deep, that is the fault whatever the size; otherwise the size is. With
a higher limit on the size, nothing that was sent is sent differently. -/
theorem encode_within_limits (c : Codec) (p : Profile) :
    ((∃ b, (c.encode p).value = .ok b) ↔
      p.bagDepth ≤ Extras.maxDepth ∧ (c.sanitized p).wireSize ≤ c.maxSize) ∧
    (∀ b, (c.encode p).value = .ok b → b.length = (c.sanitized p).wireSize) ∧
    ((c.encode p).value = .error (.encoding (.tooDeep p.bagDepth)) ↔
      Extras.maxDepth < p.bagDepth) ∧
    ((c.encode p).value = .error (.encoding .tooLarge) ↔
      p.bagDepth ≤ Extras.maxDepth ∧ c.maxSize < (c.sanitized p).wireSize) ∧
    ∀ wider : Codec, wider.settings.sanitizer = c.settings.sanitizer →
      c.maxSize ≤ wider.maxSize → (∃ b, (c.encode p).value = .ok b) →
      wider.encode p = c.encode p := by
  refine ⟨?sent, ?length, ?deep, ?large, ?wider⟩
  case length =>
    intro b sent
    obtain ⟨-, -, rfl⟩ := value_encode_eq_ok_iff.mp sent
    exact Profile.length_bytes_record _
  case wider =>
    rintro wider policy higher ⟨b, sent⟩
    exact encode_of_wider policy higher sent
  -- The three outcomes exclude each other, and every profile has one of them.
  all_goals
    rw [value_encode_eq]
    by_cases deep : Extras.maxDepth < p.bagDepth
    · simp [deep]
    · by_cases large : c.maxSize < (c.sanitized p).wireSize
      · simp [deep, large, Nat.le_of_not_lt deep]
      · simp [deep, large, Nat.le_of_not_lt deep, Nat.le_of_not_lt large]

/-- A codec with the default policy that admits so many bytes. -/
def admitting (limit : UInt64) (positive : limit ≠ 0) : Codec where
  settings := { wire := { maxSize := limit } }
  honoured := by
    have approving : ({} : Policy).namespaces ≠ [] ∧ "" ∉ ({} : Policy).namespaces := by decide
    exact (Settings.fault?_eq_none_iff _).mpr ⟨approving.1, approving.2, rfl, positive⟩

/-- A profile that takes 83 bytes without its unapproved object. -/
def laden : Profile where
  extras := some <| Extras.ofList
    [("n", .bundle (Extras.ofList [("t", .string "hi")])), ("z", .object ⟨"java.Z", [0]⟩)]

/-- A profile whose bag is one deeper than it may be. -/
def towering : Profile where
  extras := some (Extras.wrap "k" 32 .empty)

/-- A profile that fits exactly, one that is one byte too large, and one that nests one level too
deep as well. -/
theorem encode_within_limits_boundary :
    (∃ b, ((admitting 83 (by decide)).encode laden).value = .ok b ∧ b.length = 83) ∧
      ((admitting 82 (by decide)).encode laden).value = .error (.encoding .tooLarge) ∧
      (admitting 84 (by decide)).encode laden = (admitting 83 (by decide)).encode laden ∧
      ((admitting 82 (by decide)).encode towering).value = .error (.encoding (.tooDeep 33)) := by
  obtain ⟨sent, length, -, -, wider⟩ := encode_within_limits (admitting 83 (by decide)) laden
  have fits : ∃ b, ((admitting 83 (by decide)).encode laden).value = .ok b :=
    sent.mpr ⟨by decide, by decide⟩
  obtain ⟨b, hb⟩ := fits
  obtain ⟨-, -, -, large, -⟩ := encode_within_limits (admitting 82 (by decide)) laden
  obtain ⟨-, -, deep, -⟩ := encode_within_limits (admitting 82 (by decide)) towering
  have depth : towering.bagDepth = 33 := by decide +kernel
  rw [depth] at deep
  refine ⟨⟨b, hb, ?_⟩, large.mpr ⟨by decide, by decide⟩, ?_, deep.mpr (by decide)⟩
  · exact (length b hb).trans (by decide)
  · exact wider _ rfl (by decide) ⟨b, hb⟩

end Codec

end ImsCall
