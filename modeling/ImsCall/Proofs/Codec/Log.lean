import ImsCall.Proofs.Codec.Limits
import ImsCall.Proofs.Extras.History
import ImsCall.Proofs.Extras.Sanitize

/-!
# What is reported

Sanitizing, encoding and decoding report what they did, and whoever reads the reports does not see
the bags. The number of removed entries is found by comparing the sizes of two bags, one of which
was rebuilt from the other, and the events of encoding come from two operations, the second of which
may refuse what the first has reported about. That each report is right by itself is shown here for
every bag, every profile and every buffer, those that are refused included.

A number is compared with the keys of the bag that came in, looked up one by one, and a size with
the bytes that went out.

## Main definitions

* `Extras.unapprovedKeys` — the keys that hold an object of a type that is not covered
* `Extras.TellsLoss` — what sanitizing a bag reports
* `Codec.TellsSending`, `Codec.TellsReading` — what encoding and decoding report

## Main results

* `Extras.encard_unapprovedKeys` — the number of entries that sanitizing removes
* `Codec.log_exact` — every report is exact
-/

namespace ImsCall

variable {policy : Policy}

theorem Value.isUnapproved_iff {v : Value} :
    v.isUnapproved policy = true ↔ ∃ o, v = .object o ∧ ¬ policy.Covers o.typeName := by
  cases v with
  | object o =>
    rw [isUnapproved, Bool.not_eq_true', ← Bool.not_eq_true, Policy.approves_iff_covers]
    simp
  | _ => simp [isUnapproved]

/-- Removed entries are reported at most once. -/
theorem Event.levels_removals (count : Nat) :
    ((removals count).map level).Sublist [.info] := by
  rw [removals]
  split
  · exact List.nil_sublist _
  · exact List.Sublist.refl _

namespace Extras

/-! ### Removed entries -/

/-- The keys under which a bag holds an object of a type that a policy does not cover. -/
def unapprovedKeys (e : Extras) (policy : Policy) : Set String :=
  {k | ∃ o, e.get? k = some (.object o) ∧ ¬ policy.Covers o.typeName}

/-- What sanitizing a bag reports if it loses so many entries. -/
structure TellsLoss (e : Extras) (policy : Policy) (lost : Nat) : Prop where
  /-- The entries that go are those of the bag itself that hold an unapproved object. -/
  counted : (e.unapprovedKeys policy).encard = lost
  /-- The bag that is left is smaller by this number. -/
  balance : (e.sanitize policy).value.extras.size + lost = e.size
  events : (e.sanitize policy).events = if lost = 0 then [] else [.removed lost]
  levels : ((e.sanitize policy).events.map Event.level).Sublist [.info]

theorem encard_unapprovedKeys (e : Extras) (policy : Policy) :
    (e.unapprovedKeys policy).encard = e.unapprovedCount policy := by
  rw [unapprovedCount, ← encard_keys_where]
  congr 1
  ext k
  constructor
  · rintro ⟨o, found, uncovered⟩
    exact ⟨_, found, Value.isUnapproved_iff.mpr ⟨o, rfl, uncovered⟩⟩
  · rintro ⟨v, found, unapproved⟩
    obtain ⟨o, rfl, uncovered⟩ := Value.isUnapproved_iff.mp unapproved
    exact ⟨o, found, uncovered⟩

/-- A nested bag is no unapproved object, whatever it holds. -/
theorem unapprovedKeys_insert_bundle (e : Extras) (k : String) (inner : Extras)
    (policy : Policy) :
    (e.insert k (.bundle inner)).unapprovedKeys policy = e.unapprovedKeys policy \ {k} := by
  ext j
  by_cases hj : j = k
  · simp [unapprovedKeys, hj]
  · simp [unapprovedKeys, hj]

theorem unapprovedCount_insert_bundle (e : Extras) (k : String) (inner other : Extras)
    (policy : Policy) :
    (e.insert k (.bundle inner)).unapprovedCount policy =
      (e.insert k (.bundle other)).unapprovedCount policy := by
  rw [← Nat.cast_inj (R := ℕ∞), ← encard_unapprovedKeys, ← encard_unapprovedKeys,
    unapprovedKeys_insert_bundle, unapprovedKeys_insert_bundle]

theorem tellsLoss (e : Extras) (policy : Policy) :
    e.TellsLoss policy (e.unapprovedCount policy) where
  counted := e.encard_unapprovedKeys policy
  balance := by
    rw [extras_sanitize]
    exact e.size_strip_add_unapprovedCount policy
  events := e.events_sanitize policy
  levels := by
    rw [events_sanitize]
    exact Event.levels_removals _

end Extras

namespace Codec

variable {c : Codec} {p : Profile} {b : Bytes}

/-! ### Encoding -/

/-- What sanitizing the bag of a profile reports. -/
def lossEvents (c : Codec) (p : Profile) : List Event :=
  p.extras.elim [] fun e => (e.sanitize c.settings.sanitizer).events

/-- What encoding a profile reports: what sanitizing its bag does, whatever comes of the rest, and
then that it was encoded, if it was. -/
structure TellsSending (c : Codec) (p : Profile) : Prop where
  of_sent : ∀ b, (c.encode p).value = .ok b →
    (c.encode p).events =
      c.lossEvents p ++ [.encoded b.length (Coded.code p.service) (Coded.code p.call)]
  of_refused : ∀ fault, (c.encode p).value = .error fault →
    (c.encode p).events = c.lossEvents p
  /-- There is one event of each level at most, and debugging comes last. -/
  levels : ((c.encode p).events.map Event.level).Sublist [.info, .debug]

theorem lossEvents_eq (c : Codec) (p : Profile) :
    c.lossEvents p = Event.removals (c.withheld p) := by
  rw [lossEvents, withheld]
  cases p.extras with
  | none => rfl
  | some e => exact e.events_sanitize c.settings.sanitizer

theorem events_encode_of_sent (sent : (c.encode p).value = .ok b) :
    (c.encode p).events =
      c.lossEvents p ++ [.encoded b.length (Coded.code p.service) (Coded.code p.call)] := by
  rw [events_encode_eq, sent, lossEvents_eq]
  rfl

theorem events_encode_of_refused {fault : Fault} (refused : (c.encode p).value = .error fault) :
    (c.encode p).events = c.lossEvents p := by
  rw [events_encode_eq, refused, lossEvents_eq]
  exact List.append_nil _

theorem tellsSending (c : Codec) (p : Profile) : c.TellsSending p where
  of_sent _ := events_encode_of_sent
  of_refused _ := events_encode_of_refused
  levels := by
    have removals := Event.levels_removals (c.withheld p)
    cases outcome : (c.encode p).value with
    | ok b =>
      rw [events_encode_of_sent outcome, lossEvents_eq, List.map_append]
      exact removals.append (List.Sublist.refl _)
    | error fault =>
      rw [events_encode_of_refused outcome, lossEvents_eq]
      exact removals.trans (List.sublist_append_left _ [Level.debug])

/-! ### Decoding -/

/-- What decoding a buffer reports: what was read, as it was read, if a profile comes of it, and
otherwise nothing. -/
structure TellsReading (c : Codec) (b : Bytes) : Prop where
  of_read : ∀ p, (c.decode b).value = .ok p →
    ∃ content, Wire.readContent b = .ok content ∧
      (c.decode b).events =
        [.decoded content.version content.service content.call p.extras.isSome]
  of_refused : ∀ fault, (c.decode b).value = .error fault → (c.decode b).events = []
  levels : ((c.decode b).events.map Event.level).Sublist [.debug]

theorem events_decode (c : Codec) (b : Bytes) :
    (c.decode b).events = ((c.read b).toOption.map decodedEvent).toList := by
  rw [decode]
  cases c.read b <;> rfl

/-- The codes and the version of a profile that was read are those in the buffer. -/
theorem exists_content_of_read (h : c.read b = .ok p) :
    ∃ content, Wire.readContent b = .ok content ∧
      decodedEvent p =
        .decoded content.version content.service content.call p.extras.isSome := by
  rw [read, except_bind_eq_ok_iff] at h
  obtain ⟨content, accepted, named⟩ := h
  obtain ⟨-, version, found⟩ := readContent_eq_ok_iff.mp accepted
  obtain ⟨service, call, -⟩ := ofContent_eq_ok_iff.mp named
  exact ⟨content, found, by rw [decodedEvent, version, service, call]⟩

theorem tellsReading (c : Codec) (b : Bytes) : c.TellsReading b where
  of_read p h := by
    rw [value_decode] at h
    obtain ⟨content, found, event⟩ := exists_content_of_read h
    refine ⟨content, found, ?_⟩
    rw [events_decode, h, ← event]
    rfl
  of_refused fault h := by
    rw [value_decode] at h
    rw [events_decode, h]
    rfl
  levels := by
    rw [events_decode]
    cases c.read b with
    | ok p => exact List.Sublist.refl _
    | error fault => exact List.nil_sublist _

/-! ### Every report -/

/-- **Every report is exact.** Sanitizing a bag reports how many of its own entries are unapproved
objects, and nothing if there are none. What a nested bag holds is of no account. Encoding reports
this first, also if the profile is then refused, and after it the number of bytes, exactly if there
are any. Decoding reports what it read exactly if a profile comes of it. -/
theorem log_exact (c : Codec) :
    (∀ (e : Extras) (policy : Policy), e.TellsLoss policy (e.unapprovedCount policy)) ∧
    (∀ (e : Extras) (k : String) (inner other : Extras) (policy : Policy),
      ((e.insert k (.bundle inner)).sanitize policy).events =
        ((e.insert k (.bundle other)).sanitize policy).events) ∧
    (∀ p, c.TellsSending p) ∧
    ∀ b, c.TellsReading b := by
  refine ⟨Extras.tellsLoss, ?nested, c.tellsSending, c.tellsReading⟩
  case nested =>
    intro e k inner other policy
    rw [Extras.events_sanitize, Extras.events_sanitize, e.unapprovedCount_insert_bundle k inner]

/-- Of two unapproved objects, the one that lies in a nested bag is removed without a report. -/
example :
    ((default : Codec).encode
      { extras := some (Extras.ofList
          [("a", .bundle (Extras.ofList [("x", .object ⟨"java.X", [1]⟩)])),
            ("b", .object ⟨"java.B", [2, 3]⟩), ("c", .object ⟨"ims.C", [4]⟩)]) }).events =
      [.removed 1, .encoded 95 1 1] := by
  decide +kernel

end Codec

end ImsCall
