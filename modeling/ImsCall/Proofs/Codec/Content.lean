import ImsCall.Proofs.Codec.Basic
import ImsCall.Proofs.Extras.Path
import ImsCall.Session

/-!
# The bytes as a canonical form

The same content may come about in many ways. Two bags may have been filled in different orders,
may have had keys overwritten, removed or cleared, and may hold nested bags with histories of
their own, or unapproved objects that stay behind. None of this shows in the bytes: they settle
what may leave the process of a profile, and are settled by it.

One direction is that bags with the same answers are equal, as `Extras.Alike.eq` says of every
bag, and so of every history. The other one is that bytes are spelled in one way only, which is
`Wire.Record.bytes_inj`.

## Main definitions

* `Extras.afterEdits` — the bag that a history leaves

## Main results

* `Codec.bytes_eq_iff_alike` — equal bytes are sent for profiles with alike contents
-/

namespace ImsCall

namespace Extras

/-- The bag after several changes. -/
def afterEdits (e : Extras) (edits : List Extras.Edit) : Extras :=
  edits.foldl (fun bag change => (bag.edit change).value) e

end Extras

/-- The record of a profile settles everything but the restrict cause. -/
theorem Profile.record_eq_iff {p q : Profile} :
    p.record = q.record ↔
      p.service = q.service ∧ p.call = q.call ∧ p.media = q.media ∧ p.extras = q.extras := by
  constructor
  · intro eq
    have same : { p with restrictCause := .none } = { q with restrictCause := .none } := by
      rw [← p.profile_record, ← q.profile_record, eq]
    obtain ⟨service, call, -, extras, media⟩ := Profile.mk.inj same
    exact ⟨service, call, media, extras⟩
  · rintro ⟨service, call, media, extras⟩
    rw [record, record, service, call, media, extras]

namespace Codec

variable {c : Codec} {p q : Profile} {a b : Bytes}

/-- **The bytes are a canonical form of the content.** A codec sends the same bytes for two
profiles exactly if they agree in service, call and media, and the bags that sanitizing leaves are
both absent or alike, whatever operations built the bags and those nested in them. -/
theorem bytes_eq_iff_alike (hp : (c.encode p).value = .ok a) (hq : (c.encode q).value = .ok b) :
    a = b ↔
      p.service = q.service ∧ p.call = q.call ∧ p.media = q.media ∧
        Option.Rel Extras.Alike (c.sanitized p).extras (c.sanitized q).extras := by
  obtain ⟨-, fits, rfl⟩ := value_encode_eq_ok_iff.mp hp
  obtain ⟨-, -, rfl⟩ := value_encode_eq_ok_iff.mp hq
  have short : (c.sanitized p).record.bytes.length < 2 ^ 64 := by
    rw [Profile.length_bytes_record]
    exact Nat.lt_of_le_of_lt fits c.maxSize_lt
  rw [Extras.rel_alike_iff_eq]
  calc (c.sanitized p).record.bytes = (c.sanitized q).record.bytes
      ↔ (c.sanitized p).record = (c.sanitized q).record :=
        ⟨Wire.Record.bytes_inj short, congrArg Wire.Record.bytes⟩
    _ ↔ p.service = q.service ∧ p.call = q.call ∧ p.media = q.media ∧
        (c.sanitized p).extras = (c.sanitized q).extras := Profile.record_eq_iff

/-- A profile whose bag was cleared, filled out of order and overwritten, as was the bag in it. -/
def rewritten : Profile where
  restrictCause := .rat
  extras := some <| Extras.empty.afterEdits
    [.insert "a" (.long 7), .clear,
      .extend [("o", .object ⟨"java.O", [1]⟩), ("n", .strings []), ("e", .bool false)],
      .insert "n" (.bundle (Extras.empty.afterEdits
        [.insert "y" (.bool true), .insert "x" (.int 1), .insert "x" (.int 2)])),
      .erase "e", .insert "d" (.double ⟨0x8000000000000000⟩)]

/-- A profile with the same content, collected in order. -/
def collected : Profile where
  extras := some <| Extras.ofList
    [("d", .double ⟨0x8000000000000000⟩),
      ("n", .bundle (Extras.ofList [("x", .int 2), ("y", .bool true)]))]

theorem bytes_eq_iff_alike_collected :
    ∃ b, ((default : Codec).encode rewritten).value = .ok b ∧
      ((default : Codec).encode collected).value = .ok b ∧
      Option.Rel Extras.Alike ((default : Codec).sanitized rewritten).extras
        ((default : Codec).sanitized collected).extras := by
  have hp : ((default : Codec).encode rewritten).value =
      .ok ((default : Codec).sanitized collected).record.bytes := by rfl
  have hq : ((default : Codec).encode collected).value =
      .ok ((default : Codec).sanitized collected).record.bytes := by rfl
  obtain ⟨-, -, -, alike⟩ := (bytes_eq_iff_alike hp hq).mp rfl
  exact ⟨_, hp, hq, alike⟩

end Codec

end ImsCall
