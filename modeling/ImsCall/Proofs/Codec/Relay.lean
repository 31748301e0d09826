import ImsCall.Proofs.Codec.Basic
import ImsCall.Proofs.Extras.Path

/-!
# Relaying profiles

A profile that is passed on from process to process goes through one codec to be sent and through
another one to be received, hop after hop, and no two of these codecs need to have the same
policy or the same limit.

Every sender strips the bag under its own policy, which makes it no larger, no deeper and no less
deep. So a buffer that is small enough for every codec on the way stays so, and what counts for
the last profile is which policies the bag has met, in whatever order and how often.

## Main definitions

* `Hop`, `relay` — one sender and one receiver, and a chain of them
* `Profile.Arrives` — what is left of a profile that has met some policies

## Main results

* `relay_of_permitted` — a chain whose sizes permit delivers, and what it delivers
-/

namespace ImsCall

/-- One hop of a relay: the codec that sends and the one that receives. -/
structure Hop where
  sender : Codec
  receiver : Codec

/-- The policy that a hop sends under. -/
def Hop.policy (hop : Hop) : Policy := hop.sender.settings.sanitizer

/-- Passes a profile on: the buffer that is sent for it, and the profile that arrives. -/
def Hop.pass (hop : Hop) (p : Profile) : Except Fault (Bytes × Profile) := do
  let b ← (hop.sender.encode p).value
  let q ← (hop.receiver.decode b).value
  return (b, q)

/-- Passes a profile on from hop to hop: the buffers that are sent, and the last profile. -/
def relay : List Hop → Profile → Except Fault (List Bytes × Profile)
  | [], p => return ([], p)
  | hop :: hops, p => do
    let (b, q) ← hop.pass p
    let (bs, last) ← relay hops q
    return (b :: bs, last)

/-- Every codec on the way admits buffers of a size. -/
def Permits (hops : List Hop) (size : Nat) : Prop :=
  ∀ hop ∈ hops, size ≤ hop.sender.maxSize ∧ size ≤ hop.receiver.maxSize

/-- What is left of a profile that has met some policies: it has no restrict cause, of the objects
in its bag, at every depth, there are those that all of the policies approve, and everything else
is as it was. -/
structure Profile.Arrives (policies : List Policy) (p last : Profile) : Prop where
  service : last.service = p.service
  call : last.call = p.call
  restrictCause : last.restrictCause = .none
  extras : Option.Rel
    (Extras.Keeps fun name => ∀ policy ∈ policies, policy.approves name = true)
    p.extras last.extras
  media : last.media = p.media

/-- A profile that has met some policies, by stripping its bag under one after the other. -/
def Profile.stripped (policies : List Policy) (p : Profile) : Profile :=
  { p with
    restrictCause := .none
    extras := p.extras.map fun e => policies.foldl Extras.strip e }

/-! ### What arrives -/

theorem Profile.arrives_stripped (policies : List Policy) (p : Profile) :
    p.Arrives policies (p.stripped policies) := by
  refine ⟨rfl, rfl, rfl, ?_, rfl⟩
  rw [stripped]
  cases p.extras with
  | none => exact .none
  | some e => exact .some (Extras.keeps_foldl_strip policies e)

/-- What arrives depends on the policies as a set. -/
theorem Profile.Arrives.unique {policies others : List Policy} {p a b : Profile}
    (ha : p.Arrives policies a) (hb : p.Arrives others b)
    (same : ∀ policy, policy ∈ others ↔ policy ∈ policies) : a = b := by
  have extras : a.extras = b.extras := by
    have hx := ha.extras
    have hy := hb.extras
    generalize a.extras = x at hx ⊢
    generalize b.extras = y at hy ⊢
    generalize p.extras = o at hx hy
    cases hx with
    | none =>
      cases hy with
      | none => rfl
    | some left =>
      cases hy with
      | some right =>
        rw [left.unique (right.congr fun name => by simp only [same])]
  obtain ⟨service, call, cause, bag, media⟩ := a
  obtain ⟨service', call', cause', bag', media'⟩ := b
  obtain rfl : service = service' := ha.service.trans hb.service.symm
  obtain rfl : call = call' := ha.call.trans hb.call.symm
  obtain rfl : cause = cause' := ha.restrictCause.trans hb.restrictCause.symm
  obtain rfl : media = media' := ha.media.trans hb.media.symm
  obtain rfl : bag = bag' := extras
  rfl

theorem Profile.stripped_nil {p : Profile} (uncaused : p.restrictCause = .none) :
    p.stripped [] = p := by
  obtain ⟨service, call, cause, extras, media⟩ := p
  obtain rfl : cause = .none := uncaused
  simp only [stripped, List.foldl_nil, Option.map_id_fun', id_eq]

/-- Meeting one policy and then others is meeting all of them. -/
theorem Profile.stripped_stripped (policy : Policy) (policies : List Policy) (p : Profile) :
    (p.stripped [policy]).stripped policies = p.stripped (policy :: policies) := by
  simp only [stripped, Option.map_map, Function.comp_def, List.foldl_cons, List.foldl_nil]

/-! ### One hop -/

namespace Hop

variable {hop : Hop} {p : Profile}

/-- What a sender does to a profile, but for the restrict cause, which stays behind. -/
theorem stripped_policy (hop : Hop) (p : Profile) :
    p.stripped [hop.policy] = { hop.sender.sanitized p with restrictCause := .none } := by
  simp only [Codec.sanitized, Extras.extras_sanitize, Profile.stripped, policy, List.foldl_cons,
    List.foldl_nil]

theorem wireSize_stripped (hop : Hop) (p : Profile) :
    (p.stripped [hop.policy]).wireSize = (hop.sender.sanitized p).wireSize := by
  rw [stripped_policy]
  rfl

/-- No sender makes a bag too deep. -/
theorem shallow_record_sanitized (shallow : p.record.Shallow) :
    (hop.sender.sanitized p).record.Shallow :=
  Codec.shallow_record_sanitized_iff.mpr (p.shallow_record_iff.mp shallow)

theorem shallow_record_stripped (shallow : p.record.Shallow) :
    (p.stripped [hop.policy]).record.Shallow := by
  rw [stripped_policy]
  exact shallow_record_sanitized shallow

/-- A profile whose bag is not too deep passes a hop whose codecs admit the sanitized profile. -/
theorem pass_of_fits (shallow : (hop.sender.sanitized p).record.Shallow)
    (sends : (hop.sender.sanitized p).wireSize ≤ hop.sender.maxSize)
    (receives : (hop.sender.sanitized p).wireSize ≤ hop.receiver.maxSize) :
    hop.pass p = .ok ((hop.sender.sanitized p).record.bytes, p.stripped [hop.policy]) := by
  have sent : (hop.sender.encode p).value = .ok (hop.sender.sanitized p).record.bytes :=
    Codec.value_encode_eq_ok_iff.mpr ⟨shallow, sends, rfl⟩
  have received : (hop.receiver.decode (hop.sender.sanitized p).record.bytes).value =
      .ok (p.stripped [hop.policy]) := by
    rw [Codec.value_decode, Codec.read_bytes_record shallow receives, stripped_policy]
  rw [pass, sent, except_bind_eq_ok_iff]
  exact ⟨_, rfl, except_bind_eq_ok_iff.mpr ⟨_, received, rfl⟩⟩

end Hop

/-! ### A chain -/

variable {hop : Hop} {hops : List Hop} {p : Profile} {b : Bytes}

theorem relay_cons {q last : Profile} {bs : List Bytes} (first : hop.pass p = .ok (b, q))
    (others : relay hops q = .ok (bs, last)) : relay (hop :: hops) p = .ok (b :: bs, last) := by
  rw [relay, first, except_bind_eq_ok_iff]
  exact ⟨_, rfl, except_bind_eq_ok_iff.mpr ⟨_, others, rfl⟩⟩

theorem Permits.mono {size larger : Nat} (h : Permits hops larger) (le : size ≤ larger) :
    Permits hops size :=
  fun hop mem => ⟨Nat.le_trans le (h hop mem).1, Nat.le_trans le (h hop mem).2⟩

/-- Where a profile is small enough from the start, every hop passes it on, and no buffer is
larger than the one before. -/
theorem relay_of_wireSize_le (hops : List Hop) {p : Profile} {size : Nat}
    (shallow : p.record.Shallow) (small : p.wireSize ≤ size) (permitted : Permits hops size)
    (uncaused : p.restrictCause = .none) :
    ∃ bs, relay hops p = .ok (bs, p.stripped (hops.map Hop.policy)) ∧
      (∀ b ∈ bs, b.length ≤ size) ∧
      bs.Pairwise fun earlier later => later.length ≤ earlier.length := by
  induction hops generalizing p size with
  | nil =>
    refine ⟨[], ?_, List.forall_mem_nil _, .nil⟩
    rw [List.map_nil, Profile.stripped_nil uncaused]
    rfl
  | cons hop hops ih =>
    -- The size of the first buffer bounds all the others.
    have shrunk := Nat.le_trans (hop.sender.wireSize_sanitized_le p) small
    obtain ⟨here, later⟩ := List.forall_mem_cons.mp (permitted.mono shrunk)
    have first := Hop.pass_of_fits (Hop.shallow_record_sanitized shallow) here.1 here.2
    obtain ⟨bs, others, bounded, ordered⟩ := ih (Hop.shallow_record_stripped shallow)
      (Nat.le_of_eq (hop.wireSize_stripped p)) later rfl
    rw [Profile.stripped_stripped] at others
    have length := (hop.sender.sanitized p).length_bytes_record
    refine ⟨_, relay_cons first others, ?_, ?_⟩
    · rw [List.forall_mem_cons, length]
      exact ⟨shrunk, fun b mem => Nat.le_trans (bounded b mem) shrunk⟩
    · rw [List.pairwise_cons, length]
      exact ⟨bounded, ordered⟩

/-- A chain delivers a profile if its first sender encodes it in a buffer that is small enough for
every codec on the way. -/
theorem relay_of_sent (sent : (hop.sender.encode p).value = .ok b)
    (permitted : Permits (hop :: hops) b.length) :
    ∃ bs, relay (hop :: hops) p = .ok (b :: bs, p.stripped ((hop :: hops).map Hop.policy)) ∧
      (b :: bs).Pairwise fun earlier later => later.length ≤ earlier.length := by
  obtain ⟨shallow, -, rfl⟩ := Codec.value_encode_eq_ok_iff.mp sent
  have length := (hop.sender.sanitized p).length_bytes_record
  rw [length] at permitted
  obtain ⟨here, later⟩ := List.forall_mem_cons.mp permitted
  have first := Hop.pass_of_fits shallow here.1 here.2
  obtain ⟨bs, others, bounded, ordered⟩ := relay_of_wireSize_le hops
    (p := p.stripped [hop.policy]) (by rw [Hop.stripped_policy]; exact shallow)
    (Nat.le_of_eq (hop.wireSize_stripped p)) later rfl
  rw [Profile.stripped_stripped] at others
  refine ⟨bs, relay_cons first others, ?_⟩
  rw [List.pairwise_cons, length]
  exact ⟨bounded, ordered⟩

/-- **A chain whose sizes permit delivers.** Every hop succeeds, no buffer is larger than the one
before, and the profile arrives with the objects that the policies of all senders approve. Any
other such chain whose senders have the same policies, in another order or more or less often,
delivers the same profile. -/
theorem relay_of_permitted (sent : (hop.sender.encode p).value = .ok b)
    (permitted : Permits (hop :: hops) b.length) :
    ∃ bs last, relay (hop :: hops) p = .ok (b :: bs, last) ∧
      ((b :: bs).Pairwise fun earlier later => later.length ≤ earlier.length) ∧
      p.Arrives ((hop :: hops).map Hop.policy) last ∧
      ∀ hop' hops' b', (hop'.sender.encode p).value = .ok b' →
        Permits (hop' :: hops') b'.length →
        (∀ policy, policy ∈ (hop' :: hops').map Hop.policy ↔
          policy ∈ (hop :: hops).map Hop.policy) →
        ∃ bs', relay (hop' :: hops') p = .ok (b' :: bs', last) := by
  obtain ⟨bs, run, ordered⟩ := relay_of_sent sent permitted
  have arrives := p.arrives_stripped ((hop :: hops).map Hop.policy)
  refine ⟨bs, _, run, ordered, arrives, ?_⟩
  intro hop' hops' b' sent' permitted' same
  obtain ⟨bs', run', -⟩ := relay_of_sent sent' permitted'
  have arrives' := p.arrives_stripped ((hop' :: hops').map Hop.policy)
  rw [arrives.unique arrives' same]
  exact ⟨bs', run'⟩

/-- A codec whose policy approves other objects than the default one. -/
def vendorCodec : Codec where
  settings := { sanitizer := { namespaces := ["ims.", "vendor."] }, wire := { maxSize := 512 } }

def outHop : Hop := ⟨default, vendorCodec⟩

def backHop : Hop := ⟨vendorCodec, default⟩

/-- A restricted profile with objects that the default policy, the vendor's, or both approve. -/
def mixedProfile : Profile where
  restrictCause := .hd
  extras := some <| Extras.ofList
    [("a", .object ⟨"ims.A", [1]⟩), ("b", .object ⟨"system.B", []⟩),
      ("n", .bundle (Extras.ofList
        [("c", .object ⟨"vendor.C", [2]⟩), ("d", .double ⟨0x7ff8000000000001⟩)]))]

theorem relay_of_permitted_mixedProfile :
    ∃ b b', (outHop.sender.encode mixedProfile).value = .ok b ∧
      Permits [outHop, backHop] b.length ∧
      (backHop.sender.encode mixedProfile).value = .ok b' ∧
      Permits [backHop, outHop, backHop] b'.length ∧
      ∃ bs bs' last, relay [outHop, backHop] mixedProfile = .ok (b :: bs, last) ∧
        relay [backHop, outHop, backHop] mixedProfile = .ok (b' :: bs', last) ∧
        mixedProfile.Arrives [outHop.policy, backHop.policy] last := by
  have same : ∀ policy, policy ∈ [backHop, outHop, backHop].map Hop.policy ↔
      policy ∈ [outHop, backHop].map Hop.policy := by
    intro policy
    simp only [List.map_cons, List.map_nil, List.mem_cons]
    tauto
  have sent : (outHop.sender.encode mixedProfile).value =
      .ok (outHop.sender.sanitized mixedProfile).record.bytes := by rfl
  have sent' : (backHop.sender.encode mixedProfile).value =
      .ok (backHop.sender.sanitized mixedProfile).record.bytes := by rfl
  have permitted : Permits [outHop, backHop]
      (outHop.sender.sanitized mixedProfile).record.bytes.length := by
    rw [Permits, Profile.length_bytes_record]
    decide
  have permitted' : Permits [backHop, outHop, backHop]
      (backHop.sender.sanitized mixedProfile).record.bytes.length := by
    rw [Permits, Profile.length_bytes_record]
    decide
  obtain ⟨bs, last, run, -, arrives, others⟩ := relay_of_permitted sent permitted
  obtain ⟨bs', run'⟩ := others backHop [outHop, backHop] _ sent' permitted' same
  exact ⟨_, _, sent, permitted, sent', permitted', bs, bs', last, run, run', arrives⟩

end ImsCall
