import ImsCall.Proofs.Codec.Basic
import ImsCall.Proofs.Extras.Path

/-!
# What a codec gives away

Two things about a profile are not for the other side: its restrict cause, and the objects in its
bag whose types are not approved. The bytes are made from what sanitizing leaves, so they hold
neither. But an encoder may give something away without writing it: by failing, by the size in
its report, by what else it reports.

So secrecy is stated of two runs. One profile is made from the other by *hidden edits*, which
touch nothing but these two things, wherever in the bag, and the two runs are compared as a whole.
They differ in one number, which is logged and not sent: how many entries sanitizing removed at
the top level.

## Main definitions

* `Extras.HiddenEdit`, `Profile.HiddenEdit` — an edit of nothing that may leave the process

## Main results

* `Extras.HiddenEdit.strip_eq` — what sanitizing leaves of a bag is not touched
* `Codec.encode_of_hiddenEdits` — neither is anything but the number that is reported
-/

namespace ImsCall

variable {policy : Policy} {e e' : Extras}

/-! ### Edits of a bag -/

/-- An edit of one unapproved object, in a bag or in a bag nested in it. -/
inductive Extras.HiddenEdit (policy : Policy) : Extras → Extras → Prop
  /-- An unapproved object is put under a key that holds nothing. -/
  | insert {e : Extras} (key : String) (o : OpaqueObject) (free : e.get? key = none)
      (hidden : policy.approves o.typeName = false) :
      HiddenEdit policy e (e.insert key (.object o))
  /-- An unapproved object is removed. -/
  | erase {e : Extras} (key : String) {o : OpaqueObject} (found : e.get? key = some (.object o))
      (hidden : policy.approves o.typeName = false) : HiddenEdit policy e (e.erase key)
  /-- An unapproved object takes the place of another one. -/
  | replace {e : Extras} (key : String) {o : OpaqueObject} (o' : OpaqueObject)
      (found : e.get? key = some (.object o)) (hidden : policy.approves o.typeName = false)
      (hidden' : policy.approves o'.typeName = false) :
      HiddenEdit policy e (e.insert key (.object o'))
  /-- A nested bag is edited. -/
  | nested {e bag bag' : Extras} (key : String) (found : e.get? key = some (.bundle bag))
      (inner : HiddenEdit policy bag bag') : HiddenEdit policy e (e.insert key (.bundle bag'))

theorem Value.strip?_of_hidden {o : OpaqueObject} (hidden : policy.approves o.typeName = false) :
    (Value.object o).strip? policy = none := by
  rw [strip?_object, hidden]
  rfl

namespace Extras

/-- Writing under a key makes no difference to the stripped bag, if what is left of the value is
what was left of the old one. -/
theorem strip_insert_eq {key : String} {v : Value}
    (here : v.strip? policy = (e.get? key).bind fun old => old.strip? policy) :
    (e.insert key v).strip policy = e.strip policy := by
  apply ext_get?
  intro k
  rw [get?_strip, get?_strip, get?_insert]
  by_cases hk : k = key
  · rw [if_pos hk, hk, Option.bind_some, here]
  · rw [if_neg hk]

/-- Removing a key makes no difference to the stripped bag, if nothing was left of its value. -/
theorem strip_erase_eq {key : String}
    (here : ((e.get? key).bind fun old => old.strip? policy) = none) :
    (e.erase key).strip policy = e.strip policy := by
  apply ext_get?
  intro k
  rw [get?_strip, get?_strip, get?_erase]
  by_cases hk : k = key
  · rw [if_pos hk, hk, Option.bind_none, here]
  · rw [if_neg hk]

/-- **A hidden edit makes no difference to what sanitizing leaves**, at whatever depth it is. -/
theorem HiddenEdit.strip_eq (edit : e.HiddenEdit policy e') : e'.strip policy = e.strip policy := by
  induction edit with
  | insert key o free hidden =>
    apply strip_insert_eq
    rw [free, Value.strip?_of_hidden hidden, Option.bind_none]
  | erase key found hidden =>
    apply strip_erase_eq
    rw [found, Option.bind_some, Value.strip?_of_hidden hidden]
  | replace key o' found hidden hidden' =>
    apply strip_insert_eq
    rw [found, Option.bind_some, Value.strip?_of_hidden hidden, Value.strip?_of_hidden hidden']
  | nested key found inner ih =>
    apply strip_insert_eq
    rw [found, Option.bind_some, Value.strip?_bundle, Value.strip?_bundle]
    exact congrArg (some ∘ Value.bundle) ih

end Extras

/-! ### Edits of a profile -/

/-- An edit of nothing in a profile that may leave the process. -/
inductive Profile.HiddenEdit (policy : Policy) : Profile → Profile → Prop
  /-- The restrict cause is changed. -/
  | restrict (p : Profile) (cause : RestrictCause) :
      HiddenEdit policy p { p with restrictCause := cause }
  /-- An unapproved object in the bag is edited. -/
  | bag {p : Profile} {e e' : Extras} (found : p.extras = some e) (edit : e.HiddenEdit policy e') :
      HiddenEdit policy p { p with extras := some e' }

namespace Codec

variable {c : Codec} {p q : Profile}

/-- Sending reports at most one event, at debug level. -/
theorem exists_events_send (c : Codec) (p : Profile) :
    ∃ sent : Option Event, (∀ event ∈ sent, event.level = .debug) ∧
      (c.send p).events = sent.toList := by
  refine ⟨_, ?_, events_send c p⟩
  intro event mem
  obtain ⟨b, -, rfl⟩ := Option.map_eq_some_iff.mp mem
  rfl

/-- A hidden edit makes no difference to what is sent, nor to the report of it. -/
theorem send_sanitized_of_hiddenEdit (edit : p.HiddenEdit c.settings.sanitizer q) :
    c.send (c.sanitized q) = c.send (c.sanitized p) := by
  cases edit with
  | restrict cause => rfl
  | @bag e e' found edit =>
    have same : c.sanitized { p with extras := some e' } = c.sanitized p := by
      simp only [sanitized, found, Option.map_some, Extras.extras_sanitize, edit.strip_eq]
    rw [same]

/-- Nor does any number of them. -/
theorem send_sanitized_of_hiddenEdits
    (edits : Relation.ReflTransGen (Profile.HiddenEdit c.settings.sanitizer) p q) :
    c.send (c.sanitized q) = c.send (c.sanitized p) := by
  induction edits with
  | refl => rfl
  | tail _ last ih => rw [send_sanitized_of_hiddenEdit last, ih]

/-- **The restrict cause and unapproved objects are not given away.** Whatever hidden edits lead
from one profile to another, encoding them yields the same bytes or fails the same way, and
reports the same at debug level. Besides, it reports how many entries were removed at the top
level of the bag, if any, and this number is all that may differ. -/
theorem encode_of_hiddenEdits
    (edits : Relation.ReflTransGen (Profile.HiddenEdit c.settings.sanitizer) p q) :
    (c.encode q).value = (c.encode p).value ∧
      ∃ sent : Option Event, (∀ event ∈ sent, event.level = .debug) ∧
        (c.encode p).events = Event.removals (c.withheld p) ++ sent.toList ∧
        (c.encode q).events = Event.removals (c.withheld q) ++ sent.toList := by
  have same := send_sanitized_of_hiddenEdits edits
  obtain ⟨sent, level, reported⟩ := exists_events_send c (c.sanitized p)
  refine ⟨?value, sent, level, ?before, ?after⟩
  case value => rw [value_encode, value_encode, same]
  case before => rw [events_encode, reported]
  case after => rw [events_encode, same, reported]

/-- A profile with an unapproved object, and with a nested bag that has none. -/
def unedited : Profile where
  extras := some <| Extras.ofList
    [("n", .bundle (Extras.ofList [("t", .string "hi")])), ("z", .object ⟨"java.Z", [0]⟩)]

/-- The same, restricted, with unapproved objects elsewhere and in the nested bag. -/
def edited : Profile where
  restrictCause := .hd
  extras := some <| Extras.ofList
    [("a", .object ⟨"java.A", []⟩), ("b", .object ⟨"vendor.B", [1, 2]⟩),
      ("n", .bundle (Extras.ofList [("k", .object ⟨"java.K", []⟩), ("t", .string "hi")]))]

theorem encode_of_hiddenEdits_edited :
    Relation.ReflTransGen (Profile.HiddenEdit (default : Codec).settings.sanitizer)
        unedited edited ∧
      ((default : Codec).encode edited).value = ((default : Codec).encode unedited).value ∧
      ∃ sent : Option Event, (∀ event ∈ sent, event.level = .debug) ∧
        ((default : Codec).encode unedited).events = Event.removals 1 ++ sent.toList ∧
        ((default : Codec).encode edited).events = Event.removals 2 ++ sent.toList := by
  have edits : Relation.ReflTransGen (Profile.HiddenEdit (default : Codec).settings.sanitizer)
      unedited edited := by
    refine .head (.restrict unedited .hd) ?_
    refine .head (.bag rfl (.insert "a" ⟨"java.A", []⟩ rfl rfl)) ?_
    refine .head (.bag rfl (.replace "z" ⟨"java.Y", [3]⟩ rfl rfl rfl)) ?_
    refine .head (.bag rfl (.erase "z" rfl rfl)) ?_
    refine .head (.bag rfl (.nested "n" rfl
      (.insert "k" ⟨"java.K", []⟩ rfl rfl))) ?_
    refine .single (.bag rfl (.insert "b" ⟨"vendor.B", [1, 2]⟩ rfl rfl))
  exact ⟨edits, encode_of_hiddenEdits edits⟩

end Codec

end ImsCall
