import ImsCall.Codec

/-!
# Sessions

A session holds profiles by name and the codec in use. It moves on by steps: profiles are
created, copied, changed, updated from one another and sent from one name to another. A step
that fails changes nothing, and a step on a name that holds no profile does nothing.

## Main definitions

* `Extras.Edit`, `Profile.Change` — what can be done to a bag and to a profile
* `Session`, `Session.Step`, `Session.step`, `Session.run` — sessions and their steps

## Main results

* `Profile.value_change_edit` — edits of an absent bag do nothing
* `Session.get?_put` — what the names hold after one of them is given a profile
-/

namespace ImsCall

/-- A change of a bag. -/
inductive Extras.Edit where
  | insert (key : String) (value : Value)
  | erase (key : String)
  | clear
  | extend (entries : List (String × Value))
  /-- The bag rebuilt from its typed view. -/
  | normalize
  /-- Writes the fields that are present in a view. -/
  | override (view : View)
  /-- Takes out what a policy does not approve. -/
  | sanitize (policy : Policy)

/-- The bag after a change. -/
def Extras.edit (e : Extras) : Extras.Edit → Logged Extras
  | .insert key value => pure (e.insert key value)
  | .erase key => pure (e.erase key)
  | .clear => pure .empty
  | .extend entries => pure (e.extend entries)
  | .normalize => pure e.view.toExtras
  | .override view => pure (view.applyTo e)
  | .sanitize policy => return (← e.sanitize policy).extras

/-- A change of a profile. -/
inductive Profile.Change where
  | restrict (cause : RestrictCause)
  | setMedia (media : MediaProfile)
  | setExtras (extras : Extras)
  | takeExtras
  /-- A change of the bag; nothing happens if there is none. -/
  | edit (edit : Extras.Edit)

/-- The profile after a change. -/
def Profile.change (p : Profile) : Profile.Change → Logged Profile
  | .restrict cause => pure { p with restrictCause := cause }
  | .setMedia media => pure { p with media }
  | .setExtras extras => pure { p with extras := some extras }
  | .takeExtras => pure p.dropExtras
  | .edit edit =>
    match p.extras with
    | some e => return { p with extras := some (← e.edit edit) }
    | none => pure p

/-- An edit changes the bag that is there and makes none. -/
theorem Profile.value_change_edit (p : Profile) (edit : Extras.Edit) :
    (p.change (.edit edit)).value = p.mapExtras fun e => (e.edit edit).value := by
  obtain ⟨service, call, cause, extras, media⟩ := p
  cases extras <;> rfl

/-- Writing one extra is an edit. -/
theorem Profile.value_change_insert (p : Profile) (key : String) (value : Value) :
    (p.change (.edit (.insert key value))).value = p.setExtra key value :=
  p.value_change_edit _

/-- Named profiles and the codec in use. -/
structure Session where
  profiles : List (String × Profile) := []
  codec : Codec := default

namespace Session

instance : Inhabited Session := ⟨{}⟩

/-- The profile of a name. -/
def get? (s : Session) (name : String) : Option Profile := s.profiles.lookup name

/-- Gives a name a profile. -/
def put (s : Session) (name : String) (p : Profile) : Session :=
  { s with profiles := (name, p) :: s.profiles.filter fun entry => entry.1 != name }

/-- An entry of another name is passed over. -/
private theorem lookup_cons_of_ne {k name : String} (ne : k ≠ name) (p : Profile)
    (entries : List (String × Profile)) :
    ((name, p) :: entries).lookup k = entries.lookup k := by
  rw [List.lookup_cons, beq_eq_false_iff_ne.mpr ne]

private theorem lookup_filter {k name : String} (ne : k ≠ name) :
    (entries : List (String × Profile)) →
    (entries.filter fun entry => entry.1 != name).lookup k = entries.lookup k
  | [] => rfl
  | (other, p) :: entries => by
    by_cases eq : other = name
    · subst eq
      simp [lookup_cons_of_ne ne, lookup_filter ne entries]
    · simp [List.lookup_cons, eq, lookup_filter ne entries]

@[simp] theorem get?_put (s : Session) (name : String) (p : Profile) (k : String) :
    (s.put name p).get? k = if k = name then some p else s.get? k := by
  by_cases eq : k = name
  · simp [get?, put, eq]
  · simp [get?, put, eq, lookup_cons_of_ne eq, lookup_filter eq]

/-- A step of a session. -/
inductive Step where
  /-- A new profile, with an empty bag. -/
  | create (name : String) (service : ServiceType) (call : CallType)
  /-- The default profile. -/
  | reset (name : String)
  | copy (name source : String)
  | change (name : String) (change : Profile.Change)
  /-- Takes the call type from another profile. -/
  | updateCallType (name source : String)
  /-- Takes the extras from another profile. -/
  | updateExtras (name source : String)
  /-- Decodes a buffer. -/
  | receive (name : String) (codec : Codec) (data : Bytes)
  /-- Encodes one profile and decodes the buffer as another, at a receiver with a codec of its
  own or with the sender's. -/
  | transfer (name source : String) (codec : Codec) (receiver : Codec := codec)
  /-- Changes the codec in use. -/
  | configure (settings : Settings)

/-- The session after a name is given a profile, unless there was a fault. -/
def putResult (s : Session) (name : String) : Except Fault Profile → Except Fault Session
  | .ok p => .ok (s.put name p)
  | .error fault => .error fault

/-- The session after a step, or the fault that kept the step from happening. -/
def step (s : Session) : Step → Logged (Except Fault Session)
  | .create name service call => pure (.ok (s.put name (.new service call)))
  | .reset name => pure (.ok (s.put name {}))
  | .copy name source =>
    match s.get? source with
    | some p => pure (.ok (s.put name p))
    | none => pure (.ok s)
  | .change name change =>
    match s.get? name with
    | some p => return .ok (s.put name (← p.change change))
    | none => pure (.ok s)
  | .updateCallType name source =>
    match s.get? name, s.get? source with
    | some p, some q => pure (.ok (s.put name (p.updateCallType q)))
    | _, _ => pure (.ok s)
  | .updateExtras name source =>
    match s.get? name, s.get? source with
    | some p, some q => pure (.ok (s.put name (p.updateExtras q)))
    | _, _ => pure (.ok s)
  | .receive name codec data => return s.putResult name (← codec.decode data)
  | .transfer name source codec receiver =>
    match s.get? source with
    | none => pure (.ok s)
    | some p => do
      match ← codec.encode p with
      | .error fault => return .error fault
      | .ok data => return s.putResult name (← receiver.decode data)
  | .configure settings =>
    match Codec.ofSettings settings with
    | .ok codec => pure (.ok { s with codec })
    | .error fault => pure (.error fault)

/-- The session after a step; a step that fails changes nothing. -/
def advance (s : Session) (t : Step) : Logged Session := do
  match ← s.step t with
  | .ok next => return next
  | .error _ => return s

/-- The session after several steps. -/
def run (s : Session) : List Step → Logged Session
  | [] => pure s
  | t :: ts => do (← s.advance t).run ts

end Session

end ImsCall
