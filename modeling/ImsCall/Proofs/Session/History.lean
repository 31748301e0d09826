import ImsCall.Proofs.Codec.Basic
import ImsCall.Session

/-!
# Profiles over a session

Which steps a profile owes its bag and its restrict cause to. Every profile of a session has a
history: the steps it went through, the latest first. A copy goes on with the history of the
profile that was copied, and so does a profile that was sent from one name to another. A new
profile, or one that came from outside, starts a history of its own.

Most steps have no say in whether there is a bag. The last one in the history that has settles
it: the bag is absent exactly if that step took it out, or if the profile came without one.

## Implementation notes

Histories are kept beside the session. They read nothing off its profiles except whether a step
came to anything. What a step comes to is said once, by `Session.get?_advance`; nothing after it
looks into `Session.advance` again.

## Main definitions

* `Session.makes?`, `Session.Step.target?` — the profile that a step makes, and for which name
* `Session.history` — the history of a profile after a run
* `Session.withoutExtras`, `Session.lastCause` — what a history says about the bag and the cause
* `Session.Explains`, `Session.Explained` — histories are right about profiles
* `Session.Step.Leaves` — what a step does not touch

## Main results

* `Session.get?_advance` — the profiles after a step
* `Session.Explained.advance`, `Session.Explained.run` — a step and a run keep histories right
* `Session.exists_get?_advance` — what one step leaves alone
* `Session.history_of_run` — runs in which no profile comes from outside
-/

namespace ImsCall

private theorem toOption_eq_some_iff {ε α : Type} {x : Except ε α} {a : α} :
    x.toOption = some a ↔ x = .ok a := by
  cases x <;> simp [Except.toOption]

namespace Session

/-! ### What a step makes -/

/-- The name that a step makes a profile for. -/
def Step.target? : Step → Option String
  | .create name _ _ => some name
  | .reset name => some name
  | .copy name _ => some name
  | .change name _ => some name
  | .updateCallType name _ => some name
  | .updateExtras name _ => some name
  | .receive name _ _ => some name
  | .transfer name _ _ _ => some name
  | .configure _ => none

/-- The profile that a step makes; nothing, if it fails or has nothing to work on. -/
def makes? (s : Session) : Step → Option Profile
  | .create _ service call => some (.new service call)
  | .reset _ => some {}
  | .copy _ source => s.get? source
  | .change name change => (s.get? name).map fun p => (p.change change).value
  | .updateCallType name source => do return (← s.get? name).updateCallType (← s.get? source)
  | .updateExtras name source => do return (← s.get? name).updateExtras (← s.get? source)
  | .receive _ codec data => (codec.read data).toOption
  | .transfer _ source codec receiver => do
    let data ← (codec.encode (← s.get? source)).value.toOption
    (receiver.read data).toOption
  | .configure _ => none

theorem value_advance (s : Session) (t : Step) : (s.advance t).value =
    match (s.step t).value with
    | .ok next => next
    | .error _ => s := by
  rw [advance, Logged.value_bind]
  cases (s.step t).value <;> rfl

/-- **A step gives its target the profile it makes**, and touches no other profile. -/
theorem get?_advance (s : Session) (t : Step) (k : String) : (s.advance t).value.get? k =
    if t.target? = some k then (s.makes? t).or (s.get? k) else s.get? k := by
  rw [value_advance]
  cases t with
  | create name service call => simp [step, makes?, Step.target?, eq_comm]
  | reset name => simp [step, makes?, Step.target?, eq_comm]
  | copy name source =>
    cases hp : s.get? source <;> simp [step, makes?, Step.target?, hp, eq_comm]
  | change name change =>
    cases hp : s.get? name <;> simp [step, makes?, Step.target?, hp, eq_comm]
  | updateCallType name source =>
    cases hp : s.get? name <;> cases hq : s.get? source <;>
      simp [step, makes?, Step.target?, hp, hq, eq_comm]
  | updateExtras name source =>
    cases hp : s.get? name <;> cases hq : s.get? source <;>
      simp [step, makes?, Step.target?, hp, hq, eq_comm]
  | receive name codec data =>
    cases hp : codec.read data <;>
      simp [step, putResult, makes?, Step.target?, hp, Except.toOption, eq_comm]
  | transfer name source codec receiver =>
    cases hp : s.get? source with
    | none => simp [step, makes?, Step.target?, hp]
    | some p =>
      cases hb : (codec.encode p).value with
      | error fault => simp [step, makes?, Step.target?, hp, hb, Except.toOption]
      | ok b =>
        cases hq : receiver.read b <;>
          simp [step, putResult, makes?, Step.target?, hp, hb, hq, Except.toOption, eq_comm]
  | configure settings =>
    cases hc : Codec.ofSettings settings <;> simp [step, Step.target?, hc, get?]

/-! ### Histories -/

/-- The profile whose history goes on with what a step makes. -/
def Step.origin? : Step → Option String
  | .create .. => none
  | .reset _ => none
  | .copy _ source => some source
  | .change name _ => some name
  | .updateCallType name _ => some name
  | .updateExtras name _ => some name
  | .receive .. => none
  | .transfer _ source _ _ => some source
  | .configure _ => none

/-- The histories after a step. -/
def note (s : Session) (histories : String → List Step) (t : Step) (name : String) : List Step :=
  if t.target? = some name ∧ (s.makes? t).isSome then t :: t.origin?.elim [] histories
  else histories name

/-- The histories after several steps. -/
def histories (s : Session) (earlier : String → List Step) : List Step → String → List Step
  | [] => earlier
  | t :: ts => (s.advance t).value.histories (s.note earlier t) ts

/-- The history of a profile in a session, if the profiles the session started with have none. -/
def history (s : Session) (steps : List Step) (name : String) : List Step :=
  s.histories (fun _ => []) steps name

/-- Whether a step settles if there is a bag. -/
def Step.settlesExtras : Step → Bool
  | .create .. => true
  | .reset _ => true
  | .change _ (.setExtras _) => true
  | .change _ .takeExtras => true
  | .updateExtras .. => true
  | .receive .. => true
  | _ => false

/-- Whether there is no bag once a step has settled it. -/
def Step.leavesNoExtras : Step → Bool
  | .change _ .takeExtras => true
  | .receive _ codec data => (codec.read data).toOption.any (·.extras.isNone)
  | _ => false

/-- Whether what a step makes was constructed or decoded by it. -/
def Step.constructs : Step → Bool
  | .create .. => true
  | .reset _ => true
  | .receive .. => true
  | .transfer .. => true
  | _ => false

/-- The restrict cause that a step gives. -/
def Step.cause? : Step → Option RestrictCause
  | .change _ (.restrict cause) => some cause
  | _ => none

/-- By its history, a profile has no bag. -/
def withoutExtras (history : List Step) : Bool :=
  (history.find? Step.settlesExtras).any Step.leavesNoExtras

/-- The restrict cause that was given last since the profile was constructed or decoded. -/
def lastCause (history : List Step) : RestrictCause :=
  ((history.takeWhile fun t => !t.constructs).findSome? Step.cause?).getD .none

/-- A history is right about a profile. -/
structure Explains (history : List Step) (p : Profile) : Prop where
  extras : p.extras.isNone = withoutExtras history
  restrictCause : p.restrictCause = lastCause history

/-- Histories are right about all profiles of a session. -/
def Explained (s : Session) (histories : String → List Step) : Prop :=
  ∀ name p, s.get? name = some p → Explains (histories name) p

@[simp] theorem withoutExtras_cons (t : Step) (history : List Step) :
    withoutExtras (t :: history) =
      if t.settlesExtras then t.leavesNoExtras else withoutExtras history := by
  cases h : t.settlesExtras <;> simp [withoutExtras, h]

/-! ### One step -/

variable {s : Session} {earlier : String → List Step} {t : Step} {p q : Profile} {name : String}

/-- What a step makes is explained if what the session held before was. -/
theorem explains_of_makes? (explained : s.Explained earlier) (makes : s.makes? t = some q) :
    Explains (t :: t.origin?.elim [] earlier) q := by
  cases t with
  | create name service call =>
    obtain rfl := Option.some.inj makes
    exact ⟨rfl, rfl⟩
  | reset name =>
    obtain rfl := Option.some.inj makes
    exact ⟨rfl, rfl⟩
  | copy name source =>
    obtain ⟨extras, cause⟩ := explained source q makes
    exact ⟨extras, cause⟩
  | change name change =>
    obtain ⟨p, held, rfl⟩ := Option.map_eq_some_iff.mp makes
    obtain ⟨extras, cause⟩ := explained name p held
    cases change with
    | restrict given => exact ⟨extras, rfl⟩
    | setMedia media => exact ⟨extras, cause⟩
    | setExtras e => exact ⟨rfl, cause⟩
    | takeExtras => exact ⟨rfl, cause⟩
    | edit edit =>
      rw [Profile.value_change_edit]
      exact ⟨Option.isNone_map.trans extras, cause⟩
  | updateCallType name source =>
    simp only [makes?, Option.bind_eq_bind, Option.bind_eq_some_iff] at makes
    obtain ⟨p, held, other, -, made⟩ := makes
    obtain rfl := Option.some.inj made
    obtain ⟨extras, cause⟩ := explained name p held
    exact ⟨extras, cause⟩
  | updateExtras name source =>
    simp only [makes?, Option.bind_eq_bind, Option.bind_eq_some_iff] at makes
    obtain ⟨p, held, other, -, made⟩ := makes
    obtain rfl := Option.some.inj made
    exact ⟨rfl, (explained name p held).restrictCause⟩
  | receive name codec data =>
    have read := toOption_eq_some_iff.mp makes
    refine ⟨?_, Codec.restrictCause_of_read read⟩
    simp [Step.settlesExtras, Step.leavesNoExtras, read, Except.toOption]
  | transfer name source codec receiver =>
    simp only [makes?, Option.bind_eq_bind, Option.bind_eq_some_iff] at makes
    obtain ⟨p, held, b, sent, accepted⟩ := makes
    obtain ⟨extras, -⟩ := explained source p held
    obtain rfl := Codec.read_of_encode (toOption_eq_some_iff.mp sent)
      (toOption_eq_some_iff.mp accepted)
    exact ⟨Option.isNone_map.trans extras, rfl⟩
  | configure settings => simp [makes?] at makes

/-- A step keeps histories right. -/
theorem Explained.advance (explained : s.Explained earlier) (t : Step) :
    (s.advance t).value.Explained (s.note earlier t) := by
  intro name p held
  rw [get?_advance] at held
  rw [note]
  by_cases target : t.target? = some name
  · rw [if_pos target] at held
    cases makes : s.makes? t with
    | none =>
      rw [makes, Option.none_or] at held
      simpa using explained name p held
    | some q =>
      rw [makes, Option.some_or] at held
      obtain rfl := Option.some.inj held
      simpa [target] using explains_of_makes? explained makes
  · rw [if_neg target] at held
    simpa [target] using explained name p held

/-! ### Runs -/

theorem value_run_cons (s : Session) (t : Step) (ts : List Step) :
    (s.run (t :: ts)).value = ((s.advance t).value.run ts).value := rfl

/-- **A run keeps histories right.** -/
theorem Explained.run (steps : List Step) {s : Session} {earlier : String → List Step}
    (explained : s.Explained earlier) :
    (s.run steps).value.Explained (s.histories earlier steps) := by
  induction steps generalizing s earlier with
  | nil => exact explained
  | cons t ts ih =>
    rw [value_run_cons]
    exact ih (explained.advance t)

/-- A session without profiles has nothing to explain. -/
theorem explained_empty (codec : Codec) : Explained { codec } fun _ => [] := by
  simp [Explained, get?]

/-- A step enters histories itself, with what they already held. -/
theorem mem_note {x : Step} (h : x ∈ s.note earlier t name) :
    x = t ∨ ∃ k, x ∈ earlier k := by
  unfold note at h
  split at h
  · rcases List.mem_cons.mp h with rfl | h
    · exact .inl rfl
    · cases origin : t.origin? with
      | none => simp [origin] at h
      | some k => exact .inr ⟨k, by simpa [origin] using h⟩
  · exact .inr ⟨name, h⟩

theorem mem_histories (steps : List Step) {s : Session} {earlier : String → List Step} {x : Step}
    (h : x ∈ s.histories earlier steps name) : x ∈ steps ∨ ∃ k, x ∈ earlier k := by
  induction steps generalizing s earlier with
  | nil => exact .inr ⟨name, h⟩
  | cons t ts ih =>
    rcases ih h with later | ⟨k, noted⟩
    · exact .inl (List.mem_cons_of_mem t later)
    · refine (mem_note noted).imp_left ?_
      rintro rfl
      exact List.mem_cons_self

/-! ### What a step leaves alone -/

/-- Whether a step gives its target a call type. -/
def Step.givesCallType : Step → Bool
  | .create .. => true
  | .reset _ => true
  | .copy .. => true
  | .updateCallType .. => true
  | .receive .. => true
  | .transfer .. => true
  | _ => false

/-- Whether a step works on nothing but the bag. -/
def Step.onlyExtras : Step → Bool
  | .change _ (.setExtras _) => true
  | .change _ .takeExtras => true
  | .change _ (.edit _) => true
  | .updateExtras .. => true
  | _ => false

/-- A step that a profile `p` comes out of as `q` leaves alone what it is not about. -/
structure Step.Leaves (t : Step) (p q : Profile) : Prop where
  call : t.givesCallType = false → q.call = p.call
  /-- Work on the bag leaves all other parts as they were. -/
  rest : t.onlyExtras = true → q = { p with extras := q.extras }

theorem leaves_of_makes? (held : s.get? name = some p) (target : t.target? = some name)
    (makes : s.makes? t = some q) : t.Leaves p q := by
  cases t with
  | change other change =>
    obtain rfl := Option.some.inj target
    rw [makes?, held, Option.map_some] at makes
    obtain rfl := Option.some.inj makes
    cases change with
    | restrict cause => exact ⟨fun _ => rfl, nofun⟩
    | setMedia media => exact ⟨fun _ => rfl, nofun⟩
    | setExtras e => exact ⟨fun _ => rfl, fun _ => rfl⟩
    | takeExtras => exact ⟨fun _ => rfl, fun _ => rfl⟩
    | edit edit =>
      rw [Profile.value_change_edit]
      exact ⟨fun _ => rfl, fun _ => rfl⟩
  | updateExtras other source =>
    obtain rfl := Option.some.inj target
    simp only [makes?, held, Option.bind_eq_bind, Option.bind_some,
      Option.bind_eq_some_iff] at makes
    obtain ⟨source, -, made⟩ := makes
    obtain rfl := Option.some.inj made
    exact ⟨fun _ => rfl, fun _ => rfl⟩
  | configure settings => simp [makes?] at makes
  | create | reset | copy | updateCallType | receive | transfer => exact ⟨nofun, nofun⟩

/-- **A step keeps every profile**: others than its target as they are, and its target but for
what the step is about. -/
theorem exists_get?_advance (held : s.get? name = some p) (t : Step) :
    ∃ q, (s.advance t).value.get? name = some q ∧ (t.target? ≠ some name → q = p) ∧
      t.Leaves p q := by
  have unmoved : t.Leaves p p := ⟨fun _ => rfl, fun _ => rfl⟩
  rw [get?_advance]
  by_cases target : t.target? = some name
  · rw [if_pos target]
    cases makes : s.makes? t with
    | none => exact ⟨p, held, fun _ => rfl, unmoved⟩
    | some q => exact ⟨q, rfl, fun other => absurd target other, leaves_of_makes? held target makes⟩
  · rw [if_neg target]
    exact ⟨p, held, fun _ => rfl, unmoved⟩

/-! ### Sessions of their own -/

/-- Whether a step brings in a profile from outside. -/
def Step.receives : Step → Bool
  | .receive .. => true
  | _ => false

/-- A step that settles it and leaves no bag took it out, unless the profile came from outside. -/
theorem Step.eq_takeExtras_of_leavesNoExtras (leaves : t.leavesNoExtras = true)
    (own : t.receives = false) : ∃ taker, t = .change taker .takeExtras := by
  cases t with
  | change taker change => cases change <;> simp_all [leavesNoExtras]
  | receive => simp [receives] at own
  | _ => simp [leavesNoExtras] at leaves

theorem withoutExtras_iff_of_own {history : List Step}
    (own : ∀ t ∈ history, t.receives = false) : withoutExtras history = true ↔
      ∃ taker, history.find? Step.settlesExtras = some (.change taker .takeExtras) := by
  rw [withoutExtras, Option.any_eq_true]
  constructor
  · rintro ⟨t, last, leaves⟩
    obtain ⟨taker, rfl⟩ :=
      Step.eq_takeExtras_of_leavesNoExtras leaves (own t (List.mem_of_find?_eq_some last))
    exact ⟨taker, last⟩
  · rintro ⟨taker, last⟩
    exact ⟨_, last, rfl⟩

/-- **Histories account for bags and restrict causes.** In a run that brings in no profile from
outside, a bag is absent exactly if the last step of the profile's history that settles it took the
bag out, and the restrict cause is the last one that was given since the profile was constructed or
decoded. In any session a step keeps the profiles of other names as they are, and leaves alone what
it is not about. -/
theorem history_of_run (codec : Codec) (steps : List Step)
    (own : ∀ t ∈ steps, t.receives = false) :
    (∀ name p, (Session.run { codec } steps).value.get? name = some p →
      (∀ t ∈ Session.history { codec } steps name, t ∈ steps) ∧
      (p.extras = none ↔ ∃ taker, (Session.history { codec } steps name).find?
        Step.settlesExtras = some (.change taker .takeExtras)) ∧
      p.restrictCause = lastCause (Session.history { codec } steps name)) ∧
    ∀ s t name p, Session.get? s name = some p →
      ∃ q, (s.advance t).value.get? name = some q ∧ (t.target? ≠ some name → q = p) ∧
        t.Leaves p q := by
  constructor
  · intro name p held
    have within : ∀ t ∈ Session.history { codec } steps name, t ∈ steps := by
      intro t ht
      simpa using mem_histories steps ht
    have explained : Explains (Session.history { codec } steps name) p :=
      (explained_empty codec).run steps name p held
    refine ⟨within, ?_, explained.restrictCause⟩
    rw [← Option.isNone_iff_eq_none, explained.extras]
    exact withoutExtras_iff_of_own fun t ht => own t (within t ht)
  · intro s t name p held
    exact exists_get?_advance held t

/-- A run in which a profile without its bag is copied and sent on. -/
def errand : List Step :=
  [.create "a" .normal .voice, .change "a" (.restrict .rat), .change "a" .takeExtras,
    .copy "b" "a", .change "b" (.edit (.insert "k" (.bool true))), .updateExtras "a" "a",
    .transfer "c" "b" default]

theorem history_of_run_errand :
    (∀ t ∈ errand, t.receives = false) ∧
      ∃ p, (Session.run {} errand).value.get? "c" = some p ∧
        (p.extras = none ∧ ∃ taker, (Session.history {} errand "c").find?
          Step.settlesExtras = some (.change taker .takeExtras)) ∧
        p.restrictCause = lastCause (Session.history {} errand "c") := by
  have own : ∀ t ∈ errand, t.receives = false := by simp [errand, Step.receives]
  have held : (Session.run {} errand).value.get? "c" =
      some { call := .voice, extras := none } := by rfl
  obtain ⟨-, absent, cause⟩ := (history_of_run {} errand own).1 "c" _ held
  exact ⟨own, _, held, ⟨rfl, absent.mp rfl⟩, cause⟩

end Session

end ImsCall
