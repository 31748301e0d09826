import ImsCall.Proofs.Extras.Strip

/-!
# Paths into nested bags

A bag is known by its answers, and where an answer is a bag again, by the answers of that one. So
what there is to know of a bag are the values at the ends of *paths*: lists of keys, each of which
is looked up in the bag that the keys before it lead to.

Two relations between bags are stated by paths, and with them neither says how bags are built or
recursed into. Bags are *alike* if every path leads to alike answers in both, where of two nested
bags only that they are bags is compared, as longer paths lead into them. A bag *keeps* the
approved objects of another one if every path leads to what was there, except that objects of
other types are gone.

## Main definitions

* `Value.at?`, `Extras.at?` — the value at the end of a path
* `Extras.Alike` — the same answers at the end of every path
* `Extras.Keeps` — the same answers, without the objects that are not approved

## Main results

* `Extras.get?_strip`, `Extras.at?_strip` — what stripping leaves at the end of a path
* `Extras.Alike.eq` — bags that are alike are equal
* `Extras.keeps_foldl_strip` — stripping under several policies keeps what all of them approve
-/

namespace ImsCall

/-- The value that a path of keys leads to; nothing, if it leads out of the nested bags. -/
def Value.at? (v : Value) : List String → Option Value
  | [] => some v
  | key :: path => v.bundle?.bind fun bag => (bag.get? key).bind fun inner => inner.at? path

/-- The value that a path of keys leads to in a bag. The empty path leads to the bag itself. -/
def Extras.at? (e : Extras) (path : List String) : Option Value := (Value.bundle e).at? path

/-! ### Looking up -/

@[simp] theorem Value.at?_nil (v : Value) : v.at? [] = some v := rfl

theorem Value.at?_cons_of_plain {v : Value} (isPlain : v.bundle? = none) (key : String)
    (path : List String) : v.at? (key :: path) = none := by
  rw [at?, isPlain, Option.bind_none]

namespace Extras

@[simp] theorem at?_cons (e : Extras) (key : String) (path : List String) :
    e.at? (key :: path) = (e.get? key).bind fun inner => inner.at? path := rfl

/-- A path of one key is that key. -/
theorem at?_singleton (e : Extras) (key : String) : e.at? [key] = e.get? key :=
  Option.bind_fun_some _

/-- Induction over nested bags: a bag is settled once the bags that it answers with are. -/
theorem answerInduction {motive : Extras → Prop}
    (h : ∀ e : Extras, (∀ key bag, e.get? key = some (.bundle bag) → motive bag) → motive e)
    (e : Extras) : motive e := by
  apply h
  refine Entries.nestedInduction
    (motive := fun _ e => ∀ key bag, e.get? key = some (.bundle bag) → motive bag) ?nil ?cons e
  case nil => exact fun _ _ found => nomatch found
  case cons =>
    intro low key above value rest inner ih k bag found
    rw [Entries.get?] at found
    split at found
    · obtain rfl := Option.some.inj found
      exact h bag (inner bag rfl)
    · exact ih k bag found

end Extras

/-! ### Stripping -/

variable {p : Policy} {low : Option String}

/-- Stripping a bag strips every answer. -/
theorem Entries.get?_strip (p : Policy) (e : Entries low) :
    ∀ k, (e.strip p).get? k = (e.get? k).bind fun v => v.strip? p := by
  induction e using Entries.strip_induction p with
  | nil => exact fun _ => rfl
  | bundle key above bag rest inner ih =>
    intro k
    rw [get?, get?]
    by_cases hk : k = key
    · rw [if_pos hk, if_pos hk, Option.bind_some, Value.strip?_bundle]
      rfl
    · rw [if_neg hk, if_neg hk, ih]
  | keep key above value rest isPlain safe ih =>
    intro k
    rw [get?, get?]
    by_cases hk : k = key
    · rw [if_pos hk, if_pos hk, Option.bind_some, Value.strip?_of_plain isPlain, if_pos safe]
    · rw [if_neg hk, if_neg hk, ih]
  | drop key above value rest isPlain bad ih =>
    intro k
    rw [get?_weaken, ih, get?]
    by_cases hk : k = key
    · subst hk
      rw [if_pos rfl, get?_eq_none rest (String.lt_irrefl k), Option.bind_some,
        Value.strip?_of_plain isPlain, bad]
      rfl
    · rw [if_neg hk]

theorem Extras.get?_strip (e : Extras) (p : Policy) (k : String) :
    (e.strip p).get? k = (e.get? k).bind fun v => v.strip? p :=
  Entries.get?_strip p e k

/-- Stripping before following a path is stripping what is found at its end: bags stay where they
are, and nothing is below an object. -/
theorem Value.bind_at?_strip? (p : Policy) (path : List String) (v : Value) :
    ((v.strip? p).bind fun kept => kept.at? path) = (v.at? path).bind fun found =>
      found.strip? p := by
  induction path generalizing v with
  | nil =>
    rw [at?_nil, Option.bind_some]
    exact Option.bind_fun_some _
  | cons key path ih =>
    rcases v.plain_or_bundle with isPlain | ⟨bag, rfl⟩
    · rw [at?_cons_of_plain isPlain, strip?_of_plain isPlain, Option.bind_none]
      split
      · rw [Option.bind_some, at?_cons_of_plain isPlain]
      · rfl
    · have inner : (Extras.strip bag p).at? (key :: path) =
          ((bag.get? key).bind fun v => v.at? path).bind fun found => found.strip? p := by
        rw [Extras.at?_cons, Extras.get?_strip, Option.bind_assoc, Option.bind_assoc]
        exact congrArg _ (funext ih)
      exact inner

theorem Extras.at?_strip (e : Extras) (p : Policy) (path : List String) :
    (e.strip p).at? path = (e.at? path).bind fun found => found.strip? p :=
  Value.bind_at?_strip? p path (.bundle e)

/-! ### Alike bags -/

/-- Two answers are alike if they are the same, or both of them are bags. -/
inductive Value.AlikeAnswers : Option Value → Option Value → Prop
  | same (answer : Option Value) : AlikeAnswers answer answer
  | bundles (a b : Extras) : AlikeAnswers (some (.bundle a)) (some (.bundle b))

namespace Extras

/-- Two bags are alike if every path leads to alike answers. -/
def Alike (a b : Extras) : Prop := ∀ path, Value.AlikeAnswers (a.at? path) (b.at? path)

theorem Alike.refl (e : Extras) : e.Alike e := fun path => .same (e.at? path)

/-- Nested bags under the same key of alike bags are alike. -/
theorem Alike.inner {a b x y : Extras} (h : a.Alike b) {key : String}
    (ha : a.get? key = some (.bundle x)) (hb : b.get? key = some (.bundle y)) : x.Alike y := by
  intro path
  have below := h (key :: path)
  rw [at?_cons, at?_cons, ha, hb] at below
  exact below

/-- **Bags that are alike are equal**, as nothing but its answers is kept of a bag. -/
theorem Alike.eq {a b : Extras} (h : a.Alike b) : a = b := by
  induction a using answerInduction generalizing b with
  | h a ih =>
    apply ext_get?
    intro key
    have here := h [key]
    rw [at?_singleton, at?_singleton] at here
    generalize ha : a.get? key = x at here
    generalize hb : b.get? key = y at here
    cases here with
    | same => rfl
    | bundles x y => rw [ih key x ha (h.inner ha hb)]

/-- Bags that may be absent are alike if they are equal. -/
theorem rel_alike_iff_eq {a b : Option Extras} : Option.Rel Alike a b ↔ a = b := by
  constructor
  · rintro (alike | -)
    · rw [alike.eq]
    · rfl
  · rintro rfl
    cases a with
    | none => exact .none
    | some e => exact .some (Alike.refl e)

end Extras

/-! ### What is kept -/

/-- What is found in place of an answer when of all objects those of approved types are kept. -/
inductive Value.Kept (approved : String → Prop) : Option Value → Option Value → Prop
  | nothing : Kept approved none none
  | plain (v : Value) : v.bundle? = none → v.object? = none → Kept approved (some v) (some v)
  | bundle (a b : Extras) : Kept approved (some (.bundle a)) (some (.bundle b))
  | object (o : OpaqueObject) : approved o.typeName →
      Kept approved (some (.object o)) (some (.object o))
  | dropped (o : OpaqueObject) : ¬ approved o.typeName → Kept approved (some (.object o)) none

namespace Value

variable {approved : String → Prop} {x y z : Option Value}

/-- A value is a bag, an object, or neither. -/
theorem bundle_or_object_or_plain (v : Value) :
    (∃ bag, v = .bundle bag) ∨ (∃ o, v = .object o) ∨ (v.bundle? = none ∧ v.object? = none) := by
  cases v with
  | bundle bag => exact .inl ⟨bag, rfl⟩
  | object o => exact .inr (.inl ⟨o, rfl⟩)
  | _ => exact .inr (.inr ⟨rfl, rfl⟩)

theorem strip?_of_no_object {v : Value} (isPlain : v.bundle? = none) (noObject : v.object? = none) :
    v.strip? p = some v := by
  cases v with
  | bundle => cases isPlain
  | object => cases noObject
  | _ => rfl

theorem strip?_object (o : OpaqueObject) :
    (Value.object o).strip? p = if p.approves o.typeName then some (.object o) else none := rfl

/-- If all types are approved, an answer may stay as it is. -/
theorem Kept.self (all : ∀ name, approved name) (answer : Option Value) :
    Kept approved answer answer := by
  cases answer with
  | none => exact .nothing
  | some v =>
    rcases v.bundle_or_object_or_plain with ⟨bag, rfl⟩ | ⟨o, rfl⟩ | ⟨isPlain, noObject⟩
    · exact .bundle bag bag
    · exact .object o (all o.typeName)
    · exact .plain v isPlain noObject

/-- Stripping what is kept leaves what the policy approves, too. -/
theorem Kept.strip? (h : Kept approved x y) (p : Policy) :
    Kept (fun name => approved name ∧ p.approves name = true) x (y.bind fun v => v.strip? p) := by
  cases h with
  | nothing => exact .nothing
  | plain v isPlain noObject =>
    rw [Option.bind_some, strip?_of_no_object isPlain noObject]
    exact .plain v isPlain noObject
  | bundle a b => exact .bundle a (b.strip p)
  | object o ok =>
    rw [Option.bind_some, strip?_object]
    split
    · next approves => exact .object o ⟨ok, approves⟩
    · next refuses => exact .dropped o fun both => refuses both.2
  | dropped o refused => exact .dropped o fun both => refused both.1

/-- What is kept of an answer is settled but for the content of a bag. -/
theorem Kept.alikeAnswers (hy : Kept approved x y) (hz : Kept approved x z) :
    AlikeAnswers y z := by
  cases hy with
  | nothing => cases hz; exact .same _
  | plain v isPlain noObject =>
    cases hz with
    | plain => exact .same _
    | bundle => cases isPlain
    | object => cases noObject
    | dropped => cases noObject
  | bundle a b =>
    cases hz with
    | plain _ isPlain => cases isPlain
    | bundle a c => exact .bundles b c
  | object o ok =>
    cases hz with
    | plain => exact .same _
    | object => exact .same _
    | dropped _ refused => exact absurd ok refused
  | dropped o refused =>
    cases hz with
    | plain _ _ noObject => cases noObject
    | object _ ok => exact absurd ok refused
    | dropped => exact .same _

end Value

namespace Extras

variable {approved : String → Prop} {e kept : Extras}

/-- A bag keeps of another one the objects of approved types and everything that is no object, at
every depth, and it holds nothing else. -/
def Keeps (approved : String → Prop) (e kept : Extras) : Prop :=
  ∀ path, Value.Kept approved (e.at? path) (kept.at? path)

/-- What is kept of a bag depends on the bag and the approved types only. -/
theorem Keeps.unique {a b : Extras} (ha : e.Keeps approved a) (hb : e.Keeps approved b) : a = b :=
  Alike.eq fun path => (ha path).alikeAnswers (hb path)

theorem Keeps.congr {approves : String → Prop} (h : e.Keeps approved kept)
    (iff : ∀ name, approved name ↔ approves name) : e.Keeps approves kept :=
  (funext fun name => propext (iff name) : approved = approves) ▸ h

theorem Keeps.strip (h : e.Keeps approved kept) (p : Policy) :
    e.Keeps (fun name => approved name ∧ p.approves name = true) (kept.strip p) := by
  intro path
  rw [at?_strip]
  exact (h path).strip? p

theorem Keeps.foldl_strip (ps : List Policy) (h : e.Keeps approved kept) :
    e.Keeps (fun name => approved name ∧ ∀ p ∈ ps, p.approves name = true)
      (ps.foldl Extras.strip kept) := by
  induction ps generalizing approved kept with
  | nil => exact h.congr fun name => by simp
  | cons p ps ih =>
    refine (ih (h.strip p)).congr fun name => ?_
    rw [List.forall_mem_cons, and_assoc]

/-- **Stripping under several policies**, one after the other, keeps the objects that all of them
approve. -/
theorem keeps_foldl_strip (ps : List Policy) (e : Extras) :
    e.Keeps (fun name => ∀ p ∈ ps, p.approves name = true) (ps.foldl Extras.strip e) := by
  have self : e.Keeps (fun _ => True) e := fun path => .self (fun _ => trivial) (e.at? path)
  exact (self.foldl_strip ps).congr fun name => iff_of_eq (true_and _)

end Extras

end ImsCall
