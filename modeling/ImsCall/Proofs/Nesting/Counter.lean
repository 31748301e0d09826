import Mathlib
import ImsCall.Extras.Basic

/-!
# A counter of open bags

A reader that recurses through code it does not control cannot hand down how many levels bags may
still nest. It can keep a counter instead: a guard raises the counter before a bag is read, unless
the limit is reached, and lowers it when the reading ends, with a bag or with an error. The counter
outlives the reading, so an end that did not lower it would shrink the limit for everything that is
read later.

Such readers are compared with plain ones that are told the level. Beside the counter stands a record
of its moves, each with the count that the move found; no reader looks at it. With it the comparison
says more than that the counter is the same at the end. The moves are *balanced*: between the opening
of a bag and its closing stand the moves of bags one level deeper, so every bag that is opened is
closed, at the count that its opening left.

## Implementation notes

A counted reader recurses in rounds, so that it is a plain definition. The counter makes the number
of rounds irrelevant once it exceeds the levels that are left, which is why readers are compared in
pairs: `Agree` relates two counted readers, with the same moves, and a plain one.

## Main definitions

* `Nesting.Counter`, `Nesting.Counted` — the counter with its record, and readers beside it
* `Nesting.guarded` — reading under the guard
* `Nesting.Balanced`, `Nesting.Move.Within` — moves that fit together, and ones that keep to the limit
* `Nesting.Settles` — how a reader ends, and what it did to the counter

## Main results

* `Nesting.Balanced.within` — balanced moves keep to the limit
* `Nesting.Agree.bind`, `Nesting.Agree.guarded` — sequences and guards
* `Nesting.Mirrors.counted_eq`, `Nesting.Mirrors.settles` — the recursion through the guard
-/

namespace ImsCall

namespace Nesting

open Extras (maxDepth)

/-- A move of the counter, with the count that it finds. -/
inductive Move where
  /-- The counter is raised. -/
  | opened (count : Nat)
  /-- A bag is refused, and the counter stays. -/
  | refused (count : Nat)
  /-- The counter is lowered. -/
  | closed (count : Nat)
  deriving DecidableEq, Repr

/-- The number of open bags, and the moves that led to it. -/
structure Counter where
  count : Nat
  moves : List Move := []

/-- The counter after a move, which it records. -/
def Counter.after (c : Counter) (m : Move) (count : Nat) : Counter := ⟨count, c.moves ++ [m]⟩

/-- A computation beside the counter. An error leaves the counter as it is. -/
abbrev Counted (ε : Type) := ExceptT ε (StateM Counter)

variable {ε α β ι : Type} {refusal : ε} {d : Nat}

/-! ### The guard -/

/-- Raises the counter, unless that would pass the limit. -/
def enter (refusal : ε) : Counted ε Unit := do
  let c ← get
  if maxDepth < c.count + 1 then
    set (c.after (.refused c.count) c.count)
    throw refusal
  else set (c.after (.opened c.count) (c.count + 1))

/-- Lowers the counter, unless it is zero. -/
def leave : Counted ε Unit := modify fun c => c.after (.closed c.count) (c.count - 1)

/-- Reads under the guard, which is left in any case. -/
def guarded (refusal : ε) (x : Counted ε α) : Counted ε α := do
  enter refusal
  try x finally leave

/-- A recursion through the guard, for so many rounds. -/
def recurse (refusal : ε) (body : (ι → Counted ε α) → ι → Counted ε α) : Nat → ι → Counted ε α
  | 0, _ => throw refusal
  | rounds + 1, i => guarded refusal (body (recurse refusal body rounds) i)

/-- The recursion through the guard. One bag more than may be open is enough, as that one is
refused. -/
def counted (refusal : ε) (body : (ι → Counted ε α) → ι → Counted ε α) : ι → Counted ε α :=
  recurse refusal body (maxDepth + 1)

theorem run_bind (x : Counted ε α) (f : α → Counted ε β) (c : Counter) :
    (x >>= f).run.run c = match x.run.run c with
      | (.ok a, c) => (f a).run.run c
      | (.error e, c) => (.error e, c) := by
  rw [ExceptT.run_bind, StateT.run_bind]
  rcases x.run.run c with ⟨_ | _, c⟩ <;> rfl

/-- Leaving takes place after an error as well, and does not change the outcome. -/
theorem run_finally_leave (x : Counted ε α) (c : Counter) :
    (try x finally leave : Counted ε α).run.run c =
      ((x.run.run c).1, (x.run.run c).2.after (.closed (x.run.run c).2.count)
        ((x.run.run c).2.count - 1)) := by
  show (try x finally leave : Counted ε α).run.run c = ((x c).1, _)
  rcases ends : x c with ⟨_ | _, c⟩ <;>
  · simp only [tryFinally, tryFinally', bind, StateT.bind, ExceptT.mk, ExceptT.run, StateT.run,
      Functor.map, ExceptT.map, ends]
    rfl

theorem run_guarded_of_lt (refusal : ε) {x : Counted ε α} {c last : Counter}
    {outcome : Except ε α} (below : c.count < maxDepth)
    (h : x.run.run (c.after (.opened c.count) (c.count + 1)) = (outcome, last)) :
    (guarded refusal x).run.run c = (outcome, last.after (.closed last.count) (last.count - 1)) := by
  have entered : (enter refusal).run.run c = (.ok (), c.after (.opened c.count) (c.count + 1)) := by
    show (if maxDepth < c.count + 1 then _ else _ : Counted ε Unit) c = _
    rw [if_neg (by omega)]
    rfl
  rw [guarded, run_bind, entered]
  show (try x finally leave : Counted ε α).run.run _ = _
  rw [run_finally_leave, h]

theorem run_guarded_of_le (x : Counted ε α) {c : Counter} (full : maxDepth ≤ c.count) :
    (guarded refusal x).run.run c = (.error refusal, c.after (.refused c.count) c.count) := by
  have refused : (enter refusal).run.run c =
      (.error refusal, c.after (.refused c.count) c.count) := by
    show (if maxDepth < c.count + 1 then _ else _ : Counted ε Unit) c = _
    rw [if_pos (by omega)]
    rfl
  rw [guarded, run_bind, refused]

/-! ### Balanced moves -/

/-- The moves of readers that find so many open bags and leave as many. -/
inductive Balanced : Nat → List Move → Prop
  | nil (d : Nat) : Balanced d []
  /-- At the limit a bag is refused. -/
  | refused {d : Nat} {moves : List Move} : d = maxDepth → Balanced d moves →
      Balanced d (.refused d :: moves)
  /-- A bag is opened below the limit, read with one more open bag, and closed. -/
  | bag {d : Nat} {inner moves : List Move} : d < maxDepth → Balanced (d + 1) inner →
      Balanced d moves → Balanced d (.opened d :: (inner ++ .closed (d + 1) :: moves))

/-- A move keeps to the limit: the counter is raised to the limit at most, a bag is refused at the
limit only, and the counter is not zero when it is lowered. -/
def Move.Within : Move → Prop
  | .opened n => n < maxDepth
  | .refused n => n = maxDepth
  | .closed n => 0 < n ∧ n ≤ maxDepth

theorem Balanced.append {first second : List Move} (h : Balanced d first)
    (h' : Balanced d second) : Balanced d (first ++ second) := by
  induction h with
  | nil => exact h'
  | refused full _ ih => exact .refused full (ih h')
  | bag below inner _ _ ih =>
    rw [List.cons_append, List.append_assoc, List.cons_append]
    exact .bag below inner (ih h')

/-- **Balanced moves keep to the limit.** -/
theorem Balanced.within {moves : List Move} (h : Balanced d moves) : ∀ m ∈ moves, m.Within := by
  induction h with
  | nil => exact fun _ mem => nomatch mem
  | refused full _ ih => exact List.forall_mem_cons.mpr ⟨full, ih⟩
  | bag below _ _ inner ih =>
    refine List.forall_mem_cons.mpr ⟨below, List.forall_mem_append.mpr ⟨inner, ?_⟩⟩
    exact List.forall_mem_cons.mpr ⟨⟨Nat.succ_pos _, below⟩, ih⟩

/-! ### How readers end -/

/-- How a reader ends that finds so many open bags. It leaves as many, whatever its outcome, and the
outcome is the refusal exactly if a bag was refused. -/
structure Settles (refusal : ε) (d : Nat) (x : Counted ε α) (outcome : Except ε α)
    (moves : List Move) : Prop where
  balanced : Balanced d moves
  refusal_iff : outcome = .error refusal ↔ ∃ n, Move.refused n ∈ moves
  run (before : List Move) : x.run.run ⟨d, before⟩ = (outcome, ⟨d, before ++ moves⟩)

/-- Two readers end alike, with the same moves. -/
def Agree (refusal : ε) (d : Nat) (x y : Counted ε α) (outcome : Except ε α) : Prop :=
  ∃ moves, Settles refusal d x outcome moves ∧ Settles refusal d y outcome moves

namespace Settles

variable {x : Counted ε α} {f : α → Counted ε β} {moves more : List Move}

/-- What opens no bags leaves the counter alone. -/
theorem ofExcept {outcome : Except ε α} (h : outcome ≠ .error refusal) :
    Settles refusal d (ofExcept outcome) outcome [] where
  balanced := .nil d
  refusal_iff := iff_of_false h fun ⟨_, mem⟩ => nomatch mem
  run before := by
    rw [List.append_nil]
    cases outcome <;> rfl

theorem bind_ok {a : α} {outcome : Except ε β} (h : Settles refusal d x (.ok a) moves)
    (h' : Settles refusal d (f a) outcome more) :
    Settles refusal d (x >>= f) outcome (moves ++ more) where
  balanced := h.balanced.append h'.balanced
  refusal_iff := by
    have none : ¬ ∃ n, Move.refused n ∈ moves := fun mem => nomatch h.refusal_iff.mpr mem
    rw [h'.refusal_iff]
    simp only [List.mem_append, exists_or, none, false_or]
  run before := by
    rw [run_bind, h.run]
    show (f a).run.run ⟨d, before ++ moves⟩ = _
    rw [h'.run, List.append_assoc]

theorem bind_error {e : ε} (h : Settles refusal d x (.error e) moves) :
    Settles refusal d (x >>= f) (.error e) moves where
  balanced := h.balanced
  refusal_iff := by
    rw [← h.refusal_iff, Except.error.injEq, Except.error.injEq]
  run before := by rw [run_bind, h.run]

/-- Errors may be renamed, as long as they are told apart. -/
theorem adapt {ε' : Type} {f : ε → ε'} (inj : Function.Injective f) {outcome : Except ε α}
    (h : Settles refusal d x outcome moves) :
    Settles (f refusal) d (ExceptT.adapt f x) (outcome.mapError f) moves where
  balanced := h.balanced
  refusal_iff := by
    rw [← h.refusal_iff]
    cases outcome with
    | ok a => exact iff_of_false nofun nofun
    | error e => exact ⟨fun same => congrArg _ (inj (Except.error.inj same)), fun same =>
        congrArg (Except.error ∘ f) (Except.error.inj same)⟩
  run before := by
    show ((x.run.run ⟨d, before⟩).1.mapError f, (x.run.run ⟨d, before⟩).2) = _
    rw [h.run]

/-- Under the guard a bag is opened and closed. -/
theorem guarded {outcome : Except ε α} (below : d < maxDepth)
    (h : Settles refusal (d + 1) x outcome moves) :
    Settles refusal d (guarded refusal x) outcome (.opened d :: (moves ++ [.closed (d + 1)])) where
  balanced := .bag below h.balanced (.nil d)
  refusal_iff := by
    rw [h.refusal_iff]
    simp
  run before := by
    have closed := run_guarded_of_lt (c := ⟨d, before⟩) refusal below (h.run _)
    simpa only [Counter.after, Nat.add_sub_cancel, List.append_assoc, List.cons_append,
      List.nil_append] using closed

/-- At the limit the guard refuses. -/
theorem guarded_of_full (x : Counted ε α) :
    Settles refusal maxDepth (Nesting.guarded refusal x) (.error refusal) [.refused maxDepth] where
  balanced := .refused rfl (.nil maxDepth)
  refusal_iff := iff_of_true rfl ⟨maxDepth, List.mem_singleton_self _⟩
  run _ := run_guarded_of_le x (Nat.le_refl maxDepth)

end Settles

namespace Agree

variable {x y : Counted ε α} {outcome : Except ε α}

theorem ofExcept (h : outcome ≠ .error refusal) :
    Agree refusal d (ofExcept outcome) (ofExcept outcome) outcome :=
  ⟨[], .ofExcept h, .ofExcept h⟩

theorem pure (a : α) : Agree refusal d (Pure.pure a) (Pure.pure a) (Pure.pure a) :=
  @ofExcept _ _ _ _ (.ok a) nofun

theorem throw {e : ε} (h : e ≠ refusal) :
    Agree refusal d (MonadExcept.throw e : Counted ε α) (MonadExcept.throw e) (.error e) :=
  @ofExcept _ _ _ _ (.error e) fun same => h (Except.error.inj same)

/-- Readers in sequence agree if their parts do. -/
theorem bind {f g : α → Counted ε β} {next : α → Except ε β} (h : Agree refusal d x y outcome)
    (h' : ∀ a, Agree refusal d (f a) (g a) (next a)) :
    Agree refusal d (x >>= f) (y >>= g) (outcome >>= next) := by
  obtain ⟨moves, hx, hy⟩ := h
  cases outcome with
  | error e => exact ⟨moves, hx.bind_error, hy.bind_error⟩
  | ok a =>
    obtain ⟨more, hf, hg⟩ := h' a
    exact ⟨moves ++ more, hx.bind_ok hf, hy.bind_ok hg⟩

theorem adapt {ε' : Type} {f : ε → ε'} (inj : Function.Injective f)
    (h : Agree refusal d x y outcome) :
    Agree (f refusal) d (ExceptT.adapt f x) (ExceptT.adapt f y) (outcome.mapError f) := by
  obtain ⟨moves, hx, hy⟩ := h
  exact ⟨moves, hx.adapt inj, hy.adapt inj⟩

theorem guarded (below : d < maxDepth) (h : Agree refusal (d + 1) x y outcome) :
    Agree refusal d (guarded refusal x) (guarded refusal y) outcome := by
  obtain ⟨moves, hx, hy⟩ := h
  exact ⟨_, hx.guarded below, hy.guarded below⟩

end Agree

/-! ### The recursion -/

/-- The recursion that a body makes through the guard mirrors a reader that is told how many levels
are left: without a level it refuses, and with one more level it is the body of readers that have
one less. -/
structure Mirrors (refusal : ε) (body : (ι → Counted ε α) → ι → Counted ε α)
    (plain : Nat → ι → Except ε α) : Prop where
  zero (i : ι) : plain 0 i = .error refusal
  succ {d levels : Nat} {bag bag' : ι → Counted ε α} :
    (∀ i, Agree refusal d (bag i) (bag' i) (plain levels i)) →
      ∀ i, Agree refusal d (body bag i) (body bag' i) (plain (levels + 1) i)

namespace Mirrors

variable {body : (ι → Counted ε α) → ι → Counted ε α} {plain : Nat → ι → Except ε α}

/-- **The number of rounds is irrelevant** once there are more than bags may still be opened. -/
theorem agree (h : Mirrors refusal body plain) (rounds rounds' : Nat) (bound : d ≤ maxDepth)
    (enough : maxDepth < rounds + d) (enough' : maxDepth < rounds' + d) (i : ι) :
    Agree refusal d (recurse refusal body rounds i) (recurse refusal body rounds' i)
      (plain (maxDepth - d) i) := by
  induction rounds generalizing rounds' d i with
  | zero => omega
  | succ rounds ih =>
    obtain ⟨rounds', rfl⟩ : ∃ n, rounds' = n + 1 := ⟨rounds' - 1, by omega⟩
    rw [recurse, recurse]
    rcases Nat.lt_or_eq_of_le bound with below | rfl
    · obtain ⟨levels, left⟩ : ∃ n, maxDepth - d = n + 1 := ⟨maxDepth - d - 1, by omega⟩
      have left' : maxDepth - (d + 1) = levels := by omega
      rw [left]
      refine .guarded below (h.succ (fun i => ?_) i)
      rw [← left']
      exact ih rounds' below (by omega) (by omega) i
    · rw [Nat.sub_self, h.zero]
      exact ⟨_, .guarded_of_full _, .guarded_of_full _⟩

/-- **The recursion goes through the guard at every level**, whatever the counter says. -/
theorem counted_eq (h : Mirrors refusal body plain) (i : ι) :
    counted refusal body i = Nesting.guarded refusal (body (counted refusal body) i) := by
  have more : counted refusal body i = recurse refusal body (maxDepth + 2) i := by
    funext c
    show (counted refusal body i).run.run c = (recurse refusal body (maxDepth + 2) i).run.run c
    by_cases bound : c.count ≤ maxDepth
    · obtain ⟨moves, left, right⟩ := h.agree (maxDepth + 1) (maxDepth + 2) bound
        (by omega) (by omega) i
      exact (left.run c.moves).trans (right.run c.moves).symm
    · rw [counted, recurse, recurse, run_guarded_of_le _ (by omega), run_guarded_of_le _ (by omega)]
  exact more

/-- **A counted reader does what a reader does that is told the level**, and leaves the counter as
it found it. -/
theorem settles (h : Mirrors refusal body plain) (bound : d ≤ maxDepth) (i : ι) :
    ∃ moves, Settles refusal d (counted refusal body i) (plain (maxDepth - d) i) moves := by
  obtain ⟨moves, settles, -⟩ := h.agree (maxDepth + 1) (maxDepth + 1) bound (by omega)
    (by omega) i
  exact ⟨moves, settles⟩

end Mirrors

end Nesting

end ImsCall
