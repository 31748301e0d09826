import ImsCall.Proofs.Nesting.Counter
import ImsCall.Proofs.Wire.Compositional
import ImsCall.Proofs.Wire.Reading

/-!
# Bags on the wire, read beside a counter

The reader of a bag is told how many levels bags may still nest. The one here keeps a counter of
open bags instead. Otherwise it is the same reader: both are put together by the functions of
`Wire/Reader` for what may hold bags, one among plain readers and one among readers beside the
counter.

The two are compared by input, so a reader that stops at a bad item or at the end of the input is
compared in what it did up to there. A plain item never fails as a bag that nests too deep, which is
what makes this fault tell of the counter.

## Main definitions

* `Wire.CountedReader` — a reader beside the counter, with `bag` and `content`
* `Wire.Reader.NeverTooDeep` — a reader that opens no bags
* `Wire.CountedReader.Agree` — two counted readers that do what a plain one does

## Main results

* `Wire.CountedReader.mirrors_bag` — bags mirror the plain reader level by level
* `Wire.CountedReader.agree_content` — a whole profile
-/

namespace ImsCall

namespace Wire

open Extras (maxDepth)
open Nesting (Counted)

/-- A reader beside the counter of open bags. -/
abbrev CountedReader := StateT Bytes (Counted ReadFault)

namespace CountedReader

variable {α β : Type}

/-- Reads what holds no bags. -/
def plain (r : Reader α) : CountedReader α := fun s => ofExcept (r s)

instance : MonadLift Reader CountedReader := ⟨plain⟩

/-- What stands under the guard of a bag, given a reader for the bags nested in it. -/
def body : CountedReader Extras → CountedReader Extras := Reader.body

/-- A bag. The counter says whether it may be opened. -/
def bag : CountedReader Extras := Nesting.counted .tooDeep body

/-- A profile's content. -/
def content : CountedReader Content := Reader.contentOf bag

end CountedReader

/-! ### Readers that open no bags -/

namespace Reader

variable {α β : Type} {r : Reader α} {f : α → Reader β}

/-- A reader that opens no bags does not fail as one that nests too deep. -/
def NeverTooDeep (r : Reader α) : Prop := ∀ s, r s ≠ .error .tooDeep

namespace NeverTooDeep

theorem pure (a : α) : NeverTooDeep (Pure.pure a) := fun _ => nofun

theorem throw {fault : ReadFault} (h : fault ≠ .tooDeep) :
    NeverTooDeep (throw fault : Reader α) :=
  fun _ failed => h (Except.error.inj failed)

/-- Cutting so many bytes off the front fails as the input ends. -/
theorem of_splitExact? {n : Nat} {g : Bytes → α} (short : ReadFault) (h : short ≠ .tooDeep)
    (eq : ∀ s, r s = match Bytes.splitExact? n s with
      | some (bytes, rest) => .ok (g bytes, rest)
      | none => .error short) : NeverTooDeep r := by
  intro s failed
  rw [eq] at failed
  cases split : Bytes.splitExact? n s with
  | none =>
    rw [split] at failed
    exact h (Except.error.inj failed)
  | some p =>
    rw [split] at failed
    cases failed

theorem bind (hr : NeverTooDeep r) (hf : ∀ a, NeverTooDeep (f a)) : NeverTooDeep (r >>= f) := by
  intro s failed
  cases first : r s with
  | error fault =>
    rw [bind_of_eq_error first] at failed
    exact hr s (first.trans (congrArg Except.error (Except.error.inj failed)))
  | ok p =>
    rw [bind_of_eq_ok first] at failed
    exact hf p.1 p.2 failed

end NeverTooDeep

/-- No item fails as a bag that nests too deep. -/
theorem compositional_neverTooDeep : Compositional fun _ r => NeverTooDeep r where
  pure := .pure
  throw := .throw
  bind := .bind
  word _ := .of_splitExact? .endOfInput nofun fun _ => rfl
  exactly _ := .of_splitExact? (g := id) .overlongRun nofun fun _ => rfl

end Reader

/-! ### Counted readers against plain ones -/

namespace CountedReader

open Reader

variable {α β : Type} {d levels : Nat} {x y : CountedReader α} {r : Reader α}

/-- With so many open bags, two counted readers do what a plain reader does, on every input. -/
def Agree (d : Nat) (x y : CountedReader α) (r : Reader α) : Prop :=
  ∀ s, Nesting.Agree .tooDeep d (x s) (y s) (r s)

namespace Agree

theorem plain (h : NeverTooDeep r) : Agree d (plain r) (plain r) r :=
  fun s => .ofExcept (h s)

theorem pure (a : α) : Agree d (Pure.pure a) (Pure.pure a) (Pure.pure a) :=
  fun s => .pure (a, s)

theorem bind {f g : α → CountedReader β} {next : α → Reader β} (h : Agree d x y r)
    (h' : ∀ a, Agree d (f a) (g a) (next a)) : Agree d (x >>= f) (y >>= g) (r >>= next) :=
  fun s => (h s).bind fun p => h' p.1 p.2

theorem map (h : Agree d x y r) (g : α → β) :
    Agree d (do return g (← x)) (do return g (← y)) (do return g (← r)) :=
  h.bind fun a => pure (g a)

theorem replicateAfter (h : Agree d x y r) (n : Nat) (done : List α) :
    Agree d (replicateAfter x n done) (replicateAfter y n done) (replicateAfter r n done) := by
  induction n generalizing done with
  | zero => exact .pure done.reverse
  | succ n ih => exact h.bind fun a => ih (a :: done)

theorem array (h : Agree d x y r) : Agree d (Reader.array x) (Reader.array y) (Reader.array r) :=
  (plain (compositional_neverTooDeep.word 8)).bind fun n => h.replicateAfter n []

end Agree

section Bags

variable {b b' : CountedReader Extras} {bag : Reader Extras}

theorem Agree.valueOf (h : Agree d b b' bag) (k : Kind) :
    Agree d (valueOf b k) (valueOf b' k) (valueOf bag k) := by
  cases k with
  | int => exact (Agree.plain compositional_neverTooDeep.int32).map _
  | long => exact (Agree.plain compositional_neverTooDeep.int64).map _
  | double => exact (Agree.plain compositional_neverTooDeep.double).map _
  | bool => exact (Agree.plain compositional_neverTooDeep.bool).map _
  | string => exact (Agree.plain compositional_neverTooDeep.text).map _
  | ints => exact (Agree.plain compositional_neverTooDeep.int32).array.map _
  | longs => exact (Agree.plain compositional_neverTooDeep.int64).array.map _
  | doubles => exact (Agree.plain compositional_neverTooDeep.double).array.map _
  | bools => exact (Agree.plain compositional_neverTooDeep.bool).array.map _
  | strings => exact (Agree.plain compositional_neverTooDeep.text).array.map _
  | bundle => exact h.map _
  | object => exact (Agree.plain compositional_neverTooDeep.object).map _

theorem Agree.value (h : Agree d b b' bag) : Agree d (value b) (value b') (value bag) :=
  (Agree.plain compositional_neverTooDeep.kind).bind h.valueOf

theorem Agree.entry (h : Agree d b b' bag) : Agree d (entry b) (entry b') (entry bag) :=
  (Agree.plain compositional_neverTooDeep.text).bind fun _ => h.value.map _

theorem Agree.body (h : Agree d b b' bag) : Agree d (body b) (body b') (Reader.body bag) :=
  h.entry.array.map Extras.ofList

theorem Agree.optionBag (h : Agree d b b' bag) :
    Agree d (optionBag b) (optionBag b') (optionBag bag) := by
  have noFault : NeverTooDeep (flag .badOption) := compositional_neverTooDeep.flag fun _ => nofun
  refine (Agree.plain noFault).bind fun present => ?_
  cases present with
  | false => exact .pure none
  | true => exact h.map some

theorem Agree.contentOf (h : Agree d b b' bag) :
    Agree d (contentOf b) (contentOf b') (contentOf bag) :=
  have code := Agree.plain (d := d) compositional_neverTooDeep.int32
  (Agree.plain compositional_neverTooDeep.version).bind fun _ => code.bind fun _ =>
    code.bind fun _ => h.optionBag.bind fun _ =>
      (Agree.plain compositional_neverTooDeep.media).map _

end Bags

/-- **Bags mirror the plain reader level by level.** -/
theorem mirrors_bag : Nesting.Mirrors .tooDeep body Reader.bag where
  zero _ := rfl
  succ h := Agree.body h

/-- **Every bag is read under the guard**, whatever the counter says. -/
theorem bag_eq (s : Bytes) : bag s = Nesting.guarded .tooDeep (body bag s) :=
  mirrors_bag.counted_eq s

theorem agree_bag (bound : d ≤ maxDepth) : Agree d bag bag (Reader.bag (maxDepth - d)) :=
  fun s => mirrors_bag.agree (maxDepth + 1) (maxDepth + 1) bound (by omega) (by omega) s

theorem agree_content : Agree 0 content content Reader.content :=
  (agree_bag (Nat.zero_le maxDepth)).contentOf

end CountedReader

end Wire

end ImsCall
