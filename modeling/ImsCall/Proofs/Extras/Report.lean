import ImsCall.Proofs.Extras.Strip

/-!
# What sanitizing reports

Sanitizing a bag reports a number: how many entries its top level has lost. The number is found by
comparing the sizes of two bags, one of which was rebuilt from the other. Here it is counted
instead, among the entries of the bag that came in.

A nested bag is rebuilt in its place, however much of it goes, so only unapproved objects at the
top level count.

## Main definitions

* `Extras.unapprovedCount` — the number of entries that are unapproved objects

## Main results

* `Entries.size_strip_add_countP` — stripping takes out these entries and no others
* `Extras.events_sanitize` — the report, or none if there is nothing to report
-/

namespace ImsCall

variable {p : Policy} {low : Option String}

/-- Whether a value is an object of an unapproved type. -/
def Value.isUnapproved (p : Policy) : Value → Bool
  | .object o => !p.approves o.typeName
  | _ => false

/-- How many entries of a bag are unapproved objects, entries of nested bags not counted. -/
def Extras.unapprovedCount (e : Extras) (p : Policy) : Nat :=
  e.toList.countP fun entry => entry.2.isUnapproved p

/-- The events that report some entries as removed. -/
def Event.removals (count : Nat) : List Event := if count = 0 then [] else [.removed count]

/-- The plain values that are unapproved are the unsafe ones. -/
theorem Value.isUnapproved_of_plain {v : Value} (isPlain : v.bundle? = none) :
    v.isUnapproved p = !v.isSafe p := by
  cases v with
  | bundle => cases isPlain
  | _ => rfl

/-- The entries that stripping takes out are the unapproved objects. -/
theorem Entries.size_strip_add_countP (p : Policy) (e : Entries low) :
    (e.strip p).size + e.toList.countP (fun entry => entry.2.isUnapproved p) = e.size := by
  induction e using Entries.strip_induction p with
  | nil => rfl
  | bundle key above bag rest inner ih =>
    have kept : (Value.bundle bag).isUnapproved p = false := rfl
    rw [toList_cons, List.countP_cons, kept, if_neg Bool.false_ne_true, size, size, ← ih]
    omega
  | keep key above value rest isPlain safe ih =>
    have approved : value.isUnapproved p = false := by
      rw [Value.isUnapproved_of_plain isPlain, safe]
      rfl
    rw [toList_cons, List.countP_cons, approved, if_neg Bool.false_ne_true, size, size, ← ih]
    omega
  | drop key above value rest isPlain bad ih =>
    have unapproved : value.isUnapproved p = true := by
      rw [Value.isUnapproved_of_plain isPlain, bad]
      rfl
    have size_weaken : ((rest.strip p).weaken above).size = (rest.strip p).size := by
      rw [← length_toList, ← length_toList, toList_weaken]
    rw [toList_cons, List.countP_cons, unapproved, if_pos rfl, size_weaken, size, ← ih]
    omega

namespace Extras

theorem size_strip_add_unapprovedCount (e : Extras) (p : Policy) :
    (e.strip p).size + e.unapprovedCount p = e.size :=
  Entries.size_strip_add_countP p e

/-- **Sanitizing reports the unapproved objects at the top level** if there are any, and otherwise
nothing, be there unapproved objects further down or not. -/
theorem events_sanitize (e : Extras) (p : Policy) :
    (e.sanitize p).events = Event.removals (e.unapprovedCount p) := by
  have count := e.size_strip_add_unapprovedCount p
  rw [sanitize, Event.removals]
  split
  · next safe =>
    have none : e.unapprovedCount p = 0 := by
      rw [strip, Entries.strip_of_isSafe safe] at count
      omega
    rw [if_pos none]
    rfl
  · dsimp only
    split
    · next same =>
      rw [if_pos (by omega)]
      rfl
    · next lost =>
      have removed : e.size - (e.strip p).size = e.unapprovedCount p := by omega
      rw [if_neg (by omega), removed]

end Extras

end ImsCall
