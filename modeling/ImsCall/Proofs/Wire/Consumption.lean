import ImsCall.Proofs.Wire.Extension

/-!
# What a reader takes

The number in front of a bag or of an array says how many items follow, and it comes from whoever
sent the bytes. It may be any number that eight bytes can hold, whatever the length of the input.
So it is not what bounds a loop over the items. The input is: an item that is read takes some bytes
off the front, at least as many as its smallest value has, and where none are left there is no item.

`Takes r width` says this of a reader, and like being steady it goes through sequencing. It is a
lower bound on what one successful run takes, and nothing is said about runs that fail.

## Main definitions

* `Wire.Reader.Takes` — a reader takes so many bytes at least
* `Wire.Loop` — the loops over a declared count, each with its item and the width of the item
* `Wire.Reader.drain` — a loop by recursion on the bytes that are left

## Main results

* `Wire.Reader.Takes.bind`, `Wire.Reader.Takes.replicate` — sequences and loops
* `Wire.Loop.takes_item` — the widths of the items
* `Wire.Reader.Takes.replicate_eq_drain` — a loop over a count is one over the input
-/

namespace ImsCall

namespace Wire

namespace Reader

variable {α β : Type} {r : Reader α} {f : α → Reader β} {item : Reader α} {m n width : Nat}

/-- A reader takes so many bytes at least off the front whenever it succeeds. -/
structure Takes (r : Reader α) (width : Nat) : Prop where
  /-- The bytes that were read are in front of those that are left. -/
  exists_append {s rest : Bytes} {a : α} :
    r s = .ok (a, rest) → ∃ taken : Bytes, s = taken ++ rest ∧ width ≤ taken.length

namespace Takes

theorem length_le (h : Takes r width) {s rest : Bytes} {a : α} (read : r s = .ok (a, rest)) :
    width + rest.length ≤ s.length := by
  obtain ⟨taken, rfl, enough⟩ := h.exists_append read
  rw [List.length_append]
  exact Nat.add_le_add_right enough rest.length

theorem mono (h : Takes r n) (le : m ≤ n) : Takes r m where
  exists_append read := by
    obtain ⟨taken, split, enough⟩ := h.exists_append read
    exact ⟨taken, split, Nat.le_trans le enough⟩

theorem pure (a : α) : Takes (Pure.pure a) 0 where
  exists_append := by
    rintro s rest a ⟨⟩
    exact ⟨[], rfl, Nat.le_refl 0⟩

/-- A reader that never succeeds takes as much as one likes. -/
theorem throw (fault : ReadFault) (width : Nat) : Takes (throw fault : Reader α) width where
  exists_append := by
    rintro s rest a ⟨⟩

/-- What a sequence takes is what its parts take. -/
theorem bind (hr : Takes r m) (hf : ∀ a, Takes (f a) n) : Takes (r >>= f) (m + n) where
  exists_append read := by
    obtain ⟨a, mid, first, second⟩ := bind_eq_ok_iff.mp read
    obtain ⟨front, rfl, hfront⟩ := hr.exists_append first
    obtain ⟨back, rfl, hback⟩ := (hf a).exists_append second
    refine ⟨front ++ back, (List.append_assoc front back _).symm, ?_⟩
    rw [List.length_append]
    exact Nat.add_le_add hfront hback

theorem map (hr : Takes r m) (g : α → β) : Takes (do return g (← r)) m :=
  hr.bind fun a => pure (g a)

/-- A loop takes what its items take, so many times. -/
theorem replicate (h : Takes item width) (n : Nat) : Takes (replicate item n) (n * width) := by
  induction n with
  | zero =>
    rw [Nat.zero_mul]
    exact pure []
  | succ n ih =>
    rw [replicate_succ, Nat.succ_mul, Nat.add_comm]
    exact h.bind fun a => ih.map (a :: ·)

end Takes

/-! ### The items -/

theorem takes_word (width : Nat) : Takes (word width) width where
  exists_append {s rest n} read := by
    obtain ⟨-, split⟩ := word_eq_ok_iff.mp read
    exact ⟨Wire.word width n, split, Nat.le_of_eq (length_word width n).symm⟩

theorem takes_exactly (n : Nat) : Takes (exactly n) n where
  exists_append {s rest bytes} read := by
    obtain ⟨length, split⟩ := exactly_eq_ok_iff.mp read
    exact ⟨bytes, split, Nat.le_of_eq length.symm⟩

theorem takes_byte : Takes byte 1 := (takes_word 1).map _

theorem takes_int32 : Takes int32 4 := (takes_word 4).map _

theorem takes_int64 : Takes int64 8 := (takes_word 8).map _

theorem takes_double : Takes double 8 := (takes_word 8).map _

theorem takes_flag (bad : UInt8 → ReadFault) : Takes (flag bad) 1 := by
  refine takes_byte.bind (n := 0) fun b => ?_
  split
  · exact .pure false
  · exact .pure true
  · exact .throw _ 0

theorem takes_bool : Takes bool 1 := takes_flag .badBool

theorem takes_run : Takes run 8 :=
  (takes_word 8).bind fun n => (takes_exactly n).mono (Nat.zero_le n)

theorem takes_text : Takes text 8 := by
  refine takes_run.bind (n := 0) fun bytes => ?_
  split
  · exact .pure _
  · exact .throw _ 0

theorem takes_object : Takes object 8 :=
  takes_text.bind fun _ => (takes_run.map _).mono (Nat.zero_le 8)

theorem Takes.array (h : Takes item width) : Takes (array item) 8 :=
  (takes_word 8).bind fun n => (h.replicate n).mono (Nat.zero_le _)

theorem takes_kind : Takes kind 4 where
  exists_append {_ _ k} read :=
    ⟨Wire.word 4 k.tag, kind_eq_ok_iff.mp read, Nat.le_of_eq (length_word 4 k.tag).symm⟩

/-- The content of a value takes a byte at least. -/
theorem Takes.valueOf {bag : Reader Extras} (h : Takes bag 8) (k : Kind) :
    Takes (valueOf bag k) 1 := by
  cases k with
  | int => exact (takes_int32.map _).mono (by decide)
  | long => exact (takes_int64.map _).mono (by decide)
  | double => exact (takes_double.map _).mono (by decide)
  | bool => exact takes_bool.map _
  | string => exact (takes_text.map _).mono (by decide)
  | ints => exact (takes_int32.array.map _).mono (by decide)
  | longs => exact (takes_int64.array.map _).mono (by decide)
  | doubles => exact (takes_double.array.map _).mono (by decide)
  | bools => exact (takes_bool.array.map _).mono (by decide)
  | strings => exact (takes_text.array.map _).mono (by decide)
  | bundle => exact (h.map _).mono (by decide)
  | object => exact (takes_object.map _).mono (by decide)

theorem Takes.value {bag : Reader Extras} (h : Takes bag 8) : Takes (value bag) 5 :=
  takes_kind.bind h.valueOf

theorem Takes.entry {bag : Reader Extras} (h : Takes bag 8) : Takes (entry bag) 13 :=
  takes_text.bind fun _ => h.value.map _

/-- A bag takes eight bytes for the number of its entries, however deep it may nest. -/
theorem takes_bag (levels : Nat) : Takes (bag levels) 8 := by
  induction levels with
  | zero => exact .throw _ 8
  | succ levels ih => exact ih.entry.array.map _

/-! ### Loops by the bytes that are left -/

/-- Reads an item so many times, by recursion on the bytes that are left. There is a next round
only if there are fewer of them. -/
def drain (item : Reader α) : Nat → Bytes → Except ReadFault (List α × Bytes)
  | 0, s => .ok ([], s)
  | n + 1, s =>
    match item s with
    | .error fault => .error fault
    | .ok (a, rest) =>
      if rest.length < s.length then do
        let (more, last) ← drain item n rest
        return (a :: more, last)
      else .error .endOfInput
termination_by _ s => s.length

/-- **A loop over a count is one over the input**, if its item takes bytes at all. -/
theorem Takes.replicate_eq_drain (h : Takes item width) (pos : 0 < width) (n : Nat) (s : Bytes) :
    Reader.replicate item n s = drain item n s := by
  induction n generalizing s with
  | zero =>
    rw [drain]
    rfl
  | succ n ih =>
    rw [replicate_succ, drain]
    cases found : item s with
    | error fault => exact bind_of_eq_error found
    | ok p =>
      obtain ⟨a, rest⟩ := p
      have fewer : rest.length < s.length := by
        have := h.length_le found
        omega
      dsimp only
      rw [bind_of_eq_ok found, if_pos fewer, ← ih]
      rfl

end Reader

/-! ### The loops over a declared count -/

/-- The loops that read so many items as were declared. -/
inductive Loop where
  /-- The entries of a bag, in which bags may nest so many levels. -/
  | entries (levels : Nat)
  | ints
  | longs
  | doubles
  | bools
  | strings

namespace Loop

/-- What a loop reads in each round. -/
def Element : Loop → Type
  | .entries _ => String × Value
  | .ints => Int32
  | .longs => Int64
  | .doubles => Double
  | .bools => Bool
  | .strings => String

/-- The reader of one round. -/
def item : (loop : Loop) → Reader loop.Element
  | .entries levels => Reader.entry (Reader.bag levels)
  | .ints => Reader.int32
  | .longs => Reader.int64
  | .doubles => Reader.double
  | .bools => Reader.bool
  | .strings => Reader.text

/-- The fewest bytes that a round takes. An entry takes eight for the length of its key, four for
the kind of its value and one for the value. -/
def width : Loop → Nat
  | .entries _ => 13
  | .ints => 4
  | .longs => 8
  | .doubles => 8
  | .bools => 1
  | .strings => 8

/-- The kind of value that a loop reads the content of. -/
def kind : Loop → Kind
  | .entries _ => .bundle
  | .ints => .ints
  | .longs => .longs
  | .doubles => .doubles
  | .bools => .bools
  | .strings => .strings

theorem width_pos (loop : Loop) : 0 < loop.width := by
  cases loop <;> simp [width]

/-- Every round takes so many bytes. -/
theorem takes_item (loop : Loop) : Reader.Takes loop.item loop.width := by
  cases loop with
  | entries levels => exact (Reader.takes_bag levels).entry
  | ints => exact Reader.takes_int32
  | longs => exact Reader.takes_int64
  | doubles => exact Reader.takes_double
  | bools => exact Reader.takes_bool
  | strings => exact Reader.takes_text

end Loop

end Wire

end ImsCall
