/-!
# Byte strings

Byte strings are lists, so that reading is recursion on what is left. `Bytes.splitExact?` cuts a
run of known length off the front and walks no further than that run.
-/

namespace ImsCall

/-- A string of bytes. -/
abbrev Bytes := List UInt8

namespace Bytes

private def splitExactLoop : Nat → Bytes → Bytes → Option (Bytes × Bytes)
  | 0, taken, rest => some (taken.reverse, rest)
  | _ + 1, _, [] => none
  | n + 1, taken, b :: rest => splitExactLoop n (b :: taken) rest

/-- The first `n` bytes and the rest, if there are that many. -/
def splitExact? (n : Nat) (s : Bytes) : Option (Bytes × Bytes) := splitExactLoop n [] s

private theorem splitExactLoop_eq (n : Nat) (taken s : Bytes) :
    splitExactLoop n taken s =
      if n ≤ s.length then some (taken.reverse ++ s.take n, s.drop n) else none := by
  induction s generalizing n taken with
  | nil => cases n <;> simp [splitExactLoop]
  | cons b s ih => cases n <;> simp [splitExactLoop, ih]

theorem splitExact?_eq (n : Nat) (s : Bytes) :
    splitExact? n s = if n ≤ s.length then some (s.take n, s.drop n) else none := by
  simp [splitExact?, splitExactLoop_eq]

/-- A run followed by anything is cut off exactly. -/
theorem splitExact?_append (run rest : Bytes) :
    splitExact? run.length (run ++ rest) = some (run, rest) := by
  simp [splitExact?_eq]

end Bytes

end ImsCall
