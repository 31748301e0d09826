import ImsCall.Proofs.Wire.Compositional
import ImsCall.Proofs.Wire.Reading

/-!
# Readers and the bytes that follow

A reader takes items off the front of its input, and every length it checks it checks against all
of the input, so its runs on some bytes and on more bytes differ in what they look at. They do not
differ in what they find. If a run succeeds, then with more bytes it yields the same value and
leaves the new bytes over; if it stops at a bad item, then it stops there with the same fault. Only
where the input ran out do more bytes matter.

That is `Steady`. It says nothing about layouts, so it holds of input of any length, and it goes
through sequencing, so a reader that is put together from steady readers is steady. A loop over a
declared count is no exception, whatever number is declared: what the input bounds is only how many
items are read before it runs out.

## Main definitions

* `ReadFault.isShortage` — a fault that more bytes might have averted
* `Wire.Reader.Steady` — more bytes change nothing that was settled

## Main results

* `Wire.Reader.compositional_steady` — the parts of readers, and their sequences
* `Wire.Reader.steady_bag`, `Wire.Reader.steady_content` — bags and whole profiles
* `Wire.readContent_append`, `Wire.isShortage_of_readContent` — a whole profile, extended and cut
-/

namespace ImsCall

/-- Whether a fault is that the input ran out. -/
def ReadFault.isShortage : ReadFault → Bool
  | .endOfInput | .overlongRun => true
  | _ => false

namespace Bytes

theorem splitExact?_append_of_some {n : Nat} {s t rest : Bytes} (y : Bytes)
    (h : splitExact? n s = some (t, rest)) : splitExact? n (s ++ y) = some (t, rest ++ y) := by
  obtain ⟨length, rfl⟩ := splitExact?_eq_some_iff.mp h
  rw [splitExact?_eq_some_iff, List.append_assoc]
  exact ⟨length, rfl⟩

end Bytes

namespace Wire

namespace Reader

variable {α β : Type} {r : Reader α} {f : α → Reader β} {s rest y : Bytes} {fault : ReadFault}

/-- More bytes at the end of the input change nothing that was settled without them. -/
structure Steady (r : Reader α) : Prop where
  /-- What was read is read again, and the new bytes are left over as well. -/
  append_ok {s rest : Bytes} {a : α} (y : Bytes) :
    r s = .ok (a, rest) → r (s ++ y) = .ok (a, rest ++ y)
  /-- What was found wrong is found wrong again, unless the input had run out. -/
  append_error {s : Bytes} {fault : ReadFault} (y : Bytes) :
    r s = .error fault → fault.isShortage = false → r (s ++ y) = .error fault

/-! ### Sequencing -/

/-- A sequence fails in its first part, or in the second one on what the first one left. -/
theorem bind_eq_error_iff : (r >>= f) s = .error fault ↔
    r s = .error fault ∨ ∃ a mid, r s = .ok (a, mid) ∧ f a mid = .error fault := by
  change (r s >>= fun p => f p.1 p.2) = _ ↔ _
  cases r s with
  | error found => simp [bind, Except.bind]
  | ok p => simp [bind, Except.bind, Prod.ext_iff]

namespace Steady

theorem pure (a : α) : Steady (Pure.pure a) where
  append_ok := by
    rintro s rest a y ⟨⟩
    rfl
  append_error := by
    rintro s fault y ⟨⟩

theorem throw (found : ReadFault) : Steady (throw found : Reader α) where
  append_ok := by
    rintro s rest a y ⟨⟩
  append_error := by
    rintro s fault y ⟨⟩ -
    rfl

/-- What the first part leaves over is the input of the second one, so the new bytes pass through
both. -/
theorem bind (hr : Steady r) (hf : ∀ a, Steady (f a)) : Steady (r >>= f) where
  append_ok y h := by
    obtain ⟨a, mid, ha, hb⟩ := bind_eq_ok_iff.mp h
    rw [bind_of_eq_ok (hr.append_ok y ha)]
    exact (hf a).append_ok y hb
  append_error y h settled := by
    rcases bind_eq_error_iff.mp h with first | ⟨a, mid, ha, second⟩
    · exact bind_of_eq_error (hr.append_error y first settled)
    · rw [bind_of_eq_ok (hr.append_ok y ha)]
      exact (hf a).append_error y second settled

/-- Cutting so many bytes off the front fails only where there are fewer. -/
theorem of_splitExact? {n : Nat} {g : Bytes → α} (short : ReadFault)
    (isShort : short.isShortage = true)
    (eq : ∀ s, r s = match Bytes.splitExact? n s with
      | some (bytes, rest) => .ok (g bytes, rest)
      | none => .error short) : Steady r where
  append_ok {s rest a} y h := by
    rw [eq] at h ⊢
    cases split : Bytes.splitExact? n s with
    | none =>
      rw [split] at h
      cases h
    | some p =>
      rw [split] at h
      cases h
      rw [Bytes.splitExact?_append_of_some y split]
  append_error {s fault} y h settled := by
    rw [eq] at h
    cases split : Bytes.splitExact? n s with
    | none =>
      rw [split] at h
      cases h
      rw [isShort] at settled
      cases settled
    | some p =>
      rw [split] at h
      cases h

end Steady

/-! ### All readers -/

/-- Items are steady. -/
theorem compositional_steady : Compositional fun _ r => Steady r where
  pure := .pure
  throw _ := .throw _
  bind := .bind
  word _ := .of_splitExact? .endOfInput rfl fun _ => rfl
  exactly _ := .of_splitExact? (g := id) .overlongRun rfl fun _ => rfl

theorem steady_version : Steady version := compositional_steady.version

/-- Bags are steady at every level. A bag that nests too deep is refused before anything of it is
read, so that fault does not depend on the input at all. -/
theorem steady_bag (levels : Nat) : Steady (bag levels) := by
  induction levels with
  | zero => exact .throw _
  | succ levels ih => exact compositional_steady.body ih

theorem steady_content : Steady content := compositional_steady.contentOf (steady_bag _)

end Reader

/-! ### Whole profiles -/

variable {s y : Bytes} {c : Content}

/-- Whatever follows a whole profile is left over. -/
theorem readContent_append (h : readContent s = .ok c) (hy : y ≠ []) :
    readContent (s ++ y) = .error .trailing := by
  obtain ⟨b, t, rfl⟩ := List.exists_cons_of_ne_nil hy
  have found := Reader.steady_content.append_ok (b :: t) (readContent_eq_ok_iff_content.mp h)
  rw [List.nil_append] at found
  rw [readContent, found]

/-- A profile that is cut off is not read, and what is found wrong is that the input ran out. -/
theorem isShortage_of_readContent (h : readContent (s ++ y) = .ok c) (hy : y ≠ []) :
    ∃ fault, readContent s = .error fault ∧ fault.isShortage = true := by
  have whole := readContent_eq_ok_iff_content.mp h
  cases cut : Reader.content s with
  | ok p =>
    -- The bytes that were cut off would be left over.
    have found := Reader.steady_content.append_ok y cut
    rw [whole] at found
    have left : [] = p.2 ++ y := congrArg Prod.snd (Except.ok.inj found)
    exact absurd (List.append_eq_nil_iff.mp left.symm).2 hy
  | error fault =>
    refine ⟨fault, by rw [readContent, cut], ?_⟩
    cases short : fault.isShortage with
    | true => rfl
    | false =>
      have found := Reader.steady_content.append_error y cut short
      rw [whole] at found
      cases found

end Wire

end ImsCall
