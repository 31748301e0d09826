import ImsCall.VideoState

/-!
# Unknown flags of a video state

A video state is any word, and only three of its bits are known flags. Union, intersection and
complement work on all bits alike, so unknown flags and the sign are never lost, and a complement
sets most of them. Everything that is asked of a state looks at known flags alone. Whether this is
so is a question about each flag by itself: an operation computes a bit of its result from the bits
at the same position and no others, so what the known flags of an expression are depends on the
known flags it is made of.

A call type has room for less. A state that is read as a call type and back keeps its directions,
unless it is paused: then nothing is left of it.

## Main definitions

* `VideoState.testBit` — one bit of a state, and `VideoState.flag`, the state of one bit
* `VideoState.Agrees` — the same known flags
* `VideoState.LooksLike` — the same answers to everything that is asked
* `VideoState.Expr` — expressions over states, with their `value`, and bit by bit

## Main results

* `VideoState.looksLike_iff` — states look alike exactly if they agree
* `VideoState.Expr.testBit_value` — an expression is computed bit by bit
* `VideoState.videoState_callType` — what a call type keeps of a state
* `VideoState.known_flags_decide` — unknown flags are kept and never matter
-/

namespace ImsCall

namespace VideoState

variable {s t f : VideoState} {i k : Nat}

/-! ### Single bits -/

/-- A bit of a state. The known flags are the bits 0 to 2, and the sign is bit 31. -/
def testBit (s : VideoState) (i : Nat) : Bool := s.bits.toBitVec.getLsbD i

/-- The state in which one bit is set. -/
def flag (k : Nat) : VideoState := ⟨.ofBitVec (.twoPow 32 k)⟩

theorem ext_testBit (h : ∀ i < 32, s.testBit i = t.testBit i) : s = t := by
  obtain ⟨bits⟩ := s
  obtain ⟨bits'⟩ := t
  exact congrArg mk (Int32.toBitVec_inj.mp (BitVec.eq_of_getLsbD_eq h))

@[simp] theorem testBit_or (s t : VideoState) (i : Nat) :
    (s ||| t).testBit i = (s.testBit i || t.testBit i) := by
  rw [testBit, bits_or, Int32.toBitVec_or, BitVec.getLsbD_or]
  rfl

@[simp] theorem testBit_raise (s t : VideoState) (i : Nat) :
    (s.raise t).testBit i = (s.testBit i || t.testBit i) :=
  testBit_or s t i

@[simp] theorem testBit_and (s t : VideoState) (i : Nat) :
    (s &&& t).testBit i = (s.testBit i && t.testBit i) := by
  rw [testBit, bits_and, Int32.toBitVec_and, BitVec.getLsbD_and]
  rfl

@[simp] theorem testBit_complement (s : VideoState) (h : i < 32) :
    (~~~s).testBit i = !s.testBit i := by
  rw [testBit, bits_complement, Int32.toBitVec_not, BitVec.getLsbD_not, decide_eq_true h,
    Bool.true_and]
  rfl

theorem testBit_flag (h : k < 32) (i : Nat) : (flag k).testBit i = decide (k = i) := by
  have bit : (BitVec.twoPow 32 k).getLsbD i = decide (k = i) := by
    rw [BitVec.getLsbD_twoPow, decide_eq_true h, Bool.true_and]
  exact bit

theorem testBit_audioOnly (i : Nat) : audioOnly.testBit i = false :=
  BitVec.getLsbD_zero

theorem transmitting_eq : transmitting = flag 0 := by decide

theorem receiving_eq : receiving = flag 1 := by decide

theorem paused_eq : paused = flag 2 := by decide

theorem bidirectional_eq : bidirectional = transmitting ||| receiving := by decide

/-! ### Flags that are set -/

theorem contains_iff : s.contains f = true ↔ s &&& f = f := by
  obtain ⟨bits⟩ := s
  obtain ⟨bits'⟩ := f
  rw [contains, beq_iff_eq]
  exact ⟨congrArg mk, congrArg VideoState.bits⟩

/-- What a state has of a flag is the flag, or nothing. -/
theorem and_flag (h : k < 32) (s : VideoState) :
    s &&& flag k = if s.testBit k then flag k else audioOnly := by
  apply ext_testBit
  intro i _
  have bit : (if s.testBit k then flag k else audioOnly).testBit i =
      (s.testBit k && decide (k = i)) := by
    cases s.testBit k
    · exact testBit_audioOnly i
    · exact testBit_flag h i
  rw [bit, testBit_and, testBit_flag h]
  by_cases hi : k = i
  · rw [hi]
  · rw [decide_eq_false hi, Bool.and_false, Bool.and_false]

/-- A flag is contained in a state if its bit is set there. -/
theorem contains_flag (h : k < 32) (s : VideoState) : s.contains (flag k) = s.testBit k := by
  have nonempty : audioOnly ≠ flag k := by
    intro same
    have bit := congrArg (testBit · k) same
    simp [testBit_audioOnly, testBit_flag h] at bit
  rw [Bool.eq_iff_iff, contains_iff, and_flag h]
  cases s.testBit k
  · simpa using nonempty
  · simp

@[simp] theorem contains_transmitting (s : VideoState) :
    s.contains transmitting = s.testBit 0 := by
  rw [transmitting_eq, contains_flag (by decide)]

@[simp] theorem contains_receiving (s : VideoState) : s.contains receiving = s.testBit 1 := by
  rw [receiving_eq, contains_flag (by decide)]

@[simp] theorem contains_paused (s : VideoState) : s.contains paused = s.testBit 2 := by
  rw [paused_eq, contains_flag (by decide)]

/-- The directions of a state, one by one. -/
theorem and_bidirectional (s : VideoState) :
    s &&& bidirectional =
      (if s.testBit 0 then transmitting else audioOnly) |||
        (if s.testBit 1 then receiving else audioOnly) := by
  have distrib : s &&& (transmitting ||| receiving) =
      (s &&& transmitting) ||| (s &&& receiving) := by
    apply ext_testBit
    intro i _
    simp only [testBit_and, testBit_or, Bool.and_or_distrib_left]
  rw [bidirectional_eq, distrib, transmitting_eq, receiving_eq, and_flag (by decide),
    and_flag (by decide)]

@[simp] theorem contains_bidirectional (s : VideoState) :
    s.contains bidirectional = (s.testBit 0 && s.testBit 1) := by
  rw [Bool.eq_iff_iff, contains_iff, and_bidirectional]
  cases s.testBit 0 <;> cases s.testBit 1 <;> decide

/-! ### Looking at a state -/

/-- Two states have the same known flags. -/
def Agrees (s t : VideoState) : Prop := ∀ i < 3, s.testBit i = t.testBit i

instance (s t : VideoState) : Decidable (s.Agrees t) :=
  inferInstanceAs (Decidable (∀ i < 3, s.testBit i = t.testBit i))

/-- Two states that nothing tells apart: whatever is asked, both give the same answer. -/
structure LooksLike (s t : VideoState) : Prop where
  isAudioOnly : s.isAudioOnly = t.isAudioOnly
  isVideo : s.isVideo = t.isVideo
  isBidirectional : s.isBidirectional = t.isBidirectional
  isPaused : s.isPaused = t.isPaused
  describe : s.describe = t.describe
  callType : s.callType = t.callType

/-- The text for known flags. -/
def wording (transmits receives pauses : Bool) : String :=
  let directions :=
    if !transmits && !receives then "Audio"
    else (if transmits then "Tx" else "") ++ (if receives then "Rx" else "")
  if pauses then directions ++ " Paused" else directions

theorem describe_eq (s : VideoState) :
    s.describe = wording (s.testBit 0) (s.testBit 1) (s.testBit 2) := by
  rw [describe, isAudioOnly, isPaused, contains_transmitting, contains_receiving, contains_paused]
  rfl

/-- The text tells the known flags. -/
theorem agrees_of_describe_eq (h : s.describe = t.describe) : s.Agrees t := by
  have told : ∀ a b c a' b' c' : Bool,
      wording a b c = wording a' b' c' → a = a' ∧ b = b' ∧ c = c' := by decide +kernel
  rw [describe_eq, describe_eq] at h
  obtain ⟨transmits, receives, pauses⟩ := told _ _ _ _ _ _ h
  intro i hi
  obtain rfl | rfl | rfl : i = 0 ∨ i = 1 ∨ i = 2 := by omega
  · exact transmits
  · exact receives
  · exact pauses

/-- Nothing but the known flags is looked at. -/
theorem Agrees.looksLike (h : s.Agrees t) : s.LooksLike t := by
  have transmits : s.testBit 0 = t.testBit 0 := h 0 (by decide)
  have receives : s.testBit 1 = t.testBit 1 := h 1 (by decide)
  have pauses : s.testBit 2 = t.testBit 2 := h 2 (by decide)
  constructor
  case describe => rw [describe_eq, describe_eq, transmits, receives, pauses]
  case callType =>
    simp only [VideoState.callType, VideoState.isPaused, contains_transmitting,
      contains_receiving, contains_paused, transmits, receives, pauses]
  all_goals
    simp only [VideoState.isAudioOnly, VideoState.isVideo, VideoState.isBidirectional,
      VideoState.isPaused, contains_transmitting, contains_receiving, contains_bidirectional,
      contains_paused, transmits, receives, pauses]

/-- **The known flags are what there is to see of a state.** -/
theorem looksLike_iff : s.LooksLike t ↔ s.Agrees t :=
  ⟨fun h => agrees_of_describe_eq h.describe, Agrees.looksLike⟩

/-! ### Expressions -/

/-- Expressions over states. -/
inductive Expr where
  | state (s : VideoState)
  | union (a b : Expr)
  /-- The state `a` once the flags of `b` are set in it. -/
  | raise (a b : Expr)
  | inter (a b : Expr)
  | complement (a : Expr)
  deriving Repr

namespace Expr

/-- The state that an expression stands for. -/
def value : Expr → VideoState
  | .state s => s
  | .union a b => a.value ||| b.value
  | .raise a b => a.value.raise b.value
  | .inter a b => a.value &&& b.value
  | .complement a => ~~~a.value

/-- The expression as one over truth values: each state stands for its bit. -/
def testBit (i : Nat) : Expr → Bool
  | .state s => s.testBit i
  | .union a b => a.testBit i || b.testBit i
  | .raise a b => a.testBit i || b.testBit i
  | .inter a b => a.testBit i && b.testBit i
  | .complement a => !a.testBit i

/-- Two expressions of one shape, whose states have the same known flags. -/
inductive Agrees : Expr → Expr → Prop
  | state {s t : VideoState} (known : s.Agrees t) : Agrees (.state s) (.state t)
  | union {a b a' b' : Expr} (left : Agrees a a') (right : Agrees b b') :
      Agrees (.union a b) (.union a' b')
  | raise {a b a' b' : Expr} (left : Agrees a a') (right : Agrees b b') :
      Agrees (.raise a b) (.raise a' b')
  | inter {a b a' b' : Expr} (left : Agrees a a') (right : Agrees b b') :
      Agrees (.inter a b) (.inter a' b')
  | complement {a a' : Expr} (inside : Agrees a a') : Agrees (.complement a) (.complement a')

variable {a b : Expr}

/-- **An expression is computed bit by bit**, unknown bits and the sign included. -/
theorem testBit_value (h : i < 32) (e : Expr) : e.value.testBit i = e.testBit i := by
  -- Only a complement asks whether there is such a bit.
  induction e with
  | state s => rfl
  | union a b ha hb => rw [value, testBit_or, ha, hb, testBit]
  | raise a b ha hb => rw [value, testBit_raise, ha, hb, testBit]
  | inter a b ha hb => rw [value, testBit_and, ha, hb, testBit]
  | complement a ha => rw [value, testBit_complement _ h, ha, testBit]

theorem Agrees.testBit_eq (agrees : Agrees a b) (h : i < 3) : a.testBit i = b.testBit i := by
  induction agrees with
  | state agrees => exact agrees i h
  | union _ _ ha hb => rw [testBit, testBit, ha, hb]
  | raise _ _ ha hb => rw [testBit, testBit, ha, hb]
  | inter _ _ ha hb => rw [testBit, testBit, ha, hb]
  | complement _ ha => rw [testBit, testBit, ha]

theorem Agrees.value (agrees : Agrees a b) : a.value.Agrees b.value := by
  intro i h
  have inside : i < 32 := by omega
  rw [testBit_value inside, testBit_value inside, agrees.testBit_eq h]

end Expr

/-! ### By way of a call type -/

/-- What a call type keeps of a state are its directions, unless it is paused. -/
theorem videoState_callType (s : VideoState) :
    s.callType.videoState = if s.isPaused then audioOnly else s &&& bidirectional := by
  rw [callType]
  split
  · rfl
  · rw [and_bidirectional, contains_transmitting, contains_receiving]
    cases s.testBit 0 <;> cases s.testBit 1 <;> decide

theorem callType_of_isPaused (paused : s.isPaused = true) : s.callType = .videoNoDirection := by
  rw [callType, if_pos paused]

/-- Nothing more is lost on a second way back and forth. -/
theorem videoState_callType_videoState (c : CallType) :
    c.videoState.callType.videoState = c.videoState := by
  cases c <;> decide

/-- **Unknown flags are kept and never matter.** Expressions of one shape, whose states have the
same known flags, have values that nothing tells apart, whatever the other bits are; and these are
computed like all bits. Of a state that is not paused, a call type keeps the directions and nothing
else. One that is paused becomes video without a direction, whatever its other bits, and that reads
back as audio only. What came back from a call type comes back from one unchanged. -/
theorem known_flags_decide :
    (∀ a b : Expr, a.Agrees b → a.value.LooksLike b.value) ∧
    (∀ (e : Expr) (i : Nat), i < 32 → e.value.testBit i = e.testBit i) ∧
    ∀ s : VideoState,
      (s.isPaused = false → s.callType.videoState = s &&& bidirectional) ∧
      (s.isPaused = true →
        s.callType = .videoNoDirection ∧ s.callType.videoState = audioOnly) ∧
      s.callType.videoState.callType.videoState = s.callType.videoState := by
  refine ⟨?look, ?bits, fun s => ⟨?moving, ?paused, ?again⟩⟩
  case look =>
    intro a b agrees
    exact agrees.value.looksLike
  case bits =>
    intro e i inside
    exact Expr.testBit_value inside e
  case moving =>
    intro moving
    rw [videoState_callType, moving, if_neg Bool.false_ne_true]
  case paused =>
    intro paused
    refine ⟨callType_of_isPaused paused, ?_⟩
    rw [videoState_callType, if_pos paused]
  case again => exact videoState_callType_videoState s.callType

/-- An expression whose states have unknown flags, and whose value has all but a few of them. -/
def Expr.noisy : Expr :=
  .complement (.raise (.state ⟨0x40⟩) (.union (.inter (.state ⟨-1⟩) (.state ⟨6⟩)) (.state ⟨0⟩)))

/-- An expression of the same shape, whose value is a state of known flags. -/
def Expr.quiet : Expr :=
  .complement (.raise (.state ⟨-8⟩) (.union (.inter (.state ⟨7⟩) (.state ⟨6⟩)) (.state ⟨0⟩)))

/-- Two expressions with other unknown flags, one of which has a negative value, and all flags at
once. -/
theorem known_flags_decide_noisy :
    Expr.noisy.Agrees Expr.quiet ∧ Expr.noisy.value.LooksLike Expr.quiet.value ∧
      Expr.noisy.value = ⟨-71⟩ ∧ Expr.quiet.value = transmitting ∧
      Expr.noisy.value.testBit 31 = Expr.noisy.testBit 31 ∧
      Expr.noisy.value.callType.videoState = Expr.noisy.value &&& bidirectional ∧
      (⟨-1⟩ : VideoState).callType = .videoNoDirection := by
  obtain ⟨look, bits, way⟩ := known_flags_decide
  have agrees : Expr.noisy.Agrees Expr.quiet :=
    .complement (.raise (.state (by decide))
      (.union (.inter (.state (by decide)) (.state (by decide))) (.state (by decide))))
  refine ⟨agrees, look _ _ agrees, by decide, by decide, bits _ 31 (by decide), ?_, ?_⟩
  · exact (way Expr.noisy.value).1 (by decide)
  · exact ((way ⟨-1⟩).2.1 (by decide)).1

end VideoState

end ImsCall
