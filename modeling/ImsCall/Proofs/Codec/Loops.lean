import ImsCall.Proofs.Codec.Basic
import ImsCall.Proofs.Wire.Consumption

/-!
# Declared counts and nested bags

A buffer from outside declares how many entries its bags have and how many elements its arrays
have, and it nests its bags as deep as it likes. Neither decides how long it takes to find out
what is in the buffer. A loop ends with the input, whatever was declared, and a buffer that
declares more than it holds is refused; so is one with a bag below the deepest one that may be.

To say this of whole buffers, one has to say which loops the reader of a buffer comes to, and how
many bags are open then. The relations below follow the reader from the outermost bag down: over
the entries that it reads, to the value of the next one, and if that is a bag, into it. They ask
nothing of what comes later, so they also tell how far the reader gets in a buffer that it refuses
in the end.

## Main definitions

* `Wire.Reader.ReachesValue`, `Wire.Reader.ReachesBag` — how far a reader of bags gets
* `Wire.Reader.Starts` — the loops that it starts there

## Main results

* `Wire.Reader.ReachesBag.bag_eq_error`, `Wire.Reader.Starts.bag_eq_error` — what is found wrong
  at such a place is what the outermost bag is refused for
* `Codec.loops_end_with_input` — every loop ends with the input, and what declares more or nests
  deeper is refused
-/

namespace ImsCall

namespace Wire

namespace Reader

variable {α : Type} {item : Reader α} {bag : Reader Extras} {levels depth left i n : Nat}
  {s t u v w rest : Bytes} {fault : ReadFault} {loop : Loop}

/-! ### How far a reader gets -/

/-- The reader of a bag at `s`, in which bags may nest so many levels, comes to the value at `v`:
it reads some of the declared entries, and the key of the next one. -/
inductive ReachesValue (levels : Nat) (s v : Bytes) : Prop
  | intro {n i : Nat} {t u : Bytes} {done : List (String × Value)} {key : String}
      (declared : word 8 s = .ok (n, t)) (more : i < n)
      (before : replicate (entry (Reader.bag levels)) i t = .ok (done, u))
      (here : text u = .ok (key, v))

/-- The reader of the outermost bag at `s` comes to a bag at `t`, with which `depth` bags are open
and which is read by `bag left`. -/
inductive ReachesBag (s : Bytes) : (depth left : Nat) → (t : Bytes) → Prop
  | outermost : ReachesBag s 1 Extras.maxDepth s
  | nested {depth left : Nat} {t v u : Bytes} (outer : ReachesBag s depth (left + 1) t)
      (value : ReachesValue left t v) (tag : word 4 v = .ok (Kind.bundle.tag, u)) :
      ReachesBag s (depth + 1) left u

/-- The reader `bag left` at `t` starts a loop over a declared number of items at `rest`: over the
entries of the bag, or over the elements of an array among their values. -/
inductive Starts (t : Bytes) : (left : Nat) → Loop → (count : Nat) → (rest : Bytes) → Prop
  | entries {levels n : Nat} {rest : Bytes} (declared : word 8 t = .ok (n, rest)) :
      Starts t (levels + 1) (.entries levels) n rest
  | elements {levels : Nat} {loop : Loop} {n : Nat} {v w rest : Bytes}
      (value : ReachesValue levels t v) (tag : word 4 v = .ok (loop.kind.tag, w))
      (isArray : loop.kind ≠ .bundle) (declared : word 8 w = .ok (n, rest)) :
      Starts t (levels + 1) loop n rest

/-! ### What is found wrong there -/

theorem array_eq_error (declared : word 8 s = .ok (n, t))
    (bad : replicate item n t = .error fault) : array item s = .error fault :=
  (bind_of_eq_ok declared).trans bad

/-- A loop stops at the first item that is wrong. -/
theorem replicate_eq_error {done : List α} (before : replicate item i t = .ok (done, u))
    (more : i < n) (bad : item u = .error fault) : replicate item n t = .error fault := by
  obtain ⟨n, rfl⟩ := Nat.exists_eq_add_of_lt more
  induction i generalizing t done with
  | zero =>
    obtain ⟨rfl, rfl⟩ := replicate_zero_eq_ok_iff.mp before
    rw [replicate_succ]
    exact bind_of_eq_error bad
  | succ i ih =>
    obtain ⟨a, mid, first, others, hothers, rfl⟩ := replicate_succ_eq_ok_iff.mp before
    have tail := ih hothers (by omega)
    rw [Nat.add_right_comm i 1 n, replicate_succ, bind_of_eq_ok first]
    exact bind_of_eq_error tail

theorem value_of_tag {k : Kind} (tag : word 4 v = .ok (k.tag, w)) :
    value bag v = valueOf bag k w := by
  obtain ⟨-, rfl⟩ := word_eq_ok_iff.mp tag
  exact value_append bag k w

/-- A bag is refused for the first of its values that is wrong. -/
theorem ReachesValue.bag_eq_error (h : ReachesValue levels s v)
    (bad : value (Reader.bag levels) v = .error fault) :
    Reader.bag (levels + 1) s = .error fault := by
  obtain ⟨declared, more, before, here⟩ := h
  have badEntry : entry (Reader.bag levels) _ = .error fault :=
    (bind_of_eq_ok here).trans (bind_of_eq_error bad)
  have badArray : array (entry (Reader.bag levels)) s = .error fault :=
    array_eq_error declared (replicate_eq_error before more badEntry)
  exact bind_of_eq_error badArray

/-- A bag is refused for any of its loops that fails. -/
theorem Starts.bag_eq_error (h : Starts t left loop n rest)
    (bad : replicate loop.item n rest = .error fault) : Reader.bag left t = .error fault := by
  cases h with
  | entries declared => exact bind_of_eq_error (array_eq_error declared bad)
  | elements value tag isArray declared =>
    have badArray := array_eq_error declared bad
    refine value.bag_eq_error ?_
    rw [value_of_tag tag]
    cases loop with
    | entries levels => exact absurd rfl isArray
    | ints => exact bind_of_eq_error badArray
    | longs => exact bind_of_eq_error badArray
    | doubles => exact bind_of_eq_error badArray
    | bools => exact bind_of_eq_error badArray
    | strings => exact bind_of_eq_error badArray

/-- The outermost bag is refused for any bag inside it that is. -/
theorem ReachesBag.bag_eq_error (h : ReachesBag s depth left t)
    (bad : Reader.bag left t = .error fault) : Reader.bag Extras.maxDepth s = .error fault := by
  induction h with
  | outermost => exact bad
  | nested outer value tag ih =>
    refine ih (value.bag_eq_error ?_)
    rw [value_of_tag tag]
    exact bind_of_eq_error bad

/-- Every open bag takes one of the levels. -/
theorem ReachesBag.depth_add_left (h : ReachesBag s depth left t) :
    depth + left = Extras.maxDepth + 1 := by
  induction h with
  | outermost => exact Nat.add_comm 1 Extras.maxDepth
  | nested outer value tag ih => omega

/-- No bag is opened below the deepest one that may be: the reader stops in front of it. -/
theorem ReachesBag.bag_eq_tooDeep (h : ReachesBag s depth left t) (deep : Extras.maxDepth < depth) :
    Reader.bag Extras.maxDepth s = .error .tooDeep := by
  have levels := h.depth_add_left
  obtain rfl : left = 0 := by omega
  exact h.bag_eq_error rfl

/-- A loop over more items than the input can hold fails. -/
theorem exists_error_of_short (short : rest.length < n * loop.width) :
    ∃ fault, replicate loop.item n rest = .error fault := by
  cases read : replicate loop.item n rest with
  | error fault => exact ⟨fault, rfl⟩
  | ok p =>
    have := (loop.takes_item.replicate n).length_le read
    omega

/-- A bag is refused if one of the loops that its reader comes to declares more than there is. -/
theorem ReachesBag.exists_error (h : ReachesBag s depth left t)
    (started : Starts t left loop n rest) (short : rest.length < n * loop.width) :
    ∃ fault, Reader.bag Extras.maxDepth s = .error fault := by
  obtain ⟨fault, bad⟩ := exists_error_of_short short
  have badBag := started.bag_eq_error bad
  exact ⟨fault, h.bag_eq_error badBag⟩

end Reader

end Wire

/-! ### Whole buffers -/

namespace Codec

open Wire (Loop)
open Wire.Reader (ReachesBag ReachesValue Starts)

variable {c : Codec} {data outer : Bytes} {fault : ReadFault}

/-- A buffer is refused if its bag is. The bag stands behind the version, the two codes and the
option byte. -/
theorem exists_error_of_bag (present : data.drop 10 = 1 :: outer)
    (bad : Wire.Reader.bag Extras.maxDepth outer = .error fault) :
    ∃ cause, (c.decode data).value = .error cause := by
  rw [value_decode]
  cases read : c.read data with
  | error cause => exact ⟨cause, rfl⟩
  | ok p =>
    obtain ⟨fits, r, rfl, -, shallow⟩ := read_eq_ok_iff.mp read
    have hs : r.bytes.length < 2 ^ 64 := Nat.lt_of_le_of_lt fits c.maxSize_lt
    have behind : r.bytes.drop 10 = Wire.Record.bagBytes r.bag ++ r.media.bytes :=
      Wire.drop_header (Wire.length_word 2 1) (Coded.code r.service) (Coded.code r.call) _
    rw [behind] at present
    cases hbag : r.bag with
    | none =>
      rw [hbag] at present
      exact absurd (List.cons.inj present).1 (by decide)
    | some l =>
      rw [hbag] at present
      obtain rfl : l.bytes ++ r.media.bytes = outer := (List.cons.inj present).2
      have short : (l.bytes ++ r.media.bytes).length < 2 ^ 64 := by
        have lengths := congrArg List.length behind
        rw [hbag, List.length_drop] at lengths
        change _ = (l.bytes ++ r.media.bytes).length + 1 at lengths
        omega
      rw [(Wire.Reader.acceptsListings_bag _ short).mpr ⟨l, shallow l hbag, rfl, rfl⟩] at bad
      cases bad

/-- **Loops end with the input.** In every loop over a declared count, a round that succeeds takes
so many bytes at least. So the loop is one by recursion on the bytes that are left, and it reads
no more items than these can hold. In whole buffers, the reader comes to no bag but those that may
be open and the one below them, for which the buffer is refused, and a buffer is refused as well if
any of its loops declares more than there is. -/
theorem loops_end_with_input :
    (∀ (loop : Loop) (s : Bytes),
      (∀ a rest, loop.item s = .ok (a, rest) →
        ∃ taken : Bytes, s = taken ++ rest ∧ loop.width ≤ taken.length) ∧
      ∀ n, Wire.Reader.replicate loop.item n s = Wire.Reader.drain loop.item n s ∧
        ∀ items rest, Wire.Reader.replicate loop.item n s = .ok (items, rest) →
          n * loop.width + rest.length ≤ s.length) ∧
    ∀ (c : Codec) (data outer : Bytes), data.drop 10 = 1 :: outer →
      ∀ depth left t, ReachesBag outer depth left t →
        depth ≤ Extras.maxDepth + 1 ∧
        (Extras.maxDepth < depth → ∃ cause, (c.decode data).value = .error cause) ∧
        ∀ loop n rest, Starts t left loop n rest → rest.length < n * loop.width →
          ∃ cause, (c.decode data).value = .error cause := by
  refine ⟨?loops, ?buffers⟩
  case loops =>
    intro loop s
    refine ⟨fun a rest => loop.takes_item.exists_append, fun n => ⟨?_, fun items rest => ?_⟩⟩
    · exact loop.takes_item.replicate_eq_drain loop.width_pos n s
    · exact (loop.takes_item.replicate n).length_le
  case buffers =>
    intro c data outer present depth left t reached
    have levels := reached.depth_add_left
    refine ⟨by omega, ?deep, ?short⟩
    case deep =>
      intro deep
      exact exists_error_of_bag present (reached.bag_eq_tooDeep deep)
    case short =>
      intro loop n rest started short
      obtain ⟨fault, bad⟩ := reached.exists_error started short
      exact exists_error_of_bag present bad

/-- So many bags around some bytes, each with one entry that holds the next one. -/
def wrapped : Nat → Bytes → Bytes
  | 0, inner => inner
  | n + 1, inner =>
    wrapped n (Wire.word 8 1 ++ (Wire.text "k" ++ (Wire.word 4 Kind.bundle.tag ++ inner)))

theorem reachesBag_wrapped {n left : Nat} (levels : n + left = Extras.maxDepth) (inner : Bytes) :
    ReachesBag (wrapped n inner) (n + 1) left inner := by
  induction n generalizing left inner with
  | zero =>
    obtain rfl : left = Extras.maxDepth := by omega
    exact .outermost
  | succ n ih =>
    have first : ReachesValue left
        (Wire.word 8 1 ++ (Wire.text "k" ++ (Wire.word 4 Kind.bundle.tag ++ inner)))
        (Wire.word 4 Kind.bundle.tag ++ inner) :=
      .intro rfl Nat.zero_lt_one rfl rfl
    exact (ih (by omega) _).nested first rfl

/-- The front of a buffer that holds a bag. -/
def front : Bytes := Wire.word 2 1 ++ (Wire.int32 1 ++ (Wire.int32 2 ++ [1]))

/-- A bag that declares as many longs as can be declared, and holds none of them. -/
def greedy : Bytes :=
  Wire.word 8 1 ++ (Wire.text "k" ++ (Wire.word 4 Kind.longs.tag ++ Wire.word 8 (2 ^ 64 - 1)))

/-- A buffer with as many nested bags as may be and one more, and one whose second bag declares too
much. -/
theorem loops_end_with_input_hostile :
    (∃ cause, ((default : Codec).decode (front ++ wrapped 32 [])).value = .error cause) ∧
      ∃ cause, ((default : Codec).decode (front ++ wrapped 1 greedy)).value = .error cause := by
  have buffers := loops_end_with_input.2 default
  refine ⟨?deep, ?short⟩
  case deep =>
    have below : ReachesBag (wrapped 32 []) 33 0 [] := reachesBag_wrapped rfl []
    exact (buffers _ _ rfl _ _ _ below).2.1 (by decide)
  case short =>
    have second : ReachesBag (wrapped 1 greedy) 2 31 greedy := reachesBag_wrapped rfl greedy
    have started : Starts greedy 31 .longs (2 ^ 64 - 1) [] :=
      .elements (.intro rfl Nat.zero_lt_one rfl rfl) rfl (by decide) rfl
    exact (buffers _ _ rfl _ _ _ second).2.2 .longs _ _ started (by decide)

end Codec

end ImsCall
