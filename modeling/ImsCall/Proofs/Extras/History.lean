import Mathlib.Data.List.Induction
import Mathlib.Data.Set.Card
import ImsCall.Extras.Typed
import ImsCall.Proofs.Utf8

/-!
# Bags over a history of operations

Whatever is done to a bag comes down to three effects: a key is written, a key is removed, or
everything is removed. Writing many entries at once is many writes, and a bag that is made of
entries is the removal of everything with those writes after it.

A binding is live after some effects if one of them wrote it and no later one concerns its key.
The definition looks at the history alone. So it can be held against a bag: a bag that went
through a history answers every question as the live bindings of the history say.

## Main definitions

* `Extras.Operation`, `Extras.after` — operations, and the bag after several of them
* `Extras.Effect`, `Extras.Live` — what operations come down to, and the bindings that are live
* `Extras.Answers` — a typed reading says what is live, in its result and in its report
* `Extras.Reflects` — so does everything else that can be asked of a bag

## Main results

* `Extras.get?_apply_iff`, `Extras.foldl_perform` — one effect, and a history of operations
* `Extras.reflects_live_after` — after any operations a bag reflects the live bindings
-/

namespace ImsCall

/-! ### Membership -/

namespace Entries

theorem mem_toList_iff {k : String} {v : Value} : {low : Option String} → {e : Entries low} →
    ((k, v) ∈ e.toList ↔ e.get? k = some v)
  | _, .nil => by simp [get?]
  | _, .cons key above value rest => by
    rw [toList_cons, List.mem_cons, mem_toList_iff, get?, Prod.mk.injEq]
    split
    · next eq =>
      subst eq
      -- the entries that follow all have larger keys
      have beyond : rest.get? k = none := get?_eq_none rest (String.lt_irrefl k)
      rw [beyond]
      simp [eq_comm]
    · next ne => simp [ne]

end Entries

namespace Extras

theorem pairwise_keys (e : Extras) : e.keys.Pairwise (· < ·) :=
  List.pairwise_map.mpr (Entries.pairwise_toList e)

/-! ### Histories -/

/-- An operation on a bag. -/
inductive Operation where
  /-- Writes a value and answers what the key held before. -/
  | exchange (key : String) (value : Value)
  /-- Writes a value. -/
  | insert (key : String) (value : Value)
  /-- Removes a key and answers what it held. -/
  | take (key : String)
  | clear
  | extend (entries : List (String × Value))
  /-- Puts in place of the bag a new one, made of entries. -/
  | collect (entries : List (String × Value))

/-- The bag after an operation. -/
def perform (e : Extras) : Operation → Extras
  | .exchange key value => (e.exchange key value).2
  | .insert key value => e.insert key value
  | .take key => (e.take key).2
  | .clear => empty
  | .extend entries => e.extend entries
  | .collect entries => ofList entries

/-- The bag after several operations, the first of them on a bag without entries. -/
def after (operations : List Operation) : Extras := operations.foldl perform empty

/-- What operations come down to. -/
inductive Effect where
  | write (key : String) (value : Value)
  | remove (key : String)
  | removeAll

/-- Whether an effect decides what a key holds. -/
def Effect.Concerns (key : String) : Effect → Prop
  | .write k _ => k = key
  | .remove k => k = key
  | .removeAll => True

/-- The write of an entry. -/
def Effect.ofEntry (entry : String × Value) : Effect := .write entry.1 entry.2

/-- The effects of an operation, in order. -/
def Operation.effects : Operation → List Effect
  | .exchange key value => [.write key value]
  | .insert key value => [.write key value]
  | .take key => [.remove key]
  | .clear => [.removeAll]
  | .extend entries => entries.map .ofEntry
  | .collect entries => .removeAll :: entries.map .ofEntry

/-- A binding is live after some effects: it was written, and no later effect concerns its key. -/
def Live (effects : List Effect) (key : String) (value : Value) : Prop :=
  ∃ earlier later, effects = earlier ++ .write key value :: later ∧
    ∀ x ∈ later, ¬ x.Concerns key

/-- Nothing is live at first. -/
theorem not_live_nil (k : String) (v : Value) : ¬ Live [] k v := by
  rintro ⟨earlier, later, h, -⟩
  simp at h

/-- An effect makes the binding live that it writes, and keeps those whose keys it leaves alone. -/
theorem live_append_singleton_iff {effects : List Effect} {x : Effect} {k : String} {v : Value} :
    Live (effects ++ [x]) k v ↔ x = .write k v ∨ ¬ x.Concerns k ∧ Live effects k v := by
  constructor
  · rintro ⟨earlier, later, h, quiet⟩
    rcases List.eq_nil_or_concat' later with rfl | ⟨later, y, rfl⟩
    · exact .inl (List.singleton_inj.mp (List.append_inj' h rfl).2)
    · rw [← List.cons_append, ← List.append_assoc] at h
      obtain ⟨heffects, hx⟩ := List.append_inj' h rfl
      obtain rfl := List.singleton_inj.mp hx
      refine .inr ⟨quiet x (by simp), earlier, later, heffects, fun z hz => quiet z ?_⟩
      exact List.mem_append_left _ hz
  · rintro (rfl | ⟨hx, earlier, later, rfl, quiet⟩)
    · exact ⟨effects, [], rfl, by simp⟩
    · refine ⟨earlier, later ++ [x], by simp, fun y hy => ?_⟩
      rcases List.mem_append.mp hy with hy | hy
      · exact quiet y hy
      · rwa [List.mem_singleton.mp hy]

/-! ### The bag of a history -/

/-- The bag after an effect. -/
def apply (e : Extras) : Effect → Extras
  | .write key value => e.insert key value
  | .remove key => e.erase key
  | .removeAll => empty

/-- What a bag holds after an effect follows the rule for what is live. -/
theorem get?_apply_iff {e : Extras} {x : Effect} {k : String} {v : Value} :
    (e.apply x).get? k = some v ↔ x = .write k v ∨ ¬ x.Concerns k ∧ e.get? k = some v := by
  cases x with
  | write key value =>
    rw [apply, get?_insert]
    by_cases h : k = key <;> simp [Effect.Concerns, h, Ne.symm]
  | remove key =>
    rw [apply, get?_erase]
    by_cases h : k = key <;> simp [Effect.Concerns, h, Ne.symm]
  | removeAll => simp [apply, Effect.Concerns]

/-- After any effects a bag holds the live bindings. -/
theorem get?_foldl_apply_iff {effects : List Effect} {k : String} {v : Value} :
    (effects.foldl apply empty).get? k = some v ↔ Live effects k v := by
  induction effects using List.reverseRecOn with
  | nil => simp [not_live_nil]
  | append_singleton effects x ih =>
    rw [List.foldl_append, List.foldl_cons, List.foldl_nil, get?_apply_iff, ih,
      live_append_singleton_iff]

/-- An operation does what its effects do. -/
theorem perform_eq (e : Extras) (operation : Operation) :
    e.perform operation = operation.effects.foldl apply e := by
  cases operation with
  | exchange key value => rw [perform, exchange_eq]; rfl
  | insert key value => rfl
  | take key => rw [perform, take_eq]; rfl
  | clear => rfl
  | extend entries => rw [Operation.effects, List.foldl_map]; rfl
  | collect entries => rw [Operation.effects, List.foldl_cons, List.foldl_map]; rfl

theorem foldl_perform (operations : List Operation) (e : Extras) :
    operations.foldl perform e = (operations.flatMap Operation.effects).foldl apply e := by
  induction operations generalizing e with
  | nil => rfl
  | cons operation operations ih =>
    rw [List.foldl_cons, ih, perform_eq, List.flatMap_cons, List.foldl_append]

theorem get?_after_iff {operations : List Operation} {k : String} {v : Value} :
    (after operations).get? k = some v ↔ Live (operations.flatMap Operation.effects) k v := by
  rw [after, foldl_perform, get?_foldl_apply_iff]

/-! ### Typed readings -/

variable {α β : Type}

/-- What a typed reading of a key is to say about the values that are live there. With a value of
the expected kind it is silent and yields the content; with another it warns, and falls back;
without any it is silent and falls back. -/
structure Answers (live : Value → Prop) (key : String) (expected : Kind) (wrap : α → Value)
    (found : α → β) (fallback : β) (reading : Logged β) : Prop where
  of_expected : ∀ v, live v → v.kind = expected → ∃ a, v = wrap a ∧ reading = ⟨found a, []⟩
  of_other : ∀ v, live v → v.kind ≠ expected →
    reading = ⟨fallback, [.kindMismatch key expected v.kind]⟩
  of_none : (∀ v, ¬ live v) → reading = ⟨fallback, []⟩
  warns : ∀ event ∈ reading.events, event.level = .warn

/-- Taking apart values of a kind. -/
structure Extracts (expected : Kind) (wrap : α → Value) (extract : Value → Option α) : Prop where
  of_expected : ∀ v, v.kind = expected → ∃ a, v = wrap a ∧ extract v = some a
  of_other : ∀ v, v.kind ≠ expected → extract v = none

theorem extracts_int : Extracts .int Value.int Value.int? where
  of_expected v h := by cases v <;> first | exact ⟨_, rfl, rfl⟩ | cases h
  of_other v h := by cases v <;> first | exact absurd rfl h | rfl

theorem extracts_long : Extracts .long Value.long Value.long? where
  of_expected v h := by cases v <;> first | exact ⟨_, rfl, rfl⟩ | cases h
  of_other v h := by cases v <;> first | exact absurd rfl h | rfl

theorem extracts_double : Extracts .double Value.double Value.double? where
  of_expected v h := by cases v <;> first | exact ⟨_, rfl, rfl⟩ | cases h
  of_other v h := by cases v <;> first | exact absurd rfl h | rfl

theorem extracts_bool : Extracts .bool Value.bool Value.bool? where
  of_expected v h := by cases v <;> first | exact ⟨_, rfl, rfl⟩ | cases h
  of_other v h := by cases v <;> first | exact absurd rfl h | rfl

theorem extracts_string : Extracts .string Value.string Value.string? where
  of_expected v h := by cases v <;> first | exact ⟨_, rfl, rfl⟩ | cases h
  of_other v h := by cases v <;> first | exact absurd rfl h | rfl

theorem extracts_bundle : Extracts .bundle Value.bundle Value.bundle? where
  of_expected v h := by cases v <;> first | exact ⟨_, rfl, rfl⟩ | cases h
  of_other v h := by cases v <;> first | exact absurd rfl h | rfl

variable {live : Value → Prop} {key : String} {expected : Kind} {wrap : α → Value}
  {extract : Value → Option α} {e : Extras}

theorem Extracts.answers_read (extracts : Extracts expected wrap extract)
    (holds : ∀ v, e.get? key = some v ↔ live v) :
    Answers live key expected wrap some none (e.read expected extract key) where
  of_expected v hv hkind := by
    obtain ⟨a, rfl, ha⟩ := extracts.of_expected v hkind
    refine ⟨a, rfl, Logged.ext ?_ ?_⟩ <;> simp [(holds _).mpr hv, ha]
  of_other v hv hkind := by
    have none := extracts.of_other v hkind
    refine Logged.ext ?_ ?_ <;> simp [(holds _).mpr hv, none]
  of_none none := by
    have absent : e.get? key = .none :=
      Option.eq_none_iff_forall_ne_some.mpr fun v h => none v ((holds v).mp h)
    refine Logged.ext ?_ ?_ <;> simp [absent]
  warns event h := by
    rw [events_read] at h
    split at h
    · split at h
      · simp at h
      · rw [List.mem_singleton.mp h]; rfl
    · simp at h

/-- Falling back to a default keeps what a reading says. -/
theorem Answers.getD {reading : Logged (Option α)}
    (answers : Answers live key expected wrap some none reading) (default : α) :
    Answers live key expected wrap id default (do return (← reading).getD default) where
  of_expected v hv hkind := by
    obtain ⟨a, hwrap, ha⟩ := answers.of_expected v hv hkind
    exact ⟨a, hwrap, by rw [ha]; rfl⟩
  of_other v hv hkind := by rw [answers.of_other v hv hkind]; rfl
  of_none none := by rw [answers.of_none none]; rfl
  warns event h := answers.warns event (by simpa using h)

/-! ### Everything that can be asked -/

/-- A bag that reflects the live bindings says what they are in answer to every question. -/
structure Reflects (live : String → Value → Prop) (e : Extras) : Prop where
  get? : ∀ k v, e.get? k = some v ↔ live k v
  /-- Whatever is written, the answer is what was live. -/
  exchange : ∀ k new v, (e.exchange k new).1 = some v ↔ live k v
  take : ∀ k v, (e.take k).1 = some v ↔ live k v
  contains : ∀ k, e.contains k = true ↔ ∃ v, live k v
  size : {k | ∃ v, live k v}.encard = e.size
  toList : ∀ k v, (k, v) ∈ e.toList ↔ live k v
  keys : e.keys = e.toList.map Prod.fst
  /-- Keys ascend strictly, as texts and as bytes. -/
  ascending : e.keys.Pairwise fun a b => a < b ∧ Utf8.encode a < Utf8.encode b
  readInt : ∀ k, Answers (live k) k .int Value.int some none (e.readInt k)
  readLong : ∀ k, Answers (live k) k .long Value.long some none (e.readLong k)
  readDouble : ∀ k, Answers (live k) k .double Value.double some none (e.readDouble k)
  readBool : ∀ k, Answers (live k) k .bool Value.bool some none (e.readBool k)
  readString : ∀ k, Answers (live k) k .string Value.string some none (e.readString k)
  readBundle : ∀ k, Answers (live k) k .bundle Value.bundle some none (e.readBundle k)
  readIntOr : ∀ k default, Answers (live k) k .int Value.int id default (e.readIntOr k default)
  readBoolOr : ∀ k default,
    Answers (live k) k .bool Value.bool id default (e.readBoolOr k default)
  readStringOr : ∀ k default,
    Answers (live k) k .string Value.string id default (e.readStringOr k default)

/-- A bag has as many entries of some sort as keys with a value of that sort. -/
theorem encard_keys_where (e : Extras) (sort : Value → Bool) :
    {k | ∃ v, e.get? k = some v ∧ sort v = true}.encard =
      e.toList.countP fun entry => sort entry.2 := by
  let chosen := e.toList.filter fun entry => sort entry.2
  have nodup : (chosen.map Prod.fst).Nodup := by
    have ascending : e.keys.Nodup := (pairwise_keys e).imp fun lt => ne_of_lt lt
    exact ascending.sublist (List.filter_sublist.map Prod.fst)
  have coe : {k | ∃ v, e.get? k = some v ∧ sort v = true} = ↑(chosen.map Prod.fst).toFinset := by
    ext k
    simp [chosen, get?, Entries.mem_toList_iff]
  rw [coe, Set.encard_coe_eq_coe_finsetCard, List.toFinset_card_of_nodup nodup, List.length_map,
    List.countP_eq_length_filter]

/-- A bag has as many entries as keys with a value. -/
theorem encard_keys (e : Extras) : {k | ∃ v, e.get? k = some v}.encard = e.size := by
  simpa [Entries.length_toList] using e.encard_keys_where fun _ => true

/-- A bag that holds the live bindings reflects them. -/
theorem Reflects.of_get? {live : String → Value → Prop} {e : Extras}
    (holds : ∀ k v, e.get? k = some v ↔ live k v) : Reflects live e where
  get? := holds
  exchange k new v := by rw [exchange_eq, holds]
  take k v := by rw [take_eq, holds]
  contains k := by simp only [Extras.contains, Option.isSome_iff_exists, holds]
  size := by simp only [← encard_keys, holds]
  toList k v := Entries.mem_toList_iff.trans (holds k v)
  keys := rfl
  ascending := (pairwise_keys e).imp fun lt => ⟨lt, Utf8.encode_lt_encode_iff.mpr lt⟩
  readInt k := extracts_int.answers_read (holds k)
  readLong k := extracts_long.answers_read (holds k)
  readDouble k := extracts_double.answers_read (holds k)
  readBool k := extracts_bool.answers_read (holds k)
  readString k := extracts_string.answers_read (holds k)
  readBundle k := extracts_bundle.answers_read (holds k)
  readIntOr k := (extracts_int.answers_read (holds k)).getD
  readBoolOr k := (extracts_bool.answers_read (holds k)).getD
  readStringOr k := (extracts_string.answers_read (holds k)).getD

/-- **After any operations a bag reflects the live bindings.** The last write to a key wins. -/
theorem reflects_live_after (operations : List Operation) :
    Reflects (Live (operations.flatMap Operation.effects)) (after operations) :=
  .of_get? fun _ _ => get?_after_iff

end Extras

end ImsCall
