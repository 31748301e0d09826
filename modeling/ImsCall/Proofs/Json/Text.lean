import ImsCall.Json.Parser
import ImsCall.Proofs.Json.Scan

/-!
# Reading JSON text is the inverse of writing it

A text is read in two steps: it is cut into tokens, and a machine with a stack puts these together.
Writing takes one step. In between stand the tokens that a value is written as, and either step of
the reader is compared with them: the written value is cut into its tokens, whatever stands before
and behind it, and from its tokens the machine completes the value, whatever it is part of.

Not every tree comes back. A fraction may be without digits, and a text may hold halves of surrogate
pairs that join when they are read. `Json.Plain` says that a tree is built of integers and
characters.

## Main definitions

* `Json.tokens` — the tokens that a value is written as
* `Json.Plain` — numbers are integers and texts are characters

## Main results

* `Json.run?_tokens` — a value is completed from its tokens
* `Json.Plain.scanned` — a written value is cut into its tokens
* `Json.Plain.parse?_render` — a written value is read back
-/

namespace ImsCall

namespace Json

mutual

/-- The tokens that a value is written as. -/
def tokens : Json → List Token
  | .null => [.null]
  | .bool b => [.bool b]
  | .number n => [.number n]
  | .text glyphs => [.text glyphs]
  | .array [] => [.openArray, .closeArray]
  | .array (item :: items) => .openArray :: (item.tokens ++ itemTokens items)
  | .object [] => [.openObject, .closeObject]
  | .object ((name, value) :: members) =>
    .openObject :: .text name :: .colon :: (value.tokens ++ memberTokens members)

/-- The tokens of further items of an array and of its end. -/
def itemTokens : List Json → List Token
  | [] => [.closeArray]
  | item :: items => .comma :: (item.tokens ++ itemTokens items)

/-- The tokens of further members of an object and of its end. -/
def memberTokens : List (List Glyph × Json) → List Token
  | [] => [.closeObject]
  | (name, value) :: members =>
    .comma :: .text name :: .colon :: (value.tokens ++ memberTokens members)

end

/-! ### From tokens to values -/

section Machine

variable {outer : List Frame} {more : List Token}

theorem State.run?_cons {s next : State} {token : Token} {ts : List Token}
    (h : s.step? token = some next) : s.run? (token :: ts) = next.run? ts := by
  rw [run?, h]

/-- The first token of a value does not end an array, so where the first item or the end may come
it is read as the first item. -/
theorem run?_firstItem (item : Json) :
    (State.firstItem outer).run? (item.tokens ++ more)
      = (State.value (.array [] :: outer)).run? (item.tokens ++ more) := by
  rcases item with _ | b | n | glyphs | items | members
  case array => cases items <;> rfl
  case object => cases members <;> rfl
  all_goals rfl

mutual

/-- **A value is completed from its tokens**, in whatever it is part of. -/
theorem run?_tokens : (j : Json) → (outer : List Frame) → (more : List Token) →
    (State.value outer).run? (j.tokens ++ more) = (State.complete j outer).run? more
  | .null, _, _ => rfl
  | .bool _, _, _ => rfl
  | .number _, _, _ => rfl
  | .text _, _, _ => rfl
  | .array [], _, _ => rfl
  | .array (item :: items), outer, more => by
    rw [tokens, List.cons_append, List.append_assoc, State.run?_cons rfl, run?_firstItem,
      run?_tokens item]
    exact run?_itemTokens items [item] outer more
  | .object [], _, _ => rfl
  | .object ((name, value) :: members), outer, more => by
    rw [tokens, List.cons_append, List.cons_append, List.cons_append, List.append_assoc,
      State.run?_cons rfl, State.run?_cons rfl, State.run?_cons rfl, run?_tokens value]
    exact run?_memberTokens members [] name value outer more

/-- An array is completed from the tokens of the items behind those in `done`. -/
theorem run?_itemTokens : (items done : List Json) → (outer : List Frame) →
    (more : List Token) → (State.after (.array done) outer).run? (itemTokens items ++ more)
      = (State.complete (.array (done.reverse ++ items)) outer).run? more
  | [], done, outer, more => by
    rw [List.append_nil]
    rfl
  | item :: items, done, outer, more => by
    rw [itemTokens, List.cons_append, List.append_assoc, State.run?_cons rfl, run?_tokens item]
    have rest := run?_itemTokens items (item :: done) outer more
    rwa [List.reverse_cons, List.append_assoc] at rest

/-- An object is completed from the tokens of the members behind those that are read. -/
theorem run?_memberTokens : (members done : List (List Glyph × Json)) → (name : List Glyph) →
    (value : Json) → (outer : List Frame) → (more : List Token) →
    (State.after (.object ((name, value) :: done) name) outer).run? (memberTokens members ++ more)
      = (State.complete (.object (done.reverse ++ (name, value) :: members)) outer).run? more
  | [], done, name, value, outer, more => by
    rw [← List.reverse_cons]
    rfl
  | (next, value') :: members, done, name, value, outer, more => by
    rw [memberTokens, List.cons_append, List.cons_append, List.cons_append, List.append_assoc,
      State.run?_cons rfl, State.run?_cons rfl, State.run?_cons rfl, run?_tokens value']
    have rest := run?_memberTokens members ((name, value) :: done) next value' outer more
    rwa [List.reverse_cons, List.append_assoc] at rest

end

theorem ofTokens?_tokens (j : Json) : ofTokens? j.tokens = some j := by
  have run := run?_tokens j [] []
  rw [List.append_nil] at run
  rw [ofTokens?, run]
  rfl

end Machine

/-! ### From texts to tokens -/

section Scan

variable {rest : List Char}

/-- A value that is built of integers and characters. -/
inductive Plain : Json → Prop
  | null : Plain .null
  | bool (b : Bool) : Plain (.bool b)
  | int (n : Int) : Plain (ofInt n)
  | text (s : String) : Plain (ofText s)
  | array (items : List Json) : (∀ item ∈ items, Plain item) → Plain (.array items)
  | object (members : List (List Glyph × Json)) :
    (∀ m ∈ members, ∃ s, m.1 = Glyph.ofText s) → (∀ m ∈ members, Plain m.2) →
      Plain (.object members)

/-- A written value is cut into its tokens, whatever stands before and behind it. -/
def Scanned (j : Json) : Prop :=
  ∀ (done : List Token) (rest : List Char), Delimited rest →
    Token.scanAfter done (renderOnto rest j) = Token.scanAfter (j.tokens.reverse ++ done) rest

theorem delimited_renderItemsOnto (items : List Json) : Delimited (renderItemsOnto rest items) := by
  cases items <;> rfl

theorem delimited_renderMembersOnto (members : List (List Glyph × Json)) :
    Delimited (renderMembersOnto rest members) := by
  cases members <;> rfl

theorem scanAfter_renderItemsOnto (items : List Json) (h : ∀ item ∈ items, item.Scanned)
    (done : List Token) (rest : List Char) :
    Token.scanAfter done (renderItemsOnto rest items)
      = Token.scanAfter ((itemTokens items).reverse ++ done) rest := by
  induction items generalizing done with
  | nil => exact scanAfter_punctuation rfl
  | cons item items ih =>
    obtain ⟨first, others⟩ := List.forall_mem_cons.mp h
    rw [renderItemsOnto, scanAfter_punctuation rfl, first _ _ (delimited_renderItemsOnto items),
      ih others, itemTokens, List.reverse_cons, List.reverse_append]
    simp only [List.append_assoc, List.cons_append, List.nil_append]

theorem scanAfter_member {name : List Glyph} {value : Json} (text : ∃ s, name = Glyph.ofText s)
    (h : value.Scanned) (done : List Token) (delimited : Delimited rest) :
    Token.scanAfter done (quoteOnto name (':' :: renderOnto rest value))
      = Token.scanAfter (value.tokens.reverse ++ .colon :: .text name :: done) rest := by
  obtain ⟨s, rfl⟩ := text
  rw [scanAfter_quoteOnto, scanAfter_punctuation rfl, h _ _ delimited]

theorem scanAfter_renderMembersOnto (members : List (List Glyph × Json))
    (h : ∀ m ∈ members, (∃ s, m.1 = Glyph.ofText s) ∧ m.2.Scanned)
    (done : List Token) (rest : List Char) :
    Token.scanAfter done (renderMembersOnto rest members)
      = Token.scanAfter ((memberTokens members).reverse ++ done) rest := by
  induction members generalizing done with
  | nil => exact scanAfter_punctuation rfl
  | cons member members ih =>
    obtain ⟨⟨text, first⟩, others⟩ := List.forall_mem_cons.mp h
    rw [renderMembersOnto, scanAfter_punctuation rfl,
      scanAfter_member text first _ (delimited_renderMembersOnto members), ih others, memberTokens]
    simp only [List.reverse_cons, List.reverse_append, List.append_assoc, List.cons_append,
      List.nil_append]

/-- **A written value is cut into its tokens.** -/
theorem Plain.scanned {j : Json} (h : j.Plain) : j.Scanned := by
  induction h with
  | null => exact fun _ _ _ => scanAfter_null
  | bool b =>
    cases b with
    | true => exact fun _ _ _ => scanAfter_true
    | false => exact fun _ _ _ => scanAfter_false
  | int n => exact fun _ _ delimited => scanAfter_ofInt n delimited
  | text s => exact fun _ _ _ => scanAfter_quoteOnto s
  | array items _ ih =>
    intro done rest _
    cases items with
    | nil => exact (scanAfter_punctuation rfl).trans (scanAfter_punctuation rfl)
    | cons item items =>
      obtain ⟨first, others⟩ := List.forall_mem_cons.mp ih
      rw [renderOnto, scanAfter_punctuation rfl, first _ _ (delimited_renderItemsOnto items),
        scanAfter_renderItemsOnto items others, tokens, List.reverse_cons, List.reverse_append]
      simp only [List.append_assoc, List.cons_append, List.nil_append]
  | object members texts _ ih =>
    intro done rest _
    have scanned : ∀ m ∈ members, (∃ s, m.1 = Glyph.ofText s) ∧ m.2.Scanned :=
      fun m mem => ⟨texts m mem, ih m mem⟩
    cases members with
    | nil => exact (scanAfter_punctuation rfl).trans (scanAfter_punctuation rfl)
    | cons member members =>
      obtain ⟨⟨text, first⟩, others⟩ := List.forall_mem_cons.mp scanned
      rw [renderOnto, scanAfter_punctuation rfl,
        scanAfter_member text first _ (delimited_renderMembersOnto members),
        scanAfter_renderMembersOnto members others, tokens]
      simp only [List.reverse_cons, List.reverse_append, List.append_assoc, List.cons_append,
        List.nil_append]

end Scan

/-- **A written value is read back.** -/
theorem Plain.parse?_render {j : Json} (h : j.Plain) : parse? j.render = some j := by
  have scan : Token.scan? j.render = some j.tokens := by
    rw [Token.scan?, render, String.toList_ofList, h.scanned [] [] trivial, List.append_nil,
      Token.scanAfter, List.reverse_reverse]
  rw [parse?, scan, Option.bind_some, ofTokens?_tokens]

end Json

end ImsCall
