import ImsCall.Json.Profile
import ImsCall.Proofs.Nesting.Counter

/-!
# Bags in JSON, read beside a counter

A bag is read from its JSON form piece by piece: name, value, name, value, and a value again as a
name and what stands under it. So a bag that nests too deep is found before what stands behind it,
and it is told apart from a value that is no bag.

The text is handed over piece by piece as well, and it may go wrong anywhere, with any number of bags
open. A `Json.Feed` is a value as far as it is handed over: all of it, or what stands in front of the
place where the text goes wrong. As a text goes wrong in one place, there is at most one part of each
object that is not whole, the last one.

The pieces are put together in one way for every monad with such faults. Beside the counter that is
the counted reader. With the number of levels as a parameter it is a plain reader, and without its
faults that one is `Extras.ofJson?`.

## Main definitions

* `JsonFault` — why a JSON value is not read as a bag
* `Json.Feed` — a value as far as its text is handed over
* `Json.Feed.readBag` — a bag, given a reader for the bags nested in it
* `Json.levelBag`, `Json.countedBag` — bags by levels, and beside the counter

## Main results

* `Json.toOption_levelBag` — by levels, bags are read as by `Extras.ofJson?`
* `Json.mirrors_readBag` — beside the counter, bags mirror those by levels
-/

namespace ImsCall

/-- Why a JSON value is not read as a bag. -/
inductive JsonFault where
  /-- It is not the form of a bag. -/
  | malformed
  /-- Bags nest too deep. -/
  | tooDeep
  deriving DecidableEq, Repr

namespace Json

open Nesting (Counted)

/-- A value as far as its text is handed over. -/
inductive Feed where
  /-- All of it. -/
  | whole (j : Json)
  /-- The text goes wrong before anything of the value is handed over. -/
  | broken
  /-- The text of an object goes wrong behind these members. -/
  | cut (front : List (List Glyph × Json))
  /-- The text of an object goes wrong in the value of a member, behind these members. -/
  | inside (front : List (List Glyph × Json)) (name : List Glyph) (inner : Feed)

/-- The value, if all of it is handed over. -/
def Feed.json? : Feed → Option Json
  | .whole j => some j
  | _ => none

section Reading

variable {m : Type → Type} [Monad m] [MonadExceptOf JsonFault m] {α : Type}

/-- What is there, or the fault that nothing is. -/
def orMalformed : Option α → m α
  | some a => return a
  | none => throw .malformed

/-- The content of a value of some kind, given a reader for the bags nested in it. -/
def readContent (bag : Json → m Extras) (content : Json) (k : Kind) : m Value := do
  if k = .bundle then return .bundle (← bag content)
  else orMalformed (k.content? (fun _ => none) content)

/-- A value, given a reader for the bags nested in it. Nothing may stand behind its content. -/
def readValue (bag : Json → m Extras) : Json → m Value
  | .object ((name, content) :: more) => do
    let kind ← orMalformed ((Glyph.text? name).bind Kind.ofVariantName?)
    let v ← readContent bag content kind
    if more.isEmpty then return v else throw .malformed
  | _ => throw .malformed

/-- The entries that members of an object stand for. -/
def readMembers (bag : Json → m Extras) : List (List Glyph × Json) → m (List (String × Value))
  | [] => return []
  | (name, j) :: members => do
    let key ← orMalformed (Glyph.text? name)
    let v ← readValue bag j
    return (key, v) :: (← readMembers bag members)

/-- A bag, given a reader for the bags nested in it. -/
def readBag (bag : Json → m Extras) : Json → m Extras
  | .object members => return Extras.ofList (← readMembers bag members)
  | _ => throw .malformed

/-- Reading goes on until the text goes wrong. -/
def untilBroken {β : Type} (x : m α) : m β := do
  let _ ← x
  throw .malformed

namespace Feed

variable (bag : Feed → m Extras)

/-- The content of a value of some kind, in which the text goes wrong. -/
def readInside (name : List Glyph) (inner : Feed) : m Extras := do
  if (← orMalformed ((Glyph.text? name).bind Kind.ofVariantName?)) = .bundle then bag inner
  else throw .malformed

/-- A value, as far as it is handed over. -/
def readValue : Feed → m Value
  | .whole j => Json.readValue (fun j => bag (.whole j)) j
  | .broken | .cut [] => throw .malformed
  | .inside [] name inner => untilBroken (readInside bag name inner)
  | .cut ((name, content) :: _) | .inside ((name, content) :: _) _ _ =>
    untilBroken (Json.readValue (fun j => bag (.whole j)) (.object [(name, content)]))

/-- A bag, as far as it is handed over, given a reader for the bags nested in it. -/
def readBag : Feed → m Extras
  | .whole j => Json.readBag (fun j => bag (.whole j)) j
  | .broken => throw .malformed
  | .cut front => untilBroken (readMembers (fun j => bag (.whole j)) front)
  | .inside front name inner => untilBroken do
    let _ ← readMembers (fun j => bag (.whole j)) front
    let _ ← orMalformed (Glyph.text? name)
    readValue bag inner

end Feed

end Reading

/-- A bag that may nest so many levels, its own included. -/
def levelBag : Nat → Feed → Except JsonFault Extras
  | 0, _ => throw .tooDeep
  | levels + 1, feed => feed.readBag (levelBag levels)

/-- A bag. The counter says whether it may be opened. -/
def countedBag : Feed → Counted JsonFault Extras :=
  Nesting.counted .tooDeep fun bag feed => feed.readBag bag

/-! ### By levels -/

section Levels

variable {α β : Type}

theorem toOption_bind (x : Except JsonFault α) (f : α → Except JsonFault β) :
    (x >>= f).toOption = x.toOption.bind fun a => (f a).toOption := by
  cases x <;> rfl

theorem toOption_orMalformed (o : Option α) :
    (orMalformed o : Except JsonFault α).toOption = o := by
  cases o <;> rfl

variable {bag : Json → Except JsonFault Extras} {bag? : Json → Option Extras}

theorem toOption_readContent (h : ∀ j, (bag j).toOption = bag? j) (content : Json) (k : Kind) :
    (readContent bag content k).toOption = k.content? bag? content := by
  rw [readContent]
  split
  · next isBundle =>
    rw [isBundle, toOption_bind, h]
    rfl
  · next isPlain =>
    rw [toOption_orMalformed]
    cases k with
    | bundle => exact absurd rfl isPlain
    | _ => rfl

theorem members?_cons (name : List Glyph) (j : Json) (members : List (List Glyph × Json)) :
    (object ((name, j) :: members)).members? =
      (Glyph.text? name).bind fun key =>
        (object members).members?.map fun named => (key, j) :: named := by
  show ((name, j) :: members).mapM _ = _
  rw [List.mapM_cons]
  show Option.bind (Option.bind (Glyph.text? name) _) _ = _
  rw [Option.bind_assoc]
  refine congrArg _ (funext fun key => ?_)
  show Option.bind ((object members).members?) _ = _
  rw [Option.map_eq_bind]
  rfl

theorem ofJson?_singleton (name : List Glyph) (content : Json) :
    Value.ofJson? bag? (.object [(name, content)]) =
      ((Glyph.text? name).bind Kind.ofVariantName?).bind fun k => k.content? bag? content := by
  rw [Value.ofJson?, members?_cons]
  cases Glyph.text? name <;> rfl

/-- An object with more than one member stands for no value. -/
theorem ofJson?_cons_cons (member next : List Glyph × Json) (more : List (List Glyph × Json)) :
    Value.ofJson? bag? (.object (member :: next :: more)) = none := by
  rw [Value.ofJson?, members?_cons, members?_cons]
  cases Glyph.text? member.1 with
  | none => rfl
  | some _ =>
    cases Glyph.text? next.1 with
    | none => rfl
    | some _ => cases (object more).members? <;> rfl

theorem toOption_readValue (h : ∀ j, (bag j).toOption = bag? j) (j : Json) :
    (readValue bag j).toOption = Value.ofJson? bag? j := by
  match j with
  | .object [(name, content)] =>
    rw [readValue, ofJson?_singleton, toOption_bind, toOption_orMalformed]
    refine congrArg _ (funext fun k => ?_)
    rw [toOption_bind, toOption_readContent h]
    exact Option.bind_fun_some _
  | .object ((name, content) :: next :: more) =>
    rw [readValue, ofJson?_cons_cons, toOption_bind]
    refine Option.bind_eq_none_iff.mpr fun k _ => ?_
    rw [toOption_bind]
    exact Option.bind_fun_none _
  | .object [] | .array _ | .text _ | .number _ | .bool _ | .null => rfl

theorem toOption_readMembers (h : ∀ j, (bag j).toOption = bag? j)
    (members : List (List Glyph × Json)) :
    (readMembers bag members).toOption = (do
      let named ← (Json.object members).members?
      named.mapM fun m => return (m.1, ← Value.ofJson? bag? m.2)) := by
  induction members with
  | nil => rfl
  | cons member members ih =>
    obtain ⟨name, j⟩ := member
    rw [readMembers, members?_cons, toOption_bind, toOption_orMalformed]
    simp only [toOption_bind, toOption_readValue h, ih]
    cases Glyph.text? name with
    | none => rfl
    | some key =>
      cases (object members).members? with
      | none => cases Value.ofJson? bag? j <;> rfl
      | some named =>
        simp only [Option.bind_eq_bind, Option.bind_some, Option.map_some, List.mapM_cons]
        cases Value.ofJson? bag? j <;> rfl

theorem toOption_readBag (h : ∀ j, (bag j).toOption = bag? j) (j : Json) :
    (readBag bag j).toOption = (do
      let entries ← (← j.members?).mapM fun m => return (m.1, ← Value.ofJson? bag? m.2)
      return Extras.ofList entries) := by
  cases j with
  | object members =>
    rw [readBag, toOption_bind, toOption_readMembers h]
    cases (Json.object members).members? <;> rfl
  | _ => rfl

theorem toOption_untilBroken (x : Except JsonFault α) :
    (untilBroken x : Except JsonFault β).toOption = none := by
  cases x <;> rfl

/-- **By levels, bags are read as without faults**, and none is if the text goes wrong. -/
theorem toOption_levelBag (levels : Nat) (feed : Feed) :
    (levelBag levels feed).toOption = feed.json?.bind fun j => Extras.ofJson? levels j := by
  induction levels generalizing feed with
  | zero => cases feed <;> rfl
  | succ levels ih =>
    cases feed with
    | whole j => exact toOption_readBag (fun j => ih (.whole j)) j
    | broken => rfl
    | cut front => exact toOption_untilBroken _
    | inside front name inner => exact toOption_untilBroken _

end Levels

/-! ### Beside the counter -/

section Counter

open Nesting (Agree)

variable {α β : Type} {d : Nat} {x y : Json → Counted JsonFault Extras}
  {r : Json → Except JsonFault Extras}

theorem agree_orMalformed (o : Option α) :
    Agree .tooDeep d (orMalformed o : Counted JsonFault α) (orMalformed o) (orMalformed o) := by
  cases o with
  | none => exact .throw nofun
  | some a => exact .pure a

theorem agree_malformed :
    Agree .tooDeep d (throw .malformed : Counted JsonFault α) (throw .malformed)
      (throw .malformed) :=
  agree_orMalformed none

theorem agree_readContent (h : ∀ j, Agree .tooDeep d (x j) (y j) (r j)) (content : Json)
    (k : Kind) :
    Agree .tooDeep d (readContent x content k) (readContent y content k)
      (readContent r content k) := by
  rw [readContent, readContent, readContent]
  split
  · exact (h content).bind fun bag => .pure (Value.bundle bag)
  · exact agree_orMalformed _

theorem agree_readValue (h : ∀ j, Agree .tooDeep d (x j) (y j) (r j)) (j : Json) :
    Agree .tooDeep d (readValue x j) (readValue y j) (readValue r j) := by
  match j with
  | .object ((name, content) :: more) =>
    refine (agree_orMalformed _).bind fun kind => (agree_readContent h content kind).bind fun v => ?_
    split
    · exact .pure v
    · exact agree_malformed
  | .object [] | .array _ | .text _ | .number _ | .bool _ | .null => exact agree_malformed

theorem agree_readMembers (h : ∀ j, Agree .tooDeep d (x j) (y j) (r j))
    (members : List (List Glyph × Json)) :
    Agree .tooDeep d (readMembers x members) (readMembers y members) (readMembers r members) := by
  induction members with
  | nil => exact .pure []
  | cons member members ih =>
    exact (agree_orMalformed _).bind fun key => (agree_readValue h member.2).bind fun v =>
      ih.bind fun entries => .pure ((key, v) :: entries)

theorem agree_readBag (h : ∀ j, Agree .tooDeep d (x j) (y j) (r j)) (j : Json) :
    Agree .tooDeep d (readBag x j) (readBag y j) (readBag r j) := by
  cases j with
  | object members => exact (agree_readMembers h members).bind fun entries => .pure _
  | _ => exact agree_malformed

theorem agree_untilBroken {a b : Counted JsonFault α} {outcome : Except JsonFault α}
    (h : Agree .tooDeep d a b outcome) :
    Agree .tooDeep d (untilBroken a : Counted JsonFault β) (untilBroken b)
      (untilBroken outcome) :=
  h.bind fun _ => agree_malformed

section Feeds

variable {x y : Feed → Counted JsonFault Extras} {r : Feed → Except JsonFault Extras}

theorem agree_readInside (h : ∀ feed, Agree .tooDeep d (x feed) (y feed) (r feed))
    (name : List Glyph) (inner : Feed) :
    Agree .tooDeep d (Feed.readInside x name inner) (Feed.readInside y name inner)
      (Feed.readInside r name inner) := by
  refine (agree_orMalformed _).bind fun kind => ?_
  split
  · exact h inner
  · exact agree_malformed

theorem agree_feed_readValue (h : ∀ feed, Agree .tooDeep d (x feed) (y feed) (r feed))
    (feed : Feed) :
    Agree .tooDeep d (feed.readValue x) (feed.readValue y) (feed.readValue r) := by
  have whole := agree_readValue fun j => h (.whole j)
  match feed with
  | .whole j => exact whole j
  | .broken | .cut [] => exact agree_malformed
  | .inside [] name inner => exact agree_untilBroken (agree_readInside h name inner)
  | .cut ((name, content) :: _) | .inside ((name, content) :: _) _ _ =>
    exact agree_untilBroken (whole _)

/-- **Beside the counter, bags mirror those by levels**, as far as they are handed over. -/
theorem mirrors_readBag :
    Nesting.Mirrors .tooDeep (fun bag feed => Feed.readBag bag feed) levelBag where
  zero _ := rfl
  succ h feed := by
    have members := agree_readMembers fun j => h (.whole j)
    cases feed with
    | whole j => exact agree_readBag (fun j => h (.whole j)) j
    | broken => exact agree_malformed
    | cut front => exact agree_untilBroken (members front)
    | inside front name inner =>
      exact agree_untilBroken ((members front).bind fun _ => (agree_orMalformed _).bind fun _ =>
        agree_feed_readValue h inner)

/-- **Every bag is read under the guard**, whatever the counter says. -/
theorem countedBag_eq (feed : Feed) :
    countedBag feed = Nesting.guarded .tooDeep (feed.readBag countedBag) :=
  mirrors_readBag.counted_eq feed

end Feeds

end Counter

end Json

end ImsCall
