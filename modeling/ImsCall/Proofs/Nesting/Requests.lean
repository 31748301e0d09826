import ImsCall.Proofs.Codec.Precedence
import ImsCall.Proofs.Nesting.Json
import ImsCall.Proofs.Nesting.Wire

/-!
# Requests that share a counter

Whole decodes, one after the other, that share one counter of open bags. A decode that fails inside
a bag leaves the counter to the next one, so a failure that did not close its bags would make later
requests fail that have nothing wrong with them. That never happens: whatever was asked before, every
request is answered as it is on its own.

## Main definitions

* `Codec.countedRead`, `Json.countedText` — whole decodes beside the counter
* `Request`, `Request.answer`, `Request.serve` — decodes on their own, and beside the counter

## Main results

* `Request.exists_moves_serve`, `Request.exists_moves_mapM_serve` — one request, and any number
* `Nesting.counter_balanced` — the counter is balanced on every path
-/

namespace ImsCall

open Extras (maxDepth)
open Nesting (Counter Counted Balanced Settles Agree)

/-! ### Whole decodes -/

namespace Wire

/-- The content of one profile, with nothing after it. -/
def countedContent (s : Bytes) : Counted ReadFault Content := do
  match ← CountedReader.content s with
  | (content, []) => return content
  | (_, _ :: _) => throw .trailing

theorem agree_countedContent (s : Bytes) :
    Agree .tooDeep 0 (countedContent s) (countedContent s) (readContent s) := by
  have parts : readContent s = Reader.content s >>= fun p =>
      match p with
      | (content, []) => .ok content
      | (_, _ :: _) => .error .trailing := by
    rw [readContent]
    rcases Reader.content s with fault | ⟨content, _ | ⟨b, rest⟩⟩ <;> rfl
  rw [parts]
  refine (CountedReader.agree_content s).bind fun p => ?_
  rcases p with ⟨content, _ | ⟨b, rest⟩⟩
  · exact .pure content
  · exact .throw (by decide)

end Wire

namespace Codec

/-- The content of a buffer, once its size and version are accepted. -/
def countedContent (c : Codec) (data : Bytes) : Counted Fault Wire.Content :=
  if c.maxSize < data.length then throw (.decoding (.oversized data.length c.maxSize))
  else
    match Wire.Reader.version data with
    | .error _ => throw (.decoding .missingHeader)
    | .ok (version, _) =>
      if version = wireVersion then
        ExceptT.adapt (fun fault => .decoding (.malformed fault)) (Wire.countedContent data)
      else throw (.unsupportedVersion version wireVersion)

/-- The profile in a buffer. -/
def countedRead (c : Codec) (data : Bytes) : Counted Fault Profile := do
  ofExcept (ofContent (← c.countedContent data))

theorem agree_countedContent (c : Codec) (data : Bytes) :
    Agree (.decoding (.malformed .tooDeep)) 0 (c.countedContent data) (c.countedContent data)
      (c.readContent data) := by
  rw [countedContent, readContent]
  by_cases large : c.maxSize < data.length
  · rw [if_pos large, if_pos large]
    exact .throw (by simp)
  rw [if_neg large, if_neg large]
  rcases Wire.Reader.version data with fault | ⟨version, rest⟩
  · exact .throw (by simp)
  show Agree _ 0 (if version = wireVersion then _ else _) (if version = wireVersion then _ else _)
    (if version = wireVersion then _ else _)
  by_cases ours : version = wireVersion
  · rw [if_pos ours, if_pos ours]
    exact (Wire.agree_countedContent data).adapt fun _ _ same =>
      DecodeFault.malformed.inj (Fault.decoding.inj same)
  · rw [if_neg ours, if_neg ours]
    exact .throw (by simp)

theorem agree_countedRead (c : Codec) (data : Bytes) :
    Agree (.decoding (.malformed .tooDeep)) 0 (c.countedRead data) (c.countedRead data)
      (c.read data) := by
  refine (c.agree_countedContent data).bind fun content => .ofExcept fun failed => ?_
  obtain ⟨kind, code, same⟩ := exists_unknownCode_of_ofContent failed
  cases same

end Codec

namespace Json

theorem agree_countedBag (feed : Feed) :
    Agree .tooDeep 0 (countedBag feed) (countedBag feed) (levelBag maxDepth feed) :=
  mirrors_readBag.agree (maxDepth + 1) (maxDepth + 1) (Nat.zero_le maxDepth) (by omega) (by omega)
    feed

end Json

/-! ### Requests -/

/-- A decode that is asked for. A JSON text comes with how it is handed over, which is as a whole
exactly if the text is well formed. -/
inductive Request where
  | wire (codec : Codec) (data : Bytes)
  | json (text : String) (feed : Json.Feed) (whole : feed.json? = Json.parse? text)

/-- What comes of a decode. -/
inductive Answer where
  | profile (outcome : Except Fault Profile)
  | bag (found : Option Extras)

namespace Request

/-- The answer to a request on its own, where the level of each bag is a parameter. -/
def answer : Request → Answer
  | .wire codec data => .profile (codec.read data)
  | .json text _ _ => .bag (JsonForm.ofText? text)

/-- The answer to a request beside the counter. -/
def serve : Request → StateM Counter Answer
  | .wire codec data => return .profile (← (codec.countedRead data).run)
  | .json _ feed _ => return .bag (← (Json.countedBag feed).run).toOption

/-- A request is answered as on its own, and the bags that it opened are closed. -/
theorem exists_moves_serve (r : Request) : ∃ moves, Balanced 0 moves ∧
    ∀ before, r.serve.run ⟨0, before⟩ = (r.answer, ⟨0, before ++ moves⟩) := by
  cases r with
  | wire codec data =>
    obtain ⟨moves, settles, -⟩ := codec.agree_countedRead data
    refine ⟨moves, settles.balanced, fun before => ?_⟩
    rw [serve, StateT.run_bind, settles.run]
    rfl
  | json text feed whole =>
    obtain ⟨moves, settles, -⟩ := Json.agree_countedBag feed
    have found : (Json.levelBag maxDepth feed).toOption = JsonForm.ofText? text := by
      rw [Json.toOption_levelBag, whole]
      rfl
    refine ⟨moves, settles.balanced, fun before => ?_⟩
    rw [serve, StateT.run_bind, settles.run, answer, ← found]
    rfl

/-- **So are any number of requests**, one after the other. -/
theorem exists_moves_mapM_serve (requests : List Request) : ∃ moves, Balanced 0 moves ∧
    ∀ before, (requests.mapM serve).run ⟨0, before⟩
      = (requests.map answer, ⟨0, before ++ moves⟩) := by
  induction requests with
  | nil => exact ⟨[], .nil 0, fun before => by rw [List.append_nil]; rfl⟩
  | cons r requests ih =>
    obtain ⟨first, balanced, served⟩ := r.exists_moves_serve
    obtain ⟨others, balanced', served'⟩ := ih
    refine ⟨first ++ others, balanced.append balanced', fun before => ?_⟩
    rw [List.mapM_cons, StateT.run_bind, served, ← List.append_assoc]
    show ((requests.mapM serve >>= fun answers => pure (r.answer :: answers)).run _ : Id _) = _
    rw [StateT.run_bind, served']
    rfl

end Request

/-! ### Every path -/

namespace Nesting

/-- **The counter is balanced on every path.** Every bag is read under the guard, on the wire and in
JSON. With so many open bags, reading a bag has the outcome of a reader that is told how many levels
are left, and whatever that is, as many bags are open again at the end. On the way the counter never
passes the limit and is never lowered at zero; a bag is refused where as many bags are open as may
be, and opened where there are fewer; and the outcome is the refusal exactly if a bag was refused.
So requests that share a counter are all answered as on their own. -/
theorem counter_balanced :
    ((∀ s : Bytes, Wire.CountedReader.bag s =
        guarded .tooDeep (Wire.CountedReader.body Wire.CountedReader.bag s)) ∧
      ∀ feed : Json.Feed,
        Json.countedBag feed = guarded .tooDeep (feed.readBag Json.countedBag)) ∧
    (∀ d ≤ maxDepth, ∀ s : Bytes, ∃ moves,
      Settles .tooDeep d (Wire.CountedReader.bag s) (Wire.Reader.bag (maxDepth - d) s) moves ∧
        ∀ m ∈ moves, m.Within) ∧
    (∀ d ≤ maxDepth, ∀ feed : Json.Feed, ∃ outcome moves,
      outcome.toOption = (feed.json?.bind fun j => Extras.ofJson? (maxDepth - d) j) ∧
        Settles .tooDeep d (Json.countedBag feed) outcome moves ∧ ∀ m ∈ moves, m.Within) ∧
    ∀ requests : List Request, ∃ moves,
      (requests.mapM Request.serve).run ⟨0, []⟩ = (requests.map Request.answer, ⟨0, moves⟩) ∧
        Balanced 0 moves ∧ ∀ m ∈ moves, m.Within := by
  refine ⟨⟨Wire.CountedReader.bag_eq, Json.countedBag_eq⟩, ?wire, ?json, ?requests⟩
  case wire =>
    intro d bound s
    obtain ⟨moves, settles⟩ := Wire.CountedReader.mirrors_bag.settles bound s
    exact ⟨moves, settles, settles.balanced.within⟩
  case json =>
    intro d bound feed
    obtain ⟨moves, settles⟩ := Json.mirrors_readBag.settles bound feed
    exact ⟨_, moves, Json.toOption_levelBag _ feed, settles, settles.balanced.within⟩
  case requests =>
    intro requests
    obtain ⟨moves, balanced, served⟩ := Request.exists_moves_mapM_serve requests
    exact ⟨moves, served [], balanced, balanced.within⟩

/-- With 31 open bags, a bag is opened and the one nested in it is refused, as the 33rd. -/
theorem counter_balanced_refusal :
    ∃ moves, Settles .tooDeep 31 (Wire.CountedReader.bag (Extras.wrap "k" 1 .empty).bytes)
      (.error .tooDeep) moves ∧ Move.refused 32 ∈ moves := by
  obtain ⟨-, wire, -, -⟩ := counter_balanced
  obtain ⟨moves, settles, within⟩ := wire 31 (by decide) (Extras.wrap "k" 1 .empty).bytes
  have tooDeep : Wire.Reader.bag (maxDepth - 31) (Extras.wrap "k" 1 .empty).bytes
      = .error .tooDeep := by
    cbv
  rw [tooDeep] at settles
  obtain ⟨n, mem⟩ := settles.refusal_iff.mp rfl
  obtain rfl : n = 32 := within _ mem
  exact ⟨moves, settles, mem⟩

end Nesting

end ImsCall
