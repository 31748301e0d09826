import ImsCall.Wire.Reader

/-!
# Properties of all readers

There are two readers that look at the input: one cuts off a word and one a run. Every other reader
is a sequence of these, with values looked up and faults found between them. So a property that these
two have, and that a sequence has if its parts do, is one of all readers. The readers for what may
hold bags have it if the reader for the bags does.

The fault of a bag that nests too deep is left out. No item has it, and of the properties of interest
one says just that.

## Main definitions

* `Wire.Reader.Compositional` — a property that passes from parts to the whole

## Main results

* `Wire.Reader.Compositional.text`, `media`, … — what holds no bags has the property
* `Wire.Reader.Compositional.body`, `contentOf` — bags and profiles have it if nested bags do
-/

namespace ImsCall

namespace Wire

namespace Reader

/-- A property of readers that passes from the parts to the whole. -/
structure Compositional (P : (α : Type) → Reader α → Prop) : Prop where
  pure {α : Type} (a : α) : P α (pure a)
  throw {α : Type} {fault : ReadFault} (h : fault ≠ .tooDeep) : P α (throw fault)
  bind {α β : Type} {r : Reader α} {f : α → Reader β} :
    P α r → (∀ a, P β (f a)) → P β (r >>= f)
  word (width : Nat) : P Nat (word width)
  exactly (n : Nat) : P Bytes (exactly n)

namespace Compositional

variable {P : (α : Type) → Reader α → Prop} {α β : Type} {r : Reader α} {bag : Reader Extras}
  (hP : Compositional P)
include hP

theorem map (hr : P α r) (g : α → β) : P β (do return g (← r)) :=
  hP.bind hr fun a => hP.pure (g a)

/-! ### What holds no bags -/

theorem byte : P _ byte := hP.map (hP.word 1) _

theorem int32 : P _ int32 := hP.map (hP.word 4) _

theorem int64 : P _ int64 := hP.map (hP.word 8) _

theorem double : P _ double := hP.map (hP.word 8) _

theorem version : P _ version := hP.map (hP.word 2) _

theorem flag {bad : UInt8 → ReadFault} (h : ∀ b, bad b ≠ .tooDeep) : P _ (flag bad) := by
  refine hP.bind hP.byte fun b => ?_
  split
  · exact hP.pure false
  · exact hP.pure true
  · exact hP.throw (h b)

theorem bool : P _ bool := hP.flag fun _ => nofun

theorem run : P _ run := hP.bind (hP.word 8) hP.exactly

theorem text : P _ text := by
  refine hP.bind hP.run fun bytes => ?_
  split
  · exact hP.pure _
  · exact hP.throw nofun

theorem code [Coded α] : P α code := by
  refine hP.bind hP.int32 fun c => ?_
  split
  · exact hP.pure _
  · exact hP.throw nofun

theorem kind : P _ kind := by
  refine hP.bind (hP.word 4) fun tag => ?_
  split
  · exact hP.pure _
  · exact hP.throw nofun

theorem object : P _ object :=
  hP.bind hP.text fun _ => hP.map hP.run _

theorem media : P _ media :=
  hP.bind hP.code fun _ => hP.bind hP.code fun _ => hP.bind hP.int32 fun _ =>
    hP.bind hP.code fun _ => hP.map hP.code _

/-! ### What may hold bags -/

theorem replicateAfter (hr : P α r) (n : Nat) (done : List α) :
    P _ (replicateAfter r n done) := by
  induction n generalizing done with
  | zero => exact hP.pure _
  | succ n ih => exact hP.bind hr fun a => ih (a :: done)

theorem array (hr : P α r) : P _ (array r) :=
  hP.bind (hP.word 8) fun n => hP.replicateAfter hr n []

theorem valueOf (h : P _ bag) (k : Kind) : P _ (valueOf bag k) := by
  cases k with
  | int => exact hP.map hP.int32 _
  | long => exact hP.map hP.int64 _
  | double => exact hP.map hP.double _
  | bool => exact hP.map hP.bool _
  | string => exact hP.map hP.text _
  | ints => exact hP.map (hP.array hP.int32) _
  | longs => exact hP.map (hP.array hP.int64) _
  | doubles => exact hP.map (hP.array hP.double) _
  | bools => exact hP.map (hP.array hP.bool) _
  | strings => exact hP.map (hP.array hP.text) _
  | bundle => exact hP.map h _
  | object => exact hP.map hP.object _

theorem value (h : P _ bag) : P _ (value bag) :=
  hP.bind hP.kind (hP.valueOf h)

theorem entry (h : P _ bag) : P _ (entry bag) :=
  hP.bind hP.text fun _ => hP.map (hP.value h) _

theorem body (h : P _ bag) : P _ (body bag) :=
  hP.map (hP.array (hP.entry h)) _

theorem optionBag (h : P _ bag) : P _ (optionBag bag) := by
  refine hP.bind (hP.flag fun _ => nofun) fun present => ?_
  cases present with
  | false => exact hP.pure none
  | true => exact hP.map h _

theorem contentOf (h : P _ bag) : P _ (contentOf bag) :=
  hP.bind hP.version fun _ => hP.bind hP.int32 fun _ => hP.bind hP.int32 fun _ =>
    hP.bind (hP.optionBag h) fun _ => hP.map hP.media _

end Compositional

end Reader

end Wire

end ImsCall
