import ImsCall.Logged

/-!
# Sanitizing a bag

Before extras leave the process, objects of unapproved types are taken out. Scalars, arrays and
nested bags may always pass; a nested bag is itself sanitized and never dropped, even when
nothing of it is left.

## Main definitions

* `Policy` — the namespaces of type names whose objects may pass
* `Extras.isSafe` — whether there is nothing to take out, at any depth
* `Extras.strip` — the bag without unapproved objects
* `Extras.sanitize` — both together: a safe bag is handed back as it is, otherwise the stripped
  bag is built and the number of entries that its top level lost is reported
-/

namespace ImsCall

/-- Which objects may leave the process. -/
structure Policy where
  /-- An object may pass if its type name starts with one of these. -/
  namespaces : List String := ["system.", "ims."]
  deriving DecidableEq, Repr, Inhabited

/-- Whether objects of a type may pass. -/
def Policy.approves (p : Policy) (typeName : String) : Bool :=
  p.namespaces.any fun ns => ns.toList.isPrefixOf typeName.toList

mutual

/-- Whether a value holds no unapproved object. -/
def Value.isSafe (p : Policy) : Value → Bool
  | .object o => p.approves o.typeName
  | .bundle bag => bag.isSafe p
  | _ => true

/-- Whether no entry holds an unapproved object, at any depth. -/
def Entries.isSafe (p : Policy) : {low : Option String} → Entries low → Bool
  | _, .nil => true
  | _, .cons _ _ value rest => value.isSafe p && rest.isSafe p

end

mutual

/-- A value without unapproved objects; nothing, if it is one itself. -/
def Value.strip? (p : Policy) : Value → Option Value
  | .object o => if p.approves o.typeName then some (.object o) else none
  | .bundle bag => some (.bundle (bag.strip p))
  | value => some value

/-- Entries without unapproved objects, at any depth. -/
def Entries.strip (p : Policy) : {low : Option String} → Entries low → Entries low
  | _, .nil => .nil
  | _, .cons key above value rest =>
    match value.strip? p with
    | some kept => .cons key above kept (rest.strip p)
    | none => (rest.strip p).weaken above

end

namespace Extras

/-- Whether a bag holds no unapproved object, at any depth. -/
def isSafe (e : Extras) (p : Policy) : Bool := Entries.isSafe p e

/-- A bag without unapproved objects, at any depth. -/
def strip (e : Extras) (p : Policy) : Extras := Entries.strip p e

/-- What sanitizing a bag yields. -/
structure Sanitized where
  extras : Extras
  /-- Whether the bag was handed back as it is. -/
  untouched : Bool

/-- Takes unapproved objects out of a bag and reports how many entries its top level lost. -/
def sanitize (e : Extras) (p : Policy) : Logged Sanitized :=
  if e.isSafe p then pure ⟨e, true⟩
  else
    let kept := e.strip p
    if e.size = kept.size then pure ⟨kept, false⟩
    else ⟨⟨kept, false⟩, [.removed (e.size - kept.size)]⟩

end Extras

end ImsCall
