import ImsCall.Coded

/-!
# Identity presentation

Network signalling describes how a caller's identity may be presented with `Presentation`; a call
profile stores the originating identity restriction, `IdentityRule`, in its extras.

The two directions do not share a fallback: an unknown presentation code becomes the subscription
default, while an unknown rule, and the default itself, become an unknown presentation. So the
default never survives a round trip, and every other rule does.

## Main definitions

* `Presentation`, `IdentityRule` — the two enumerations
* `Presentation.rule`, `IdentityRule.presentation` — the two directions, for known values
* `IdentityRule.ofPresentationCode`, `Presentation.ofRuleCode` — the same for raw codes

## Main results

* `Presentation.presentation_rule`, `IdentityRule.rule_presentation` — what survives a round trip
-/

namespace ImsCall

/-- How the network says a number may be presented. -/
inductive Presentation where
  | allowed
  | restricted
  | unknown
  | payphone
  deriving DecidableEq, Repr

instance : Coded Presentation where
  kind := .presentation
  all := [.allowed, .restricted, .unknown, .payphone]
  code
    | .allowed => 1
    | .restricted => 2
    | .unknown => 3
    | .payphone => 4
  name
    | .allowed => "Allowed"
    | .restricted => "Restricted"
    | .unknown => "Unknown"
    | .payphone => "Payphone"
  find_code a := by cases a <;> rfl

/-- The originating identity restriction. -/
inductive IdentityRule where
  /-- As the subscription says. -/
  | subscription
  | restricted
  | notRestricted
  | unknown
  | payphone
  deriving DecidableEq, Repr

instance : Inhabited IdentityRule := ⟨.subscription⟩

instance : Coded IdentityRule where
  kind := .identityRule
  all := [.subscription, .restricted, .notRestricted, .unknown, .payphone]
  code
    | .subscription => 0
    | .restricted => 1
    | .notRestricted => 2
    | .unknown => 3
    | .payphone => 4
  name
    | .subscription => "Default"
    | .restricted => "Restricted"
    | .notRestricted => "NotRestricted"
    | .unknown => "Unknown"
    | .payphone => "Payphone"
  find_code a := by cases a <;> rfl

/-- The rule that a presentation asks for. -/
def Presentation.rule : Presentation → IdentityRule
  | .allowed => .notRestricted
  | .restricted => .restricted
  | .unknown => .unknown
  | .payphone => .payphone

/-- The presentation that a rule leads to; the subscription default is not known to the network. -/
def IdentityRule.presentation : IdentityRule → Presentation
  | .subscription => .unknown
  | .restricted => .restricted
  | .notRestricted => .allowed
  | .unknown => .unknown
  | .payphone => .payphone

/-- The rule for a raw presentation code; an unknown code leaves it to the subscription. -/
def IdentityRule.ofPresentationCode (c : Int32) : IdentityRule :=
  match (Coded.ofCode? c : Option Presentation) with
  | some p => p.rule
  | none => .subscription

/-- The presentation for a raw rule code; an unknown code is an unknown presentation. -/
def Presentation.ofRuleCode (c : Int32) : Presentation :=
  match (Coded.ofCode? c : Option IdentityRule) with
  | some r => r.presentation
  | none => .unknown

theorem Presentation.presentation_rule (p : Presentation) : p.rule.presentation = p := by
  cases p <;> rfl

theorem IdentityRule.rule_presentation {r : IdentityRule} (h : r ≠ .subscription) :
    r.presentation.rule = r := by
  cases r <;> first | rfl | exact absurd rfl h

end ImsCall
