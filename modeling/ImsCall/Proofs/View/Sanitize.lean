import ImsCall.Extras.Typed
import ImsCall.Proofs.Extras.Path
import ImsCall.Proofs.View.Basic

/-!
# Sanitizing and typed reading

No field of the view holds an object, and no typed reading asks for one. So what sanitizing takes
out of a bag is nothing to them: they read as nothing what is gone, and they read as nothing what
was there. Nested bags are the one kind of value that is read and that sanitizing changes, and
those it changes in their place.

The view of a sanitized bag is then the sanitized view. Rebuilding goes the same way, also where
the rebuilt bag overwrites something: an unapproved object under the usual spelling of the radio
technology is overwritten by the text under the second one before sanitizing, and after sanitizing
there is nothing to overwrite.

## Main definitions

* `Shape.strip`, `View.strip` — a field and a view without unapproved objects
* `Extras.ReadsAlike` — two bags whose plain typed readings agree
* `Extras.sanitized` — the bag that sanitizing yields

## Main results

* `Value.bind_strip?_eq`, `Shape.bind_strip?_read?` — what is read of a stripped value
* `Extras.view_strip`, `View.strip_applyTo` — stripping passes through the view and its rebuilding
* `Extras.sanitize_invisible` — typed readers and the view, before and after sanitizing
-/

namespace ImsCall

variable {p : Policy}

/-! ### Values -/

namespace Value

/-- What is read of neither bags nor objects is read of a stripped value as of the value. -/
theorem bind_strip?_eq {α : Type} {extract : Value → Option α}
    (noBundle : ∀ bag, extract (.bundle bag) = none) (noObject : ∀ o, extract (.object o) = none)
    (v : Value) : (v.strip? p).bind extract = extract v := by
  rcases v.bundle_or_object_or_plain with ⟨bag, rfl⟩ | ⟨o, rfl⟩ | ⟨isPlain, hasNoObject⟩
  · rw [strip?_bundle, Option.bind_some, noBundle, noBundle]
  · rw [strip?_object, noObject]
    split
    · exact noObject o
    · rfl
  · rw [strip?_of_no_object isPlain hasNoObject, Option.bind_some]

/-- The bag in a stripped value is the stripped bag. -/
theorem bind_strip?_bundle? (v : Value) :
    (v.strip? p).bind bundle? = v.bundle?.map fun bag => bag.strip p := by
  rcases v.plain_or_bundle with isPlain | ⟨bag, rfl⟩
  · rw [strip?_of_plain isPlain, isPlain]
    split
    · exact isPlain
    · rfl
  · rfl

end Value

/-! ### Fields -/

namespace Shape

/-- The value of a field without unapproved objects. -/
def strip (p : Policy) : (s : Shape) → s.Carrier → s.Carrier
  | .flag, b => b
  | .identityRule, r => r
  | .dialString, d => d
  | .text, t => t
  | .bundle, bag => Extras.strip bag p

theorem bind_strip?_read? (s : Shape) (v : Value) :
    (v.strip? p).bind s.read? = (s.read? v).map (s.strip p) := by
  have plain : ∀ {α : Type} (read : Value → Option α), (∀ bag, read (.bundle bag) = none) →
      (∀ o, read (.object o) = none) → (v.strip? p).bind read = (read v).map id := by
    intro α read noBundle noObject
    rw [Option.map_id, id, Value.bind_strip?_eq noBundle noObject]
  cases s with
  | bundle => exact v.bind_strip?_bundle?
  | _ => exact plain _ (fun _ => rfl) fun _ => rfl

/-- A field that is stored is kept, without the unapproved objects in it. -/
theorem strip?_write (s : Shape) (c : s.Carrier) :
    (s.write c).strip? p = some (s.write (s.strip p c)) := by
  cases s <;> rfl

end Shape

namespace Field

variable {f : Field}

theorem readAt?_strip (f : Field) (e : Extras) (k : String) :
    f.readAt? (e.strip p) k = (f.readAt? e k).map (f.shape.strip p) := by
  rw [readAt?, readAt?, Extras.get?_strip, Option.bind_assoc, Option.map_bind]
  exact congrArg _ (funext f.shape.bind_strip?_read?)

theorem read?_strip (f : Field) (e : Extras) :
    f.read? (e.strip p) = (f.read? e).map (f.shape.strip p) := by
  rw [read?_eq, read?_eq, readAt?_strip, readAt?_strip, Option.map_or, apply_ite (Option.map _)]
  rfl

/-- Stripping does not change where a field is read. -/
theorem source?_strip (f : Field) (e : Extras) : f.source? (e.strip p) = f.source? e := by
  rw [source?, source?]
  congr 1
  funext k
  rw [readAt?_strip, Option.isSome_map]

end Field

/-! ### Views -/

/-- A view without unapproved objects. -/
def View.strip (v : View) (p : Policy) : View where
  field f := (v.field f).map (f.shape.strip p)
  residual := v.residual.strip p

namespace Extras

/-- The same keys are left over, each with what stripping leaves of its value. -/
theorem residual_strip (e : Extras) : (e.strip p).residual = e.residual.strip p := by
  apply ext_get?
  intro k
  rw [get?_strip, residual, residual, get?_foldl_erase, get?_foldl_erase, get?_strip]
  simp only [Field.source?_strip]
  split <;> rfl

/-- **The view of a stripped bag is the stripped view.** -/
theorem view_strip (e : Extras) : (e.strip p).view = e.view.strip p :=
  congrArg₂ View.mk (funext fun f => f.read?_strip e) e.residual_strip

end Extras

namespace View

/-- Applying a view and stripping the bag is stripping both and applying. A field that is present
stays present, so it overwrites the same keys. -/
theorem strip_applyTo (v : View) (e : Extras) :
    (v.applyTo e).strip p = (v.strip p).applyTo (e.strip p) := by
  apply Extras.ext_get?
  intro k
  rw [Extras.get?_strip]
  by_cases known : ∃ f : Field, f.key = k
  · obtain ⟨f, rfl⟩ := known
    rw [get?_applyTo_key, get?_applyTo_key, Extras.get?_strip]
    change _ = (((v.field f).map (f.shape.strip p)).map f.shape.write).or _
    cases v.field f with
    | none => rfl
    | some c => exact f.shape.strip?_write c
  · have unknown := not_exists.mp known
    rw [get?_applyTo_of_forall_ne _ _ unknown, get?_applyTo_of_forall_ne _ _ unknown,
      Extras.get?_strip]

/-- Rebuilding a stripped view is stripping the rebuilt bag. -/
theorem toExtras_strip (v : View) : (v.strip p).toExtras = v.toExtras.strip p :=
  (v.strip_applyTo v.residual).symm

end View

/-! ### Typed readings -/

namespace Extras

/-- The plain typed readings of two bags yield the same at every key, with and without defaults. -/
structure ReadsAlike (a b : Extras) : Prop where
  int (key : String) : (a.readInt key).value = (b.readInt key).value
  long (key : String) : (a.readLong key).value = (b.readLong key).value
  double (key : String) : (a.readDouble key).value = (b.readDouble key).value
  bool (key : String) : (a.readBool key).value = (b.readBool key).value
  string (key : String) : (a.readString key).value = (b.readString key).value
  intOr (key : String) (default : Int32) :
    (a.readIntOr key default).value = (b.readIntOr key default).value
  boolOr (key : String) (default : Bool) :
    (a.readBoolOr key default).value = (b.readBoolOr key default).value
  stringOr (key default : String) :
    (a.readStringOr key default).value = (b.readStringOr key default).value

/-- A reading that passes over bags and objects yields the same of a stripped bag. -/
theorem value_read_strip {α : Type} {expected : Kind} {extract : Value → Option α}
    (noBundle : ∀ bag, extract (.bundle bag) = none) (noObject : ∀ o, extract (.object o) = none)
    (e : Extras) (p : Policy) (key : String) :
    ((e.strip p).read expected extract key).value = (e.read expected extract key).value := by
  rw [value_read, value_read, get?_strip, Option.bind_assoc]
  exact congrArg _ (funext (Value.bind_strip?_eq noBundle noObject))

theorem readsAlike_strip (e : Extras) (p : Policy) : (e.strip p).ReadsAlike e := by
  have int : ∀ key, ((e.strip p).readInt key).value = (e.readInt key).value :=
    value_read_strip (fun _ => rfl) (fun _ => rfl) e p
  have bool : ∀ key, ((e.strip p).readBool key).value = (e.readBool key).value :=
    value_read_strip (fun _ => rfl) (fun _ => rfl) e p
  have string : ∀ key, ((e.strip p).readString key).value = (e.readString key).value :=
    value_read_strip (fun _ => rfl) (fun _ => rfl) e p
  exact {
    int
    long := value_read_strip (fun _ => rfl) (fun _ => rfl) e p
    double := value_read_strip (fun _ => rfl) (fun _ => rfl) e p
    bool
    string
    intOr := fun key default => congrArg (Option.getD · default) (int key)
    boolOr := fun key default => congrArg (Option.getD · default) (bool key)
    stringOr := fun key default => congrArg (Option.getD · default) (string key) }

theorem value_readBundle_strip (e : Extras) (p : Policy) (key : String) :
    ((e.strip p).readBundle key).value = (e.readBundle key).value.map fun bag => bag.strip p := by
  rw [readBundle, readBundle, value_read, value_read, get?_strip, Option.bind_assoc,
    Option.map_bind]
  exact congrArg _ (funext Value.bind_strip?_bundle?)

/-- The bag that sanitizing yields. -/
def sanitized (e : Extras) (p : Policy) : Extras := (e.sanitize p).value.extras

/-- **Sanitizing is invisible to typed readers.** They read what they read before, and nested bags
as the sanitized bags. The view has the same fields, but for the nested bag among them, which is
sanitized as the residual is, and the bag that is rebuilt from the view is the sanitized one. -/
theorem sanitize_invisible (e : Extras) (p : Policy) :
    (e.sanitized p).ReadsAlike e ∧
      (∀ key, ((e.sanitized p).readBundle key).value =
        (e.readBundle key).value.map fun bag => bag.sanitized p) ∧
      (∀ f, f ≠ .vendorExtras → (e.sanitized p).view.field f = e.view.field f) ∧
      (e.sanitized p).view.field .vendorExtras =
        (e.view.field .vendorExtras).map (fun bag : Extras => bag.sanitized p) ∧
      (e.sanitized p).view.residual = e.view.residual.sanitized p ∧
      (e.sanitized p).view.toExtras = e.view.toExtras.sanitized p := by
  simp only [sanitized, extras_sanitize]
  refine ⟨e.readsAlike_strip p, e.value_readBundle_strip p, ?fields, ?vendor, ?residual, ?rebuilt⟩
  case fields =>
    intro f hf
    rw [view_strip]
    cases f
    case vendorExtras => exact absurd rfl hf
    all_goals exact Option.map_id_apply
  case vendor =>
    rw [view_strip]
    rfl
  case residual => exact e.residual_strip
  case rebuilt => rw [view_strip, View.toExtras_strip]

end Extras

end ImsCall
