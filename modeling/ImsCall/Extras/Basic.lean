import ImsCall.Bytes
import ImsCall.Double

/-!
# Call extras

An open bag of auxiliary call attributes: text keys, each with a value of one of twelve kinds.
The last write to a key wins and entries are kept in ascending order of their keys, which is the
order of code points and so also the order of the keys' UTF-8 bytes.

The order is part of the type. `Entries low` holds entries whose keys ascend strictly and all lie
above `low`; a bag is an `Entries` without a lower bound. So two bags, at any depth of nesting,
are equal as soon as they answer alike, and no operation has an invariant to keep up.

## Implementation notes

The bound is an index of the family and not an argument of each operation, so that removing an
entry weakens a bound and inserting one checks it, once each. Values and entries are one mutual
family; every operation on them is recursion on its constructors.

## Main definitions

* `Kind` — the twelve kinds of value, with the names diagnostics use
* `OpaqueObject` — an object carried by its type name and an uninterpreted payload
* `Value`, `Entries`, `Extras` — values and bags of values, which may nest
* `Extras.get?`, `Extras.insert`, `Extras.erase`, `Extras.extend`, `Extras.ofList` — the map
* `Extras.exchange`, `Extras.take` — writing and removing, with what the key held before
* `Extras.depth` — how deep bags nest
* `Extras.numericEq` — equality that compares doubles as numbers

## Main results

* `Entries.get?_insert`, `Entries.get?_erase` — the laws of the map
* `Entries.pairwise_toList` — keys ascend strictly
* `Entries.ext_get?` — equal answers make equal bags
-/

namespace ImsCall

/-- The kinds of value in a bag. -/
inductive Kind where
  | int
  | long
  | double
  | bool
  | string
  | ints
  | longs
  | doubles
  | bools
  | strings
  | bundle
  | object
  deriving DecidableEq, Repr

/-- Every kind, in order. -/
def Kind.all : List Kind :=
  [.int, .long, .double, .bool, .string, .ints, .longs, .doubles, .bools, .strings, .bundle,
    .object]

/-- The name of a kind in diagnostics. -/
def Kind.name : Kind → String
  | .int => "int"
  | .long => "long"
  | .double => "double"
  | .bool => "bool"
  | .string => "string"
  | .ints => "int[]"
  | .longs => "long[]"
  | .doubles => "double[]"
  | .bools => "bool[]"
  | .strings => "string[]"
  | .bundle => "bundle"
  | .object => "object"

/-- An object carried by its type name and an uninterpreted payload. -/
structure OpaqueObject where
  /-- The fully qualified name of the object's type. -/
  typeName : String
  /-- The encoded object. -/
  payload : Bytes
  deriving DecidableEq, Repr, Inhabited

/-- `Above low key` says that `key` lies above the bound, if there is one. -/
def Above : Option String → String → Prop
  | none, _ => True
  | some low, key => low < key

/-- Without a bound every key lies above. -/
theorem Above.unbounded (key : String) : Above none key := trivial

theorem Above.of_lt {low key : String} (h : low < key) : Above (some low) key := h

theorem Above.trans {low : Option String} {key next : String} (h : Above low key)
    (lt : key < next) : Above low next := by
  cases low with
  | none => trivial
  | some low => exact String.lt_trans h lt

mutual

/-- A value in a bag. -/
inductive Value where
  | int (n : Int32)
  | long (n : Int64)
  | double (d : Double)
  | bool (b : Bool)
  | string (s : String)
  | ints (ns : List Int32)
  | longs (ns : List Int64)
  | doubles (ds : List Double)
  | bools (bs : List Bool)
  | strings (ss : List String)
  /-- A nested bag. -/
  | bundle (bag : Entries none)
  | object (o : OpaqueObject)

/-- Entries in strictly ascending order of their keys, which all lie above the bound. -/
inductive Entries : Option String → Type where
  | nil {low : Option String} : Entries low
  | cons {low : Option String} (key : String) (above : Above low key) (value : Value)
      (rest : Entries (some key)) : Entries low

end

/-- A bag of call attributes. -/
abbrev Extras := Entries none

/-- How deep bags may nest when they leave or enter the process; the outermost is at depth 1. -/
def Extras.maxDepth : Nat := 32

namespace Value

/-- The kind of a value. -/
def kind : Value → Kind
  | .int _ => .int
  | .long _ => .long
  | .double _ => .double
  | .bool _ => .bool
  | .string _ => .string
  | .ints _ => .ints
  | .longs _ => .longs
  | .doubles _ => .doubles
  | .bools _ => .bools
  | .strings _ => .strings
  | .bundle _ => .bundle
  | .object _ => .object

def int? : Value → Option Int32
  | .int n => some n
  | _ => none

def long? : Value → Option Int64
  | .long n => some n
  | _ => none

def double? : Value → Option Double
  | .double d => some d
  | _ => none

def bool? : Value → Option Bool
  | .bool b => some b
  | _ => none

def string? : Value → Option String
  | .string s => some s
  | _ => none

def bundle? : Value → Option Extras
  | .bundle bag => some bag
  | _ => none

def object? : Value → Option OpaqueObject
  | .object o => some o
  | _ => none

end Value

/-! ### Entries -/

namespace Entries

instance {low : Option String} : Inhabited (Entries low) := ⟨.nil⟩

/-- The entries in order. -/
def toList : {low : Option String} → Entries low → List (String × Value)
  | _, .nil => []
  | _, .cons key _ value rest => (key, value) :: rest.toList

/-- The number of entries. -/
def size : {low : Option String} → Entries low → Nat
  | _, .nil => 0
  | _, .cons _ _ _ rest => rest.size + 1

/-- The value under a key. -/
def get? (wanted : String) : {low : Option String} → Entries low → Option Value
  | _, .nil => none
  | _, .cons key _ value rest => if wanted = key then some value else rest.get? wanted

/-- Entries above a key, put behind a lower bound. -/
def weaken {low : Option String} {key : String} (h : Above low key) :
    Entries (some key) → Entries low
  | .nil => .nil
  | .cons next lt value rest => .cons next (h.trans lt) value rest

private theorem above_of_not_lt {a b : String} (hlt : ¬ a < b) (hne : ¬ a = b) :
    Above (some b) a := by
  apply Above.of_lt
  rcases Std.le_iff_lt_or_eq.mp (String.not_lt.mp hlt) with h | h
  · exact h
  · exact absurd h.symm hne

/-- Writes a value under a key, in place of what the key held. -/
def insert (wanted : String) (new : Value) :
    {low : Option String} → Above low wanted → Entries low → Entries low
  | _, above, .nil => .cons wanted above new .nil
  | _, above, .cons key habove value rest =>
    if lt : wanted < key then .cons wanted above new (.cons key lt value rest)
    else if eq : wanted = key then .cons key habove new rest
    else .cons key habove value (rest.insert wanted new (above_of_not_lt lt eq))

/-- Removes what a key holds. -/
def erase (unwanted : String) : {low : Option String} → Entries low → Entries low
  | _, .nil => .nil
  | _, .cons key above value rest =>
    if unwanted = key then rest.weaken above else .cons key above value (rest.erase unwanted)

/-- Writes a value under a key, with what the key held before. -/
def exchange (wanted : String) (new : Value) :
    {low : Option String} → Above low wanted → Entries low → Option Value × Entries low
  | _, above, .nil => (none, .cons wanted above new .nil)
  | _, above, .cons key habove value rest =>
    if lt : wanted < key then (none, .cons wanted above new (.cons key lt value rest))
    else if eq : wanted = key then (some value, .cons key habove new rest)
    else
      let (old, rest) := rest.exchange wanted new (above_of_not_lt lt eq)
      (old, .cons key habove value rest)

/-- Removes what a key holds, with what that was. -/
def take (unwanted : String) : {low : Option String} → Entries low → Option Value × Entries low
  | _, .nil => (none, .nil)
  | _, .cons key above value rest =>
    if unwanted = key then (some value, rest.weaken above)
    else
      let (old, rest) := rest.take unwanted
      (old, .cons key above value rest)

@[simp] theorem toList_nil {low : Option String} : (nil : Entries low).toList = [] := rfl

@[simp] theorem toList_cons {low : Option String} (key : String) (above : Above low key)
    (value : Value) (rest : Entries (some key)) :
    (cons key above value rest).toList = (key, value) :: rest.toList := rfl

@[simp] theorem toList_weaken {low : Option String} {key : String} (h : Above low key)
    (e : Entries (some key)) : (e.weaken h).toList = e.toList := by
  cases e <;> rfl

@[simp] theorem get?_weaken {low : Option String} {key : String} (h : Above low key)
    (e : Entries (some key)) (k : String) : (e.weaken h).get? k = e.get? k := by
  cases e <;> rfl

theorem length_toList : {low : Option String} → (e : Entries low) → e.toList.length = e.size
  | _, .nil => rfl
  | _, .cons _ _ _ rest => by simp [toList, size, length_toList rest]

/-- Every key lies above the bound. -/
theorem above_of_mem : {low : Option String} → (e : Entries low) → {entry : String × Value} →
    entry ∈ e.toList → Above low entry.1
  | _, .nil, _, h => by simp at h
  | _, .cons key above _ rest, entry, h => by
    rcases List.mem_cons.mp h with rfl | h
    · exact above
    · exact above.trans (above_of_mem rest h)

/-- Keys ascend strictly. -/
theorem pairwise_toList : {low : Option String} → (e : Entries low) →
    e.toList.Pairwise (fun a b => a.1 < b.1)
  | _, .nil => by simp
  | _, .cons key _ value rest => by
    rw [toList_cons, List.pairwise_cons]
    exact ⟨fun _ h => above_of_mem rest h, pairwise_toList rest⟩

/-- A key with a value lies above the bound. -/
theorem above_of_get? : {low : Option String} → (e : Entries low) → {k : String} → {v : Value} →
    e.get? k = some v → Above low k
  | _, .nil, _, _, h => by simp [get?] at h
  | _, .cons key above _ rest, k, v, h => by
    rw [get?] at h
    split at h
    · next eq => exact eq ▸ above
    · exact above.trans (above_of_get? rest h)

/-- Nothing is found at or below a bound. -/
theorem get?_eq_none {low k : String} (e : Entries (some low)) (h : ¬ low < k) :
    e.get? k = none := by
  cases hk : e.get? k with
  | none => rfl
  | some v => exact absurd (above_of_get? e hk) h

theorem get?_insert (k : String) (v : Value) : {low : Option String} → (above : Above low k) →
    (e : Entries low) → (j : String) →
    (e.insert k v above).get? j = if j = k then some v else e.get? j
  | _, above, .nil, j => by simp [insert, get?]
  | _, above, .cons key habove value rest, j => by
    unfold insert
    split
    · next lt =>
      by_cases hj : j = k <;> simp [get?, hj]
    · split
      · next eq => subst eq; by_cases hj : j = k <;> simp [get?, hj]
      · next hlt hne =>
        simp only [get?]
        rw [get?_insert k v _ rest j]
        by_cases hj : j = key
        · subst hj; simp [Ne.symm hne]
        · simp [hj]

theorem get?_erase (k : String) : {low : Option String} → (e : Entries low) → (j : String) →
    (e.erase k).get? j = if j = k then none else e.get? j
  | _, .nil, j => by simp [erase, get?]
  | _, .cons key above value rest, j => by
    unfold erase
    split
    · next eq =>
      subst eq
      rw [get?_weaken]
      by_cases hj : j = k
      · subst hj; simp [get?_eq_none rest (String.lt_irrefl _)]
      · simp [get?, hj]
    · next hne =>
      simp only [get?]
      rw [get?_erase k rest j]
      by_cases hj : j = key
      · subst hj; simp [Ne.symm hne]
      · simp [hj]

/-- What a write replaces is what the key held. -/
theorem exchange_eq (k : String) (v : Value) : {low : Option String} → (above : Above low k) →
    (e : Entries low) → e.exchange k v above = (e.get? k, e.insert k v above)
  | _, _, .nil => rfl
  | _, above, .cons key habove value rest => by
    unfold exchange insert
    split
    · next lt =>
      have ne : k ≠ key := fun eq => String.lt_irrefl k (eq ▸ lt)
      have beyond : ¬ key < k := fun h => String.lt_irrefl k (String.lt_trans lt h)
      rw [get?, if_neg ne, get?_eq_none rest beyond]
    · split
      · next eq => rw [get?, if_pos eq]
      · next ne => rw [exchange_eq k v _ rest, get?, if_neg ne]

/-- What is taken out is what the key held. -/
theorem take_eq (k : String) : {low : Option String} → (e : Entries low) →
    e.take k = (e.get? k, e.erase k)
  | _, .nil => rfl
  | _, .cons key above value rest => by
    unfold take erase
    split
    · next eq => rw [get?, if_pos eq]
    · next ne => rw [take_eq k rest, get?, if_neg ne]

/-- Entries with a common bound that answer alike at every key are equal. -/
theorem ext_get? : {low : Option String} → {a b : Entries low} →
    (∀ k, a.get? k = b.get? k) → a = b
  | _, .nil, .nil, _ => rfl
  | _, .nil, .cons key _ _ _, h => by simpa [get?] using h key
  | _, .cons key _ _ _, .nil, h => by simpa [get?] using h key
  | _, .cons j habove v r, .cons k kabove w s, h => by
    have hjk : j = k := by
      have hj := h j
      have hk := h k
      simp only [get?, if_true] at hj hk
      by_cases eq : j = k
      · exact eq
      · rw [if_neg eq] at hj
        rw [if_neg (Ne.symm eq)] at hk
        have kj : k < j := above_of_get? s hj.symm
        have jk : j < k := above_of_get? r hk
        exact absurd (String.lt_trans kj jk) (String.lt_irrefl k)
    subst hjk
    have hv : v = w := by simpa [get?] using h j
    have hr : r = s := ext_get? fun k => by
      by_cases lt : j < k
      · have hk := h k
        have ne : k ≠ j := fun eq => String.lt_irrefl k (eq ▸ lt)
        simpa [get?, ne] using hk
      · rw [get?_eq_none r lt, get?_eq_none s lt]
    rw [hv, hr]

end Entries

/-! ### Bags -/

namespace Extras

/-- The bag without entries. -/
def empty : Extras := .nil

/-- The value under a key. -/
def get? (e : Extras) (key : String) : Option Value := Entries.get? key e

/-- Writes a value under a key, in place of what the key held. -/
def insert (e : Extras) (key : String) (value : Value) : Extras :=
  Entries.insert key value (.unbounded key) e

/-- Removes what a key holds. -/
def erase (e : Extras) (key : String) : Extras := Entries.erase key e

/-- Writes a value under a key, with what the key held before. -/
def exchange (e : Extras) (key : String) (value : Value) : Option Value × Extras :=
  Entries.exchange key value (.unbounded key) e

/-- Removes what a key holds, with what that was. -/
def take (e : Extras) (key : String) : Option Value × Extras := Entries.take key e

/-- Whether a key holds a value. -/
def contains (e : Extras) (key : String) : Bool := (e.get? key).isSome

/-- Writes entries in order, so that the last one for a key wins. -/
def extend (e : Extras) (entries : List (String × Value)) : Extras :=
  entries.foldl (fun bag entry => bag.insert entry.1 entry.2) e

/-- The bag of a list of entries; the last one for a key wins. -/
def ofList (entries : List (String × Value)) : Extras := empty.extend entries

/-- The keys in ascending order. -/
def keys (e : Extras) : List String := e.toList.map (·.1)

def isEmpty (e : Extras) : Bool := e.size == 0

@[simp] theorem get?_empty (k : String) : empty.get? k = none := rfl

@[simp] theorem get?_insert (e : Extras) (k : String) (v : Value) (j : String) :
    (e.insert k v).get? j = if j = k then some v else e.get? j :=
  Entries.get?_insert k v (.unbounded k) e j

@[simp] theorem get?_erase (e : Extras) (k j : String) :
    (e.erase k).get? j = if j = k then none else e.get? j :=
  Entries.get?_erase k e j

@[simp] theorem exchange_eq (e : Extras) (k : String) (v : Value) :
    e.exchange k v = (e.get? k, e.insert k v) :=
  Entries.exchange_eq k v (.unbounded k) e

@[simp] theorem take_eq (e : Extras) (k : String) : e.take k = (e.get? k, e.erase k) :=
  Entries.take_eq k e

/-- Bags that answer alike at every key are equal. -/
theorem ext_get? {a b : Extras} (h : ∀ k, a.get? k = b.get? k) : a = b := Entries.ext_get? h

@[simp] theorem extend_nil (e : Extras) : e.extend [] = e := rfl

@[simp] theorem extend_cons (e : Extras) (entry : String × Value)
    (entries : List (String × Value)) :
    e.extend (entry :: entries) = (e.insert entry.1 entry.2).extend entries := rfl

end Extras

/-! ### Nesting -/

mutual

/-- How deep bags nest inside a value. -/
def Value.depth : Value → Nat
  | .bundle bag => bag.depth
  | _ => 0

/-- How deep bags nest, these entries' own bag included. -/
def Entries.depth : {low : Option String} → Entries low → Nat
  | _, .nil => 1
  | _, .cons _ _ value rest => max (value.depth + 1) rest.depth

end

/-! ### Numeric equality -/

/-- Whether two lists of doubles agree as numbers, place by place. -/
def Double.allNumericEq : List Double → List Double → Bool
  | [], [] => true
  | a :: as, b :: bs => a.numericEq b && allNumericEq as bs
  | _, _ => false

mutual

/-- Equality of values that compares doubles as numbers. -/
def Value.numericEq : Value → Value → Bool
  | .int a, .int b => a == b
  | .long a, .long b => a == b
  | .double a, .double b => a.numericEq b
  | .bool a, .bool b => a == b
  | .string a, .string b => a == b
  | .ints a, .ints b => a == b
  | .longs a, .longs b => a == b
  | .doubles a, .doubles b => Double.allNumericEq a b
  | .bools a, .bools b => a == b
  | .strings a, .strings b => a == b
  | .bundle a, .bundle b => a.numericEq b
  | .object a, .object b => a == b
  | _, _ => false

/-- Equality of entries that compares doubles as numbers. -/
def Entries.numericEq : {low high : Option String} → Entries low → Entries high → Bool
  | _, _, .nil, .nil => true
  | _, _, .cons j _ v r, .cons k _ w s => j == k && v.numericEq w && r.numericEq s
  | _, _, _, _ => false

end

end ImsCall
