import ImsCall.Profile
import ImsCall.Text.Utf8

/-!
# Profiles as bytes

The layout of a profile that leaves the process. All words are little-endian and of fixed width:

| item    | layout                                                                      |
|---------|-----------------------------------------------------------------------------|
| profile | version (2), service code (4), call code (4), option byte and bag, media    |
| media   | audio quality, audio direction, video bits, video direction, rtt mode (4 each) |
| bag     | number of entries (8), then each key as a text and its value                |
| value   | number of its kind (4), then its content                                    |
| text    | number of UTF-8 bytes (8), then the bytes; a payload likewise               |
| array   | number of elements (8), then the elements                                   |

The restrict cause stays behind.

## Main definitions

* `Wire.word`, `Wire.run`, `Wire.array` — the building blocks
* `Kind.tag`, `Kind.ofTag?` — the numbers of the kinds of value
* `Value.bytes`, `Extras.bytes`, `Profile.bytes` — the layout
* `Value.wireSize`, `Extras.wireSize`, `Profile.wireSize` — how many bytes it takes
-/

namespace ImsCall

namespace Wire

/-- The lowest bytes of a number, lowest first. -/
def word : (width n : Nat) → Bytes
  | 0, _ => []
  | width + 1, n => UInt8.ofNat n :: word width (n / 256)

@[simp] theorem length_word (width n : Nat) : (word width n).length = width := by
  induction width generalizing n with
  | zero => rfl
  | succ width ih => simp [word, ih]

/-- The number that bytes give, lowest first. -/
def ofWord : Bytes → Nat
  | [] => 0
  | b :: s => b.toNat + 256 * ofWord s

def int32 (n : Int32) : Bytes := word 4 n.toUInt32.toNat

def int64 (n : Int64) : Bytes := word 8 n.toUInt64.toNat

def double (d : Double) : Bytes := word 8 d.bits.toNat

def bool (b : Bool) : Bytes := [if b then 1 else 0]

/-- Bytes with their number in front. -/
def run (s : Bytes) : Bytes := word 8 s.length ++ s

def text (s : String) : Bytes := run (Utf8.encode s)

/-- Elements with their number in front. -/
def array {α : Type} (item : α → Bytes) (items : List α) : Bytes :=
  word 8 items.length ++ items.flatMap item

end Wire

/-- The number that stands for a kind of value. -/
def Kind.tag : Kind → Nat
  | .int => 0
  | .long => 1
  | .double => 2
  | .bool => 3
  | .string => 4
  | .ints => 5
  | .longs => 6
  | .doubles => 7
  | .bools => 8
  | .strings => 9
  | .bundle => 10
  | .object => 11

/-- The kind that a number stands for. -/
def Kind.ofTag? (n : Nat) : Option Kind := Kind.all.find? fun k => k.tag == n

@[simp] theorem Kind.ofTag?_tag (k : Kind) : Kind.ofTag? k.tag = some k := by
  cases k <;> rfl

theorem Kind.tag_of_ofTag? {n : Nat} {k : Kind} (h : Kind.ofTag? n = some k) : k.tag = n := by
  simpa using List.find?_some h

mutual

/-- The bytes of a value. -/
def Value.bytes : Value → Bytes
  | .int n => Wire.word 4 Kind.int.tag ++ Wire.int32 n
  | .long n => Wire.word 4 Kind.long.tag ++ Wire.int64 n
  | .double d => Wire.word 4 Kind.double.tag ++ Wire.double d
  | .bool b => Wire.word 4 Kind.bool.tag ++ Wire.bool b
  | .string s => Wire.word 4 Kind.string.tag ++ Wire.text s
  | .ints ns => Wire.word 4 Kind.ints.tag ++ Wire.array Wire.int32 ns
  | .longs ns => Wire.word 4 Kind.longs.tag ++ Wire.array Wire.int64 ns
  | .doubles ds => Wire.word 4 Kind.doubles.tag ++ Wire.array Wire.double ds
  | .bools bs => Wire.word 4 Kind.bools.tag ++ Wire.array Wire.bool bs
  | .strings ss => Wire.word 4 Kind.strings.tag ++ Wire.array Wire.text ss
  | .bundle bag => Wire.word 4 Kind.bundle.tag ++ (Wire.word 8 bag.size ++ bag.entryBytes)
  | .object o => Wire.word 4 Kind.object.tag ++ (Wire.text o.typeName ++ Wire.run o.payload)

/-- The bytes of entries, in order. -/
def Entries.entryBytes : {low : Option String} → Entries low → Bytes
  | _, .nil => []
  | _, .cons key _ value rest => Wire.text key ++ (value.bytes ++ rest.entryBytes)

end

/-- The bytes of a bag. -/
def Extras.bytes (e : Extras) : Bytes := Wire.word 8 e.size ++ e.entryBytes

/-- The bytes of a bag that may be absent. -/
def Extras.optionBytes : Option Extras → Bytes
  | none => [0]
  | some e => 1 :: e.bytes

/-- The bytes of a value carried as a code. -/
def Coded.bytes {α : Type} [Coded α] (a : α) : Bytes := Wire.int32 (Coded.code a)

/-- The bytes of a media profile. -/
def MediaProfile.bytes (m : MediaProfile) : Bytes :=
  Coded.bytes m.audioQuality ++ (Coded.bytes m.audioDirection ++ (Wire.int32 m.videoQuality.bits
    ++ (Coded.bytes m.videoDirection ++ Coded.bytes m.rttMode)))

/-- The bytes of a profile under a version. -/
def Profile.bytes (version : UInt16) (p : Profile) : Bytes :=
  Wire.word 2 version.toNat ++ (Coded.bytes p.service ++ (Coded.bytes p.call
    ++ (Extras.optionBytes p.extras ++ p.media.bytes)))

/-! ### Sizes

How many bytes each item takes, by arithmetic. -/

/-- The size of a text. -/
def Wire.textSize (s : String) : Nat := 8 + Utf8.size s

mutual

/-- The size of a value. -/
def Value.wireSize : Value → Nat
  | .int _ => 4 + 4
  | .long _ => 4 + 8
  | .double _ => 4 + 8
  | .bool _ => 4 + 1
  | .string s => 4 + Wire.textSize s
  | .ints ns => 4 + (8 + 4 * ns.length)
  | .longs ns => 4 + (8 + 8 * ns.length)
  | .doubles ds => 4 + (8 + 8 * ds.length)
  | .bools bs => 4 + (8 + bs.length)
  | .strings ss => 4 + (8 + ss.foldr (fun s n => Wire.textSize s + n) 0)
  | .bundle bag => 4 + (8 + bag.entrySize)
  | .object o => 4 + (Wire.textSize o.typeName + (8 + o.payload.length))

/-- The size of entries. -/
def Entries.entrySize : {low : Option String} → Entries low → Nat
  | _, .nil => 0
  | _, .cons key _ value rest => Wire.textSize key + value.wireSize + rest.entrySize

end

/-- The size of a bag. -/
def Extras.wireSize (e : Extras) : Nat := 8 + e.entrySize

/-- The size of a profile: its words, and its bag if it has one. -/
def Profile.wireSize (p : Profile) : Nat :=
  31 + match p.extras with
    | none => 0
    | some e => e.wireSize

end ImsCall
