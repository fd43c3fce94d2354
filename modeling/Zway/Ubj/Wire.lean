import Zway.Ubj.Writer

/-!
# The wire format

What a UBJ document looks like, stated on its own: `encode` says which bytes stand
for a value, without contexts, stacks or toggles. The writer is then proved to
produce these bytes, and the reader to take them apart again, so that neither
proof has to look at the other program.

`RoundTrip` is the class of values the format can carry: a leaf has a marker the
reader turns back into the same leaf, strings and keys survive being C strings,
and the fields of an object are in the order of a `std::map`.
-/

namespace Zway.Ubj

/-! ## The format -/

/-- An integer under the narrowest of the five markers that holds it. -/
def encodeInteger (i : BitVec 64) : Bytes :=
  if i.toInt.natAbs < 0x80 then 0x69 :: beBytes 1 i.toNat
  else if 0 < i.toInt ∧ i.toInt.natAbs < 0x100 then 0x55 :: beBytes 1 i.toNat
  else if i.toInt.natAbs < 0x8000 then 0x49 :: beBytes 2 i.toNat
  else if i.toInt.natAbs < 0x80000000 then 0x6C :: beBytes 4 i.toNat
  else 0x4C :: beBytes 8 i.toNat

/-- A length, which the writer passes on as an `int64_t`. -/
def encodeLength (n : Nat) : Bytes := encodeInteger (BitVec.ofNat 64 n)

/-- The markers a length or a size can stand under. -/
inductive LengthType where
  | int8
  | uint8
  | int16
  | int32
  | int64
  deriving Repr, DecidableEq

namespace LengthType

def type : LengthType → UbjType
  | .int8 => .int8
  | .uint8 => .uint8
  | .int16 => .int16
  | .int32 => .int32
  | .int64 => .int64

/-- The bytes behind the marker. -/
def width : LengthType → Nat
  | .int8 | .uint8 => 1
  | .int16 => 2
  | .int32 => 4
  | .int64 => 8

/-- Every length is below it: lengths are not negative. -/
def bound : LengthType → Nat
  | .int8 => 2 ^ 7
  | .uint8 => 2 ^ 8
  | .int16 => 2 ^ 15
  | .int32 => 2 ^ 31
  | .int64 => 2 ^ 63

def encode (l : LengthType) (n : Nat) : Bytes := ubjiTypecConvert l.type :: beBytes l.width n

end LengthType

/-- How a container says where it ends. Only a container with a size can have a type. -/
inductive Form where
  | terminated
  | sized (l : LengthType)
  | typed (t : UbjType) (l : LengthType)
  deriving Repr, DecidableEq

namespace Form

/-- The type of the elements; that of a container without a type is `mixed`. -/
def type : Form → UbjType
  | .typed t _ => t
  | _ => .mixed

/-- What stands in front of `n` elements. -/
def opening (n : Nat) : Form → Bytes
  | .terminated => []
  | .sized l => 0x23 :: l.encode n
  | .typed t l => 0x24 :: ubjiTypecConvert t :: 0x23 :: l.encode n

def closing (close : UInt8) : Form → Bytes
  | .terminated => [close]
  | _ => []

/-- A type that values have. -/
def IsMarker (t : UbjType) : Prop := t ≠ .mixed ∧ t ≠ .noop ∧ t ≠ .numTypes

/-- The size can be said, and the type is one. -/
def Fits (n : Nat) : Form → Prop
  | .terminated => True
  | .sized l => n < l.bound
  | .typed t l => n < l.bound ∧ IsMarker t

end Form

/-- A length stands under one of the integer markers. -/
theorem encodeLength_eq {n : Nat} (hn : n < 2 ^ 63) :
    ∃ l : LengthType, n < l.bound ∧ encodeLength n = l.encode n := by
  have hnat : (BitVec.ofNat 64 n).toNat = n := by
    rw [BitVec.toNat_ofNat, Nat.mod_eq_of_lt (by omega)]
  have hint : (BitVec.ofNat 64 n).toInt = n := by
    rw [BitVec.toInt_eq_toNat_of_lt (by omega), hnat]
  unfold encodeLength encodeInteger
  rw [hint, hnat, Int.natAbs_natCast]
  split_ifs with h1 h2 h3 h4
  · exact ⟨.int8, h1, rfl⟩
  · exact ⟨.uint8, h2.2, rfl⟩
  · exact ⟨.int16, h3, rfl⟩
  · exact ⟨.int32, h4, rfl⟩
  · exact ⟨.int64, hn, rfl⟩

/-- A key, or the content of a string. -/
def encodeString (s : Bytes) : Bytes := encodeLength s.length ++ s

/-- What follows the marker of a container: its size, or its terminator when it is empty. -/
def encodeBody (close : UInt8) (count : Nat) (content : Bytes) : Bytes :=
  if count = 0 then [close] else 0x23 :: encodeLength count ++ content

mutual

/-- The bytes of a value, marker first. -/
def encode : Value → Bytes
  | .null => [0x5A]
  | .bool b => [if b then 0x54 else 0x46]
  | .int32 i => 0x6C :: beBytes 4 i.toNat
  | .int64 i => 0x4C :: beBytes 8 i.toNat
  | .float32 bits => 0x64 :: beBytes 4 bits.toNat
  | .float64 bits => 0x44 :: beBytes 8 bits.toNat
  | .string s => 0x53 :: encodeString s
  | .buffer data =>
      if data.length = 0 then [0x5B, 0x5D]
      else 0x5B :: 0x24 :: 0x69 :: 0x23 :: encodeLength data.length ++ data
  | .array items => 0x5B :: encodeBody 0x5D items.length (encodeItems items)
  | .object fields => 0x7B :: encodeBody 0x7D fields.length (encodeFields fields)

def encodeItems : List Value → Bytes
  | [] => []
  | v :: vs => encode v ++ encodeItems vs

def encodeFields : List (Bytes × Value) → Bytes
  | [] => []
  | (k, v) :: fs => encodeString k ++ encode v ++ encodeFields fs

end

/-! ## Which values it carries -/

/-- Neither an infinity nor a number: a quiet or signalling NaN. -/
def isNaN32 (bits : BitVec 32) : Bool :=
  bits.toNat / 2 ^ 23 % 2 ^ 8 == 0xFF && bits.toNat % 2 ^ 23 != 0

def isNaN64 (bits : BitVec 64) : Bool :=
  bits.toNat / 2 ^ 52 % 2 ^ 11 == 0x7FF && bits.toNat % 2 ^ 52 != 0

/-- A string the format carries: `c_str()` and the length agree, and it is not null. -/
def Carried (s : Bytes) : Prop := s ≠ [] ∧ NulFree s

mutual

/-- **The round-trip class.** -/
inductive RoundTrip : Value → Prop where
  | null : RoundTrip .null
  | bool (b : Bool) : RoundTrip (.bool b)
  | int32 (i : BitVec 32) : RoundTrip (.int32 i)
  | int64 (i : BitVec 64) : RoundTrip (.int64 i)
  | float32 {bits : BitVec 32} : isNaN32 bits = false → RoundTrip (.float32 bits)
  | float64 {bits : BitVec 64} : isNaN64 bits = false → RoundTrip (.float64 bits)
  | string {s : Bytes} : Carried s → RoundTrip (.string s)
  | buffer {data : Bytes} : data ≠ [] → RoundTrip (.buffer data)
  | array {items : List Value} : RoundTripItems items → RoundTrip (.array items)
  | object {fields : List (Bytes × Value)} :
      OrdMap.Sorted fields → RoundTripFields fields → RoundTrip (.object fields)

inductive RoundTripItems : List Value → Prop where
  | nil : RoundTripItems []
  | cons {v : Value} {vs : List Value} :
      RoundTrip v → RoundTripItems vs → RoundTripItems (v :: vs)

inductive RoundTripFields : List (Bytes × Value) → Prop where
  | nil : RoundTripFields []
  | cons {k : Bytes} {v : Value} {fs : List (Bytes × Value)} :
      Carried k → RoundTrip v → RoundTripFields fs → RoundTripFields ((k, v) :: fs)

end

theorem mem_roundTripFields : ∀ {fs : Object}, RoundTripFields fs →
    ∀ f ∈ fs, Carried f.1 ∧ RoundTrip f.2
  | [], _, _, hm => absurd hm List.not_mem_nil
  | (_, _) :: _, .cons hk hv hfs, f, hm => by
      rcases List.mem_cons.mp hm with rfl | hm
      · exact ⟨hk, hv⟩
      · exact mem_roundTripFields hfs f hm

mutual

/-- Containers on the longest path; a byte buffer is one. -/
def depth : Value → Nat
  | .buffer _ => 1
  | .array items => depthItems items + 1
  | .object fields => depthFields fields + 1
  | _ => 0

def depthItems : List Value → Nat
  | [] => 0
  | v :: vs => max (depth v) (depthItems vs)

def depthFields : List (Bytes × Value) → Nat
  | [] => 0
  | (_, v) :: fs => max (depth v) (depthFields fs)

end

/-- Only an object or an array can be a document. -/
def Value.isContainer : Value → Bool
  | .buffer _ | .array _ | .object _ => true
  | _ => false

end Zway.Ubj
