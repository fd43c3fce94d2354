import Zway.Lib.Bytes
import Zway.Lib.OrdMap

/-!
# UBJ values

`UBJ_TYPE`, the marker table, and the `Value` tree that the writer serialises and
the reader builds.

The source's `Value` is a type tag with up to three shared pointers. Its
constructors only ever produce the combinations below, so the tag and the payload
are one constructor here. Two readings are worth spelling out:

* an empty string never becomes a `UBJ_STRING`: `setString` refuses it and leaves
  the tag at `UBJ_NULLTYPE`, see `Value.ofString`;
* a `UBJ_ARRAY` without `m_arr` is `buffer`, holding the bytes of `m_buffer`. The
  empty list stands for both a missing and an empty buffer: every reader of the
  field goes through `bufferSize`, which is zero for both.
-/

namespace Zway.Ubj

/-- `UBJ_TYPE`. The last one is `UBJ_NUM_TYPES`, what an unknown marker maps to. -/
inductive UbjType where
  | mixed
  | nullType
  | noop
  | boolTrue
  | boolFalse
  | char
  | string
  | highPrecision
  | int8
  | uint8
  | int16
  | int32
  | int64
  | float32
  | float64
  | array
  | object
  | numTypes
  deriving Repr, DecidableEq

/-- `UBJI_TYPEC_convert`: `"\x00ZNTFCSHiUIlLdD[{"`. -/
def ubjiTypecConvert : UbjType → UInt8
  | .mixed => 0x00
  | .nullType => 0x5A
  | .noop => 0x4E
  | .boolTrue => 0x54
  | .boolFalse => 0x46
  | .char => 0x43
  | .string => 0x53
  | .highPrecision => 0x48
  | .int8 => 0x69
  | .uint8 => 0x55
  | .int16 => 0x49
  | .int32 => 0x6C
  | .int64 => 0x4C
  | .float32 => 0x64
  | .float64 => 0x44
  | .array => 0x5B
  | .object => 0x7B
  | .numTypes => 0x00

/-- `UBJI_TYPE_size`, the width of a type on the wire; `-1` where it has none. -/
def ubjiTypeSize : UbjType → Int
  | .nullType | .noop | .boolTrue | .boolFalse => 0
  | .char | .int8 | .uint8 => 1
  | .int16 => 2
  | .int32 | .float32 => 4
  | .string | .highPrecision | .int64 | .float64 => 8
  | .mixed | .array | .object | .numTypes => -1

/-- `UBJR_TYPE_localsize`, the width of a type in memory. -/
def ubjrTypeLocalsize : UbjType → Nat
  | .nullType | .noop | .boolTrue | .boolFalse | .numTypes => 0
  | .int8 | .uint8 => 1
  | .int16 => 2
  | .int32 | .float32 => 4
  | .char | .string | .highPrecision | .int64 | .float64 => 8
  | .array | .object => 40
  | .mixed => 48

/-- A UBJ value. Floating point numbers are their bit patterns. -/
inductive Value where
  | null
  | bool (b : Bool)
  | int32 (i : BitVec 32)
  | int64 (i : BitVec 64)
  | float32 (bits : BitVec 32)
  | float64 (bits : BitVec 64)
  | string (s : Bytes)
  | buffer (data : Bytes)
  | array (items : List Value)
  | object (fields : List (Bytes × Value))
  deriving Repr, Inhabited

/-- `UBJ::Object`, a `std::map<std::string, Value>`. -/
abbrev Object := List (Bytes × Value)

/-- The integer part of a float with `e` exponent and `m` fraction bits; none for infinities and
NaNs. -/
def truncFloat (e m bits : Nat) : Option Int :=
  let exponent := bits / 2 ^ m % 2 ^ e
  let fraction := bits % 2 ^ m
  let mantissa := if exponent = 0 then fraction else 2 ^ m + fraction
  let scale : Int := (max exponent 1 : Nat) - (2 ^ (e - 1) - 1 : Nat) - m
  let magnitude := if 0 ≤ scale then mantissa * 2 ^ scale.toNat else mantissa / 2 ^ (-scale).toNat
  if exponent = 2 ^ e - 1 then none
  else some (if bits / 2 ^ (m + e) % 2 = 1 then -magnitude else magnitude)

/-- The conversion of a float to an `int32_t`. Out of range it is what `cvttss2si` returns. -/
def floatToInt32 (n : Option Int) : BitVec 32 :=
  match n with
  | some n => if -2 ^ 31 ≤ n ∧ n < 2 ^ 31 then BitVec.ofInt 32 n else 0x80000000#32
  | none => 0x80000000#32

/-- The conversion of a float to an `int64_t`, like `floatToInt32`. -/
def floatToInt64 (n : Option Int) : BitVec 64 :=
  match n with
  | some n => if -2 ^ 63 ≤ n ∧ n < 2 ^ 63 then BitVec.ofInt 64 n else 0x8000000000000000#64
  | none => 0x8000000000000000#64

namespace Value

/-- `Value(const std::string&)`. An empty string leaves the value null. -/
def ofString (s : Bytes) : Value := if s.isEmpty then .null else .string s

/-- `Value::type`. -/
def type : Value → UbjType
  | .null => .nullType
  | .bool true => .boolTrue
  | .bool false => .boolFalse
  | .int32 _ => .int32
  | .int64 _ => .int64
  | .float32 _ => .float32
  | .float64 _ => .float64
  | .string _ => .string
  | .buffer _ => .array
  | .array _ => .array
  | .object _ => .object

/-- `Value::toInt`. A `bool` has no `m_buffer` and is zero like everything else that is no number. -/
def toInt : Value → BitVec 32
  | .int32 i => i
  | .int64 i => i.setWidth 32
  | .float32 bits => floatToInt32 (truncFloat 8 23 bits.toNat)
  | .float64 bits => floatToInt32 (truncFloat 11 52 bits.toNat)
  | _ => 0

/-- `Value::toLong`. -/
def toLong : Value → BitVec 64
  | .int32 i => i.signExtend 64
  | .int64 i => i
  | .float32 bits => floatToInt64 (truncFloat 8 23 bits.toNat)
  | .float64 bits => floatToInt64 (truncFloat 11 52 bits.toNat)
  | _ => 0

/-- `Object(const Value &)`. -/
def toObject : Value → List (Bytes × Value)
  | .object fields => fields
  | _ => []

/-- `Array(const Value &)`. -/
def toArray : Value → List Value
  | .array items => items
  | _ => []

/-- `Value::numItems`. -/
def numItems : Value → UInt32
  | .array items => UInt32.ofNat items.length
  | .object fields => UInt32.ofNat fields.length
  | _ => 0

end Value

end Zway.Ubj
