import Zway.Ubj.ReaderProof

/-!
# Documents

What a UBJ document is, whoever wrote it: a tree whose nodes say under which marker they
stand, and whose containers say in which of the forms of the format they are. The writer of
this program uses a few of these only; the parser knows all of them.

`Node.encode` are the bytes of a document. `Node.Matches` says that a value is the tree of
the document, leaf by leaf: an integer is compared as a number, whatever its width.
-/

namespace Zway.Ubj

/-- A key, or the content of a string, under a length that can say how long it is. -/
structure Text where
  lengthType : LengthType
  bytes : Bytes
  fits : bytes.length < lengthType.bound

def Text.encode (s : Text) : Bytes := s.lengthType.encode s.bytes.length ++ s.bytes

/-- A value of a document. Floating point numbers are their bit patterns. -/
inductive Node where
  | null
  | bool (b : Bool)
  | char (c : UInt8)
  | string (s : Text)
  | highPrecision (s : Text)
  | int8 (i : BitVec 8)
  | uint8 (i : BitVec 8)
  | int16 (i : BitVec 16)
  | int32 (i : BitVec 32)
  | int64 (i : BitVec 64)
  | float32 (bits : BitVec 32)
  | float64 (bits : BitVec 64)
  | array (form : Form) (items : List Node)
  | object (form : Form) (fields : List (Text × Node))

namespace Node

/-- The marker of a value. -/
def type : Node → UbjType
  | .null => .nullType
  | .bool true => .boolTrue
  | .bool false => .boolFalse
  | .char _ => .char
  | .string _ => .string
  | .highPrecision _ => .highPrecision
  | .int8 _ => .int8
  | .uint8 _ => .uint8
  | .int16 _ => .int16
  | .int32 _ => .int32
  | .int64 _ => .int64
  | .float32 _ => .float32
  | .float64 _ => .float64
  | .array _ _ => .array
  | .object _ _ => .object

/-- In a container with a type the elements stand without their markers. -/
def marker (typ : UbjType) (v : Node) : Bytes :=
  if typ = .mixed then [ubjiTypecConvert v.type] else []

mutual

/-- The bytes of a value, behind its marker. -/
def payload : Node → Bytes
  | .null | .bool _ => []
  | .char c => [c]
  | .string s | .highPrecision s => s.encode
  | .int8 i | .uint8 i => beBytes 1 i.toNat
  | .int16 i => beBytes 2 i.toNat
  | .int32 i => beBytes 4 i.toNat
  | .int64 i => beBytes 8 i.toNat
  | .float32 bits => beBytes 4 bits.toNat
  | .float64 bits => beBytes 8 bits.toNat
  | .array form items =>
      form.opening items.length ++ payloads form.type items ++ form.closing 0x5D
  | .object form fields =>
      form.opening fields.length ++ payloadFields form.type fields ++ form.closing 0x7D

def payloads (typ : UbjType) : List Node → Bytes
  | [] => []
  | v :: vs => marker typ v ++ payload v ++ payloads typ vs

def payloadFields (typ : UbjType) : List (Text × Node) → Bytes
  | [] => []
  | (k, v) :: fs => k.encode ++ (marker typ v ++ payload v) ++ payloadFields typ fs

end

/-- The bytes of a document. -/
def encode (v : Node) : Bytes := ubjiTypecConvert v.type :: payload v

mutual

/-- **Well-formed documents.** Sizes can be said, the elements of a container have its type, and
the keys of an object are different. -/
def WellFormed : Node → Prop
  | .array form items => form.Fits items.length ∧ WellFormedItems form.type items
  | .object form fields => form.Fits fields.length ∧ (fields.map (·.1.bytes)).Nodup ∧
      WellFormedFields form.type fields
  | _ => True

def WellFormedItems (typ : UbjType) : List Node → Prop
  | [] => True
  | v :: vs => (typ = .mixed ∨ v.type = typ) ∧ WellFormed v ∧ WellFormedItems typ vs

def WellFormedFields (typ : UbjType) : List (Text × Node) → Prop
  | [] => True
  | (_, v) :: fs => (typ = .mixed ∨ v.type = typ) ∧ WellFormed v ∧ WellFormedFields typ fs

end

/-! ## The values of a document -/

/-- The number an integer leaf stands for. -/
def integer? : Node → Option Int
  | .int8 i => some i.toInt
  | .uint8 i => some i.toNat
  | .int16 i => some i.toInt
  | .int32 i => some i.toInt
  | .int64 i => some i.toInt
  | _ => none

end Node

/-- A NaN without its quiet bit. -/
def isSignalling (bits : BitVec 32) : Bool := isNaN32 bits && !bits.getLsbD 22

/-- The number a value is, if it is an integer. -/
def Value.integer? : Value → Option Int
  | .int32 i => some i.toInt
  | .int64 i => some i.toInt
  | _ => none

namespace Node

/-- A byte buffer is an array of small integers, each byte read as a signed number. -/
def MatchesBytes : List Node → Bytes → Prop
  | [], [] => True
  | v :: vs, b :: bs => v.integer? = some (BitVec.ofNat 8 b.toNat).toInt ∧ MatchesBytes vs bs
  | _, _ => False

mutual

/-- **A value is the tree of the document.** -/
def Matches : Node → Value → Prop
  | .null, val => val = .null
  | .bool b, val => val = .bool b
  | .char c, val => val = .string [c]
  | .string s, val => val = .string s.bytes
  | .highPrecision s, val => val = .string s.bytes
  | .int8 i, val => val.integer? = some i.toInt
  | .uint8 i, val => val.integer? = some (i.toNat : Int)
  | .int16 i, val => val.integer? = some i.toInt
  | .int32 i, val => val.integer? = some i.toInt
  | .int64 i, val => val.integer? = some i.toInt
  | .float32 bits, val => val = .float32 bits
  | .float64 bits, val => val = .float64 bits
  | .array _ items, val => match val with
    | .array vals => MatchesItems items vals
    | .buffer data => MatchesBytes items data
    | _ => False
  | .object _ fields, val => match val with
    | .object res => (∀ p ∈ res, p.1 ∈ fields.map (·.1.bytes)) ∧ MatchesFields fields res
    | _ => False

def MatchesItems : List Node → List Value → Prop
  | [], vals => vals = []
  | v :: vs, vals => match vals with
    | val :: vals => Matches v val ∧ MatchesItems vs vals
    | [] => False

/-- Every field is in the map. -/
def MatchesFields : List (Text × Node) → Object → Prop
  | [], _ => True
  | (k, v) :: fs, res => (match OrdMap.find? res k.bytes with
      | some val => Matches v val
      | none => False) ∧ MatchesFields fs res

end

/-! ## What becomes of it -/

mutual

/-- The parser keeps step with the document. It takes a size of zero for no size and reads on up
to a terminator, and for an array of containers without markers it takes all that is left. -/
def InStep : Node → Prop
  | .array form items => (form = .terminated ∨ items ≠ []) ∧ form.type ≠ .array ∧
      form.type ≠ .object ∧ InStepItems items
  | .object form fields => (form = .terminated ∨ fields ≠ []) ∧ InStepFields fields
  | _ => True

def InStepItems : List Node → Prop
  | [] => True
  | v :: vs => InStep v ∧ InStepItems vs

def InStepFields : List (Text × Node) → Prop
  | [] => True
  | (_, v) :: fs => InStep v ∧ InStepFields fs

end

mutual

/-- The C++ layer has a value for every part of the document. -/
def Intact : Node → Prop
  | .null | .bool _ | .int32 _ | .int64 _ | .float64 _ => True
  | .float32 bits => isSignalling bits = false
  | .string s => Carried s.bytes
  | .char _ | .highPrecision _ | .int8 _ | .uint8 _ | .int16 _ => False
  | .array form items => form.type = .int8 ∨ form.type = .mixed ∧ IntactItems items
  | .object _ fields => (∀ f ∈ fields, NulFree f.1.bytes) ∧ IntactFields fields

def IntactItems : List Node → Prop
  | [] => True
  | v :: vs => Intact v ∧ IntactItems vs

def IntactFields : List (Text × Node) → Prop
  | [] => True
  | (_, v) :: fs => Intact v ∧ IntactFields fs

end

def isContainer : Node → Bool
  | .array _ _ | .object _ _ => true
  | _ => false

/-- A document that is not refused for its root is read in step and whole. -/
def Survives (v : Node) : Prop := v.isContainer = true → v.InStep ∧ v.Intact

mutual

/-- How deep the parser recurses into a value: enough fuel for it. -/
def fuel : Node → Nat
  | .array _ items => fuelItems items + 8
  | .object _ fields => fuelFields fields + 8
  | _ => 8

def fuelItems : List Node → Nat
  | [] => 4
  | v :: vs => fuel v + fuelItems vs + 4

def fuelFields : List (Text × Node) → Nat
  | [] => 4
  | (_, v) :: fs => fuel v + fuelFields fs + 8

end

/-- **The reader loses nothing of a document**: whatever the memory behind it and the value that is
assigned to hold, it is refused or read as a value that is the tree of the document. -/
def ReadWhole (v : Node) : Prop :=
  ∀ (env : UbjrEnv) (val : Value) (fuel : Nat), v.fuel < fuel →
    ∃ ok res, Reader.read env fuel val v.encode = .ok (ok, res) ∧ (ok = true → v.Matches res)

end Node

end Zway.Ubj
