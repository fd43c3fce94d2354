import Zway.Ubj.Value
import Zway.Lib.Search

/-!
# The UBJ reader

`ubjr.c` parses the bytes into a tree of `ubjr_dynamic_t`, and `Reader` turns that
tree into a `Value`.

The parser trusts its input, so three things are made explicit that the source
leaves to chance:

* `mempeek` dereferences `fp->current` without looking at `fp->end`, and
  `priv_ubjr_context_getc` returns an uninitialised byte at the end of the data.
  `UbjrEnv` supplies both bytes, and a peek at the end is recorded in the context;
* a length is whatever integer was read. A length that no allocation can serve, or
  that makes the source write outside what it allocated, ends the parse in
  `UbjrFault.memory`;
* nothing bounds the recursion or the loops. They run on fuel, and running out of
  it is `UbjrFault.fuel`: the source is still running.
-/

namespace Zway.Ubj

/-- Why a parse has no result. -/
inductive UbjrFault where
  | fuel
  | memory
  deriving Repr, DecidableEq

/-- What the parser reads where there is no data. -/
structure UbjrEnv where
  /-- The byte behind the data. -/
  past : UInt8
  /-- Uninitialised memory, by the number of bytes read before. -/
  uninit : Nat → UInt8

/-- `struct ubjr_context_t_s` over a `struct mem_r_fd`: the bytes from `current` to `end`. -/
structure UbjrContext where
  rest : Bytes
  totalRead : Nat
  /-- Whether a peek has looked at `*fp->end`. -/
  peekedPast : Bool
  deriving Repr, DecidableEq

/-- `ubjr_open_memory`. -/
def ubjrOpenMemory (data : Bytes) : UbjrContext :=
  { rest := data, totalRead := 0, peekedPast := false }

/-- `ubjr_dynamic_t`. A float is kept as its own bit pattern: `real` is a `double`, and every
float is one. The elements of a container are what `priv_ubjr_pointer_to_dynamic` reads back. -/
inductive UbjrDynamic where
  | null
  | noop
  | bool (b : Bool)
  | text (type : UbjType) (s : Bytes)
  | integer (type : UbjType) (n : Int)
  | float32 (bits : BitVec 32)
  | float64 (bits : BitVec 64)
  | array (type : UbjType) (values : List UbjrDynamic)
  | object (type : UbjType) (keys : List Bytes) (values : List UbjrDynamic)
  /-- A type whose payload nobody looks at. -/
  | other (type : UbjType)
  deriving Repr, Inhabited

abbrev UbjrM := StateT UbjrContext (Except UbjrFault)

/-- An allocation beyond the user address space fails. -/
def mallocLimit : Nat := 2 ^ 47

section Parser

variable (env : UbjrEnv)

def privUbjrContextGetc : UbjrM UInt8 := fun ctx =>
  match ctx.rest with
  | a :: rest => .ok (a, { ctx with rest := rest, totalRead := ctx.totalRead + 1 })
  | [] => .ok (env.uninit ctx.totalRead, { ctx with totalRead := ctx.totalRead + 1 })

def privUbjrContextPeek : UbjrM UInt8 := fun ctx =>
  match ctx.rest with
  | a :: _ => .ok (a, ctx)
  | [] => .ok (env.past, { ctx with peekedPast := true })

/-- The `n` bytes of `dst`: what is left of the data, then what the memory held before. -/
def privUbjrContextRead (n : Nat) : UbjrM Bytes := fun ctx =>
  let got := ctx.rest.take n
  .ok (got ++ (List.range (n - got.length)).map (fun i => env.uninit (ctx.totalRead + i)),
    { ctx with rest := ctx.rest.drop n, totalRead := ctx.totalRead + got.length })

/-- `priv_ubjr_type_from_char`: the first match in the marker table. -/
def privUbjrTypeFromChar (c : UInt8) : UbjType :=
  if c = 0x00 then .mixed
  else if c = 0x5A then .nullType
  else if c = 0x4E then .noop
  else if c = 0x54 then .boolTrue
  else if c = 0x46 then .boolFalse
  else if c = 0x43 then .char
  else if c = 0x53 then .string
  else if c = 0x48 then .highPrecision
  else if c = 0x69 then .int8
  else if c = 0x55 then .uint8
  else if c = 0x49 then .int16
  else if c = 0x6C then .int32
  else if c = 0x4C then .int64
  else if c = 0x64 then .float32
  else if c = 0x44 then .float64
  else if c = 0x5B then .array
  else if c = 0x7B then .object
  else .numTypes

def privUbjrRead1b : UbjrM Nat := do
  let a ← privUbjrContextGetc env
  return a.toNat

def privUbjrRead2b : UbjrM Nat := do
  let hi ← privUbjrRead1b env
  let lo ← privUbjrRead1b env
  return hi * 2 ^ 8 + lo

def privUbjrRead4b : UbjrM Nat := do
  let hi ← privUbjrRead2b env
  let lo ← privUbjrRead2b env
  return hi * 2 ^ 16 + lo

def privUbjrRead8b : UbjrM Nat := do
  let hi ← privUbjrRead4b env
  let lo ← privUbjrRead4b env
  return hi * 2 ^ 32 + lo

/-- The value of a fixed-width field, as `priv_ubjr_pointer_to_dynamic` widens it. -/
def fixedToDynamic (typ : UbjType) (n : Nat) : UbjrDynamic :=
  match typ with
  | .int8 => .integer .int8 (BitVec.ofNat 8 n).toInt
  | .uint8 => .integer .uint8 n
  | .int16 => .integer .int16 (BitVec.ofNat 16 n).toInt
  | .int32 => .integer .int32 (BitVec.ofNat 32 n).toInt
  | .int64 => .integer .int64 (BitVec.ofNat 64 n).toInt
  | .float32 => .float32 (BitVec.ofNat 32 n)
  | .float64 => .float64 (BitVec.ofNat 64 n)
  | .nullType => .null
  | .noop => .noop
  | .boolTrue => .bool true
  | .boolFalse => .bool false
  | _ => .other typ

/-- The fast path of `priv_ubjr_read_raw_array`: `count` elements of `sz` bytes each, taken from
one block of memory. -/
def readBlock (typ : UbjType) (sz : Nat) : (count : Nat) → Bytes → List UbjrDynamic
  | 0, _ => []
  | count + 1, block =>
      fixedToDynamic typ (beNat (block.take sz)) :: readBlock typ sz count (block.drop sz)

/-- The `C` string of `n` bytes behind `tstr = malloc(n + 1)`. -/
def readText (typ : UbjType) (n : Int) : UbjrM UbjrDynamic :=
  if n < 0 ∨ mallocLimit ≤ n.toNat + 1 then throw .memory
  else do
    let s ← privUbjrContextRead env n.toNat
    return .text typ (cstr s)

/-- A read of `UBJI_TYPE_size` `-1` elements: the `size_t` product exceeds what is left of the data,
so all of it is copied into the block of `room` bytes. -/
def readRemainder (room : Nat) : UbjrM Unit := fun ctx =>
  if room < ctx.rest.length then .error .memory
  else .ok ((), { ctx with rest := [], totalRead := ctx.totalRead + ctx.rest.length })

/-- `d.integer` if `d` is one, as `priv_ubjw_read_integer` has it. -/
def UbjrDynamic.toInteger : UbjrDynamic → Int
  | .integer _ n => n
  | _ => 0

mutual

def ubjrReadDynamic (fuel : Nat) : UbjrM UbjrDynamic :=
  match fuel with
  | 0 => throw .fuel
  | fuel + 1 => do
      let c ← privUbjrContextGetc env
      privUbjrReadToPtr fuel (privUbjrTypeFromChar c)
termination_by structural fuel

def privUbjwReadInteger (fuel : Nat) : UbjrM Int :=
  match fuel with
  | 0 => throw .fuel
  | fuel + 1 => do
      let d ← ubjrReadDynamic fuel
      return d.toInteger
termination_by structural fuel

def privUbjrReadToPtr (fuel : Nat) (typ : UbjType) : UbjrM UbjrDynamic :=
  match fuel with
  | 0 => throw .fuel
  | fuel + 1 =>
      match typ with
      | .mixed => ubjrReadDynamic fuel
      | .string | .highPrecision => do
          let n ← privUbjwReadInteger fuel
          readText env typ n
      | .char => readText env .char 1
      | .int8 | .uint8 => do
          let n ← privUbjrRead1b env
          return fixedToDynamic typ n
      | .int16 => do
          let n ← privUbjrRead2b env
          return fixedToDynamic typ n
      | .int32 | .float32 => do
          let n ← privUbjrRead4b env
          return fixedToDynamic typ n
      | .int64 | .float64 => do
          let n ← privUbjrRead8b env
          return fixedToDynamic typ n
      | .array => privUbjrReadRawArray fuel
      | .object => privUbjrReadRawObject fuel
      | .nullType | .noop | .boolTrue | .boolFalse | .numTypes => return fixedToDynamic typ 0
termination_by structural fuel

/-- The size in front of a container, as a `size_t`; `c` is the byte that was peeked at. -/
def readContainerSize (fuel : Nat) (typ : UbjType) (c : UInt8) : UbjrM (UbjType × Nat) :=
  match fuel with
  | 0 => throw .fuel
  | fuel + 1 =>
      if c = 0x23 then do
        let _ ← privUbjrContextGetc env
        let n ← privUbjwReadInteger fuel
        return (typ, (n % 2 ^ 64).toNat)
      else return (typ, 0)
termination_by structural fuel

def privReadContainerParams (fuel : Nat) : UbjrM (UbjType × Nat) :=
  match fuel with
  | 0 => throw .fuel
  | fuel + 1 => do
      let c ← privUbjrContextPeek env
      if c = 0x24 then do
        let _ ← privUbjrContextGetc env
        let t ← privUbjrContextGetc env
        let c ← privUbjrContextPeek env
        readContainerSize fuel (privUbjrTypeFromChar t) c
      else readContainerSize fuel .mixed c
termination_by structural fuel

/-- The product of the `ndims` sizes behind an `@` marker, modulo `2 ^ 64`. -/
def readDims (fuel : Nat) (ndims size : Nat) : UbjrM Nat :=
  match fuel, ndims with
  | 0, _ => throw .fuel
  | _ + 1, 0 => return size
  | fuel + 1, ndims + 1 => do
      let d ← privUbjwReadInteger fuel
      readDims fuel ndims (size * (d % 2 ^ 64).toNat % 2 ^ 64)
termination_by structural fuel

/-- A typed array without a size may be an N-D array. -/
def readArraySize (fuel : Nat) (typ : UbjType) (size : Nat) : UbjrM Nat :=
  match fuel with
  | 0 => throw .fuel
  | fuel + 1 =>
      if typ ≠ .mixed ∧ size = 0 then do
        let c ← privUbjrContextPeek env
        if c = 0x40 then do
          let _ ← privUbjrContextGetc env
          let ndims ← privUbjrContextGetc env
          readDims fuel ndims.toNat 1
        else return size
      else return size
termination_by structural fuel

/-- The elements of an array, after its parameters. -/
def readArrayValues (fuel : Nat) (typ : UbjType) (size : Nat) : UbjrM (List UbjrDynamic) :=
  match fuel with
  | 0 => throw .fuel
  | fuel + 1 =>
      -- `UBJR_TYPE_localsize[UBJ_NUM_TYPES]` is behind the table
      if typ = .numTypes then throw .memory
      else if size = 0 then readUntil fuel 0x5D typ
      else if mallocLimit ≤ ubjrTypeLocalsize typ * size + 1 then throw .memory
      else
        match typ with
        | .mixed | .string | .highPrecision | .char => readCount fuel size typ
        | .array | .object => do
            readRemainder (ubjrTypeLocalsize typ * size + 1)
            return List.replicate size (.other typ)
        | _ => do
            let block ← privUbjrContextRead env ((ubjiTypeSize typ).toNat * size)
            return readBlock typ (ubjiTypeSize typ).toNat size block
termination_by structural fuel

def privUbjrReadRawArray (fuel : Nat) : UbjrM UbjrDynamic :=
  match fuel with
  | 0 => throw .fuel
  | fuel + 1 => do
      let params ← privReadContainerParams fuel
      let size ← readArraySize fuel params.1 params.2
      let values ← readArrayValues fuel params.1 size
      return .array params.1 values
termination_by structural fuel

/-- The fields of an object, after its parameters. -/
def readObjectFields (fuel : Nat) (typ : UbjType) (size : Nat) :
    UbjrM (List (Bytes × UbjrDynamic)) :=
  match fuel with
  | 0 => throw .fuel
  | fuel + 1 =>
      if typ = .numTypes then throw .memory
      else if size = 0 then readFieldsUntil fuel typ
      else if mallocLimit ≤ ubjrTypeLocalsize typ * size + 1 ∨ mallocLimit ≤ 8 * size then
        throw .memory
      else readFieldsCount fuel size typ
termination_by structural fuel

def privUbjrReadRawObject (fuel : Nat) : UbjrM UbjrDynamic :=
  match fuel with
  | 0 => throw .fuel
  | fuel + 1 => do
      let params ← privReadContainerParams fuel
      let fields ← readObjectFields fuel params.1 params.2
      return .object params.1 (fields.map Prod.fst) (fields.map Prod.snd)
termination_by structural fuel

/-- The loop over an array of unknown size: up to its terminator. -/
def readUntil (fuel : Nat) (close : UInt8) (typ : UbjType) : UbjrM (List UbjrDynamic) :=
  match fuel with
  | 0 => throw .fuel
  | fuel + 1 => do
      let c ← privUbjrContextPeek env
      if c = close then do
        let _ ← privUbjrContextGetc env
        return []
      else do
        let d ← privUbjrReadToPtr fuel typ
        let ds ← readUntil fuel close typ
        return d :: ds
termination_by structural fuel

/-- The loop over an array of known size. -/
def readCount (fuel : Nat) (count : Nat) (typ : UbjType) : UbjrM (List UbjrDynamic) :=
  match fuel, count with
  | 0, _ => throw .fuel
  | _ + 1, 0 => return []
  | fuel + 1, count + 1 => do
      let d ← privUbjrReadToPtr fuel typ
      let ds ← readCount fuel count typ
      return d :: ds
termination_by structural fuel

def readKey (fuel : Nat) : UbjrM Bytes :=
  match fuel with
  | 0 => throw .fuel
  | fuel + 1 => do
      let d ← privUbjrReadToPtr fuel .string
      match d with
      | .text _ s => return s
      | _ => return []
termination_by structural fuel

def readFieldsUntil (fuel : Nat) (typ : UbjType) : UbjrM (List (Bytes × UbjrDynamic)) :=
  match fuel with
  | 0 => throw .fuel
  | fuel + 1 => do
      let c ← privUbjrContextPeek env
      if c = 0x7D then do
        let _ ← privUbjrContextGetc env
        return []
      else do
        let k ← readKey fuel
        let d ← privUbjrReadToPtr fuel typ
        let fs ← readFieldsUntil fuel typ
        return (k, d) :: fs
termination_by structural fuel

def readFieldsCount (fuel : Nat) (count : Nat) (typ : UbjType) :
    UbjrM (List (Bytes × UbjrDynamic)) :=
  match fuel, count with
  | 0, _ => throw .fuel
  | _ + 1, 0 => return []
  | fuel + 1, count + 1 => do
      let k ← readKey fuel
      let d ← privUbjrReadToPtr fuel typ
      let fs ← readFieldsCount fuel count typ
      return (k, d) :: fs
termination_by structural fuel

end

end Parser

/-! ## Looking a field up -/

/-- `strcmp`. -/
def strcmp (a b : Bytes) : Ordering := if a < b then .lt else if b < a then .gt else .eq

/-- `priv_ubjr_object_build_sorted_keys`. -/
def privUbjrObjectBuildSortedKeys {α : Type} (keys : List Bytes) (values : List α) :
    List (Bytes × α) :=
  (keys.zip values).insertionSort (fun a b => a.1 ≤ b.1)

/-- `ubjr_object_lookup`; `none` is the null dynamic. -/
def ubjrObjectLookup {α : Type} (keys : List Bytes) (values : List α) (key : Bytes) : Option α :=
  let metatable := privUbjrObjectBuildSortedKeys keys values
  match bsearch (fun i => match metatable[i]? with
      | some p => strcmp key p.1
      | none => .lt) metatable.length with
  | some i => metatable[i]?.map Prod.snd
  | none => none

/-! ## From the parse tree to a value -/

/-- `(float)(double)f`: the same float, except that a NaN comes back quiet. -/
def floatViaDouble (bits : BitVec 32) : BitVec 32 :=
  if bits.toNat / 2 ^ 23 % 2 ^ 8 == 0xFF && bits.toNat % 2 ^ 23 != 0 then bits ||| 0x00400000#32
  else bits

namespace Reader

/-- `val.m_type = UBJ_ARRAY` with the pointers left as they are. -/
def retypeArray : Value → Value
  | .string s => .buffer s
  | .int32 i => .buffer (leBytes 4 i.toNat)
  | .int64 i => .buffer (leBytes 8 i.toNat)
  | .float32 bits => .buffer (leBytes 4 bits.toNat)
  | .float64 bits => .buffer (leBytes 8 bits.toNat)
  | .buffer data => .buffer data
  | .array items => .array items
  | .null | .bool _ | .object _ => .buffer []

/-- The byte an `int8_t` element is stored as. -/
def int8Byte : UbjrDynamic → UInt8
  | .integer _ n => UInt8.ofNat (n % 256).toNat
  | _ => 0

/-- `Reader::readObject`, the loop: each key is looked up again. `reads` are the values of the
object, each as what `readDynamic` makes of it. -/
def readObject (keys : List Bytes) (reads : List (Value → Value)) : List Bytes → Object → Object
  | [], res => res
  | k :: ks, res =>
      let prior := (OrdMap.find? res k).getD .null
      let val := match ubjrObjectLookup keys reads k with
        | some read => read prior
        | none => prior
      readObject keys reads ks (OrdMap.insert k val res)

mutual

/-- `Reader::readDynamic`, from the parsed value and the value assigned to. -/
def readDynamic : UbjrDynamic → Value → Value
  | .integer .int32 n, _ => .int32 (BitVec.ofInt 32 n)
  | .integer .int64 n, _ => .int64 (BitVec.ofInt 64 n)
  | .float32 bits, _ => .float32 (floatViaDouble bits)
  | .float64 bits, _ => .float64 bits
  | .bool b, _ => .bool b
  | .text .string s, _ => Value.ofString s
  | .object _ keys values, _ => .object (readObject keys (readDynamics values) keys [])
  -- `Reader::readArray`
  | .array .mixed values, _ => .array ((readDynamics values).map (fun read => read .null))
  | .array .int8 values, _ => .buffer (values.map int8Byte)
  | .array _ _, val => retypeArray val
  | _, val => val

def readDynamics : List UbjrDynamic → List (Value → Value)
  | [] => []
  | d :: ds => readDynamic d :: readDynamics ds

end

/-- The parse tree of a document is a container. -/
def isContainer : UbjrDynamic → Bool
  | .array _ _ | .object _ _ _ => true
  | _ => false

/-- `Reader::read`: whether there is a document, and the value afterwards. -/
def read (env : UbjrEnv) (fuel : Nat) (val : Value) (data : Bytes) :
    Except UbjrFault (Bool × Value) :=
  if data.isEmpty then .ok (false, val)
  else
    match ubjrReadDynamic env fuel (ubjrOpenMemory data) with
    | .error e => .error e
    | .ok (d, _) => if isContainer d then .ok (true, readDynamic d val) else .ok (false, val)

end Reader

/-- `UBJ::Value::read`, on what recursion and memory allow. A parse that has no result leaves the
value alone. -/
def Value.read (env : UbjrEnv) (fuel : Nat) (val : Value) (data : Bytes) : Bool × Value :=
  match Reader.read env fuel val data with
  | .ok res => res
  | .error _ => (false, val)

end Zway.Ubj
