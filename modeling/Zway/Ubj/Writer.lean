import Zway.Ubj.Value

/-!
# The UBJ writer

`ubjw.c` and `Writer`: a context with a stack of open containers, and the
recursion over a value that drives it.

`writeCb` only ever appends to a vector, so the context carries the bytes written
so far. `containerStack` lists the containers from `*ctx->head` down to
`container_stack[0]`; the pointer arithmetic of the source is then `::` and `tail`.
Popping below the bottom is undefined in the source; here the stack stays empty
and a container without flags is read.
-/

namespace Zway.Ubj

/-- `struct priv_ubjw_container_t`, its flag bits one by one. -/
structure UbjwContainer where
  isSized : Bool
  isTyped : Bool
  isUbjArray : Bool
  isUbjObject : Bool
  expectsKey : Bool
  type : UbjType
  elementsRemaining : BitVec 64
  deriving Repr, DecidableEq

/-- `CONTAINER_STACK_MAX`. -/
def containerStackMax : Nat := 64

/-- `struct ubjw_context_t_s`. -/
structure UbjwContext where
  containerStack : List UbjwContainer
  ignoreContainerFlags : Bool
  written : Bytes
  deriving Repr, DecidableEq

/-- A container with no flag set. -/
def UbjwContainer.base : UbjwContainer :=
  { isSized := false, isTyped := false, isUbjArray := false, isUbjObject := false,
    expectsKey := false, type := .mixed, elementsRemaining := 0 }

/-- `ubjw_open_callback`. -/
def ubjwOpenCallback : UbjwContext :=
  { containerStack := [UbjwContainer.base], ignoreContainerFlags := false, written := [] }

def privUbjwContextAppend (ctx : UbjwContext) (a : UInt8) : UbjwContext :=
  { ctx with written := ctx.written ++ [a] }

def privUbjwContextWrite (ctx : UbjwContext) (data : Bytes) : UbjwContext :=
  { ctx with written := ctx.written ++ data }

def privUbjwContextFinishContainer (ctx : UbjwContext) (head : UbjwContainer) : UbjwContext :=
  if head.isSized then ctx
  else if head.isUbjArray then privUbjwContextAppend ctx 0x5D
  else if head.isUbjObject then privUbjwContextAppend ctx 0x7D
  else ctx

/-- A full stack drops the container: `//todo::error`. -/
def privUbjwContainerStackPush (ctx : UbjwContext) (cnt : UbjwContainer) : UbjwContext :=
  if ctx.containerStack.length < containerStackMax then
    { ctx with containerStack := cnt :: ctx.containerStack }
  else ctx

def privUbjwContainerStackPop (ctx : UbjwContext) : UbjwContainer × UbjwContext :=
  (ctx.containerStack.headD UbjwContainer.base,
    { ctx with containerStack := ctx.containerStack.tail })

/-- Replace `*ctx->head`. -/
def UbjwContext.setHead (ctx : UbjwContext) (ch : UbjwContainer) : UbjwContext :=
  match ctx.containerStack with
  | [] => ctx
  | _ :: rest => { ctx with containerStack := ch :: rest }

def privUbjwTagPublic (ctx : UbjwContext) (tid : UbjType) : UbjwContext :=
  if ctx.ignoreContainerFlags then privUbjwContextAppend ctx (ubjiTypecConvert tid)
  else
    let ch := ctx.containerStack.headD UbjwContainer.base
    -- a key is expected: the value is dropped
    if ch.isUbjObject && ch.expectsKey then ctx
    else
      let ch := if ch.isUbjObject then { ch with expectsKey := true } else ch
      let ch := if ch.isSized then { ch with elementsRemaining := ch.elementsRemaining - 1 } else ch
      if ch.isTyped && ch.type == tid then ctx.setHead ch
      else privUbjwContextAppend (ctx.setHead ch) (ubjiTypecConvert tid)

/-! ## Scalars -/

/-- `ubjw_write_int8` to `ubjw_write_int64` and the two float writers: the marker, then the
`k` bytes of the value, most significant first. -/
def ubjwWriteBigendian (ctx : UbjwContext) (tid : UbjType) (k out : Nat) : UbjwContext :=
  privUbjwContextWrite (privUbjwTagPublic ctx tid) (beBytes k out)

def ubjwWriteInt8 (ctx : UbjwContext) (out : BitVec 8) : UbjwContext :=
  ubjwWriteBigendian ctx .int8 1 out.toNat

def ubjwWriteUint8 (ctx : UbjwContext) (out : BitVec 8) : UbjwContext :=
  ubjwWriteBigendian ctx .uint8 1 out.toNat

def ubjwWriteInt16 (ctx : UbjwContext) (out : BitVec 16) : UbjwContext :=
  ubjwWriteBigendian ctx .int16 2 out.toNat

def ubjwWriteInt32 (ctx : UbjwContext) (out : BitVec 32) : UbjwContext :=
  ubjwWriteBigendian ctx .int32 4 out.toNat

def ubjwWriteInt64 (ctx : UbjwContext) (out : BitVec 64) : UbjwContext :=
  ubjwWriteBigendian ctx .int64 8 out.toNat

def ubjwWriteFloat32 (ctx : UbjwContext) (bits : BitVec 32) : UbjwContext :=
  ubjwWriteBigendian ctx .float32 4 bits.toNat

def ubjwWriteFloat64 (ctx : UbjwContext) (bits : BitVec 64) : UbjwContext :=
  ubjwWriteBigendian ctx .float64 8 bits.toNat

def ubjwWriteNull (ctx : UbjwContext) : UbjwContext := privUbjwTagPublic ctx .nullType

def ubjwWriteBool (ctx : UbjwContext) (out : Bool) : UbjwContext :=
  privUbjwTagPublic ctx (if out then .boolTrue else .boolFalse)

def ubjwMinIntegerType (n : BitVec 64) : UbjType :=
  let mc := n.toInt.natAbs
  if mc < 0x80 then .int8
  else if 0 < n.toInt ∧ mc < 0x100 then .uint8
  else if mc < 0x8000 then .int16
  else if mc < 0x80000000 then .int32
  else .int64

def ubjwWriteInteger (ctx : UbjwContext) (out : BitVec 64) : UbjwContext :=
  match ubjwMinIntegerType out with
  | .int8 => ubjwWriteInt8 ctx (out.setWidth 8)
  | .uint8 => ubjwWriteUint8 ctx (out.setWidth 8)
  | .int16 => ubjwWriteInt16 ctx (out.setWidth 16)
  | .int32 => ubjwWriteInt32 ctx (out.setWidth 32)
  | _ => ubjwWriteInt64 ctx out

/-- A length goes out without touching the container it stands in. -/
def ubjwWriteLength (ctx : UbjwContext) (n : Nat) : UbjwContext :=
  { ubjwWriteInteger { ctx with ignoreContainerFlags := true } (BitVec.ofNat 64 n) with
    ignoreContainerFlags := false }

def privUbjwWriteRawString (ctx : UbjwContext) (out : Bytes) : UbjwContext :=
  privUbjwContextWrite (ubjwWriteLength ctx (cstr out).length) (cstr out)

def ubjwWriteString (ctx : UbjwContext) (out : Bytes) : UbjwContext :=
  privUbjwWriteRawString (privUbjwTagPublic ctx .string) out

/-! ## Containers -/

def privUbjwBeginContainer (ctx : UbjwContext) (typ : UbjType) (count : Nat) :
    UbjwContainer × UbjwContext :=
  let cnt := { UbjwContainer.base with type := typ, elementsRemaining := BitVec.ofNat 64 count }
  let (cnt, ctx) :=
    if typ ≠ .mixed then
      ({ cnt with isTyped := true },
        privUbjwContextAppend (privUbjwContextAppend ctx 0x24) (ubjiTypecConvert typ))
    else (cnt, ctx)
  if count ≠ 0 then
    ({ cnt with isSized := true }, ubjwWriteLength (privUbjwContextAppend ctx 0x23) count)
  else (cnt, ctx)

def ubjwBeginArray (ctx : UbjwContext) (type : UbjType) (count : Nat) : UbjwContext :=
  let (ch, ctx) := privUbjwBeginContainer (privUbjwTagPublic ctx .array) type count
  privUbjwContainerStackPush ctx { ch with isUbjArray := true }

def ubjwBeginObject (ctx : UbjwContext) (type : UbjType) (count : Nat) : UbjwContext :=
  let (ch, ctx) := privUbjwBeginContainer (privUbjwTagPublic ctx .object) type count
  privUbjwContainerStackPush ctx { ch with isUbjObject := true, expectsKey := true }

def ubjwWriteKey (ctx : UbjwContext) (key : Bytes) : UbjwContext :=
  let head := ctx.containerStack.headD UbjwContainer.base
  if head.expectsKey && head.isUbjObject then
    let ctx := privUbjwWriteRawString ctx key
    let head := ctx.containerStack.headD UbjwContainer.base
    ctx.setHead { head with expectsKey := !head.expectsKey }
  else ctx

def ubjwEnd (ctx : UbjwContext) : UbjwContext :=
  let (ch, ctx) := privUbjwContainerStackPop ctx
  privUbjwContextFinishContainer ctx ch

/-- `buf_endian_swap` on a little-endian machine: each group of `sz` bytes reversed. -/
def bufEndianSwap (sz : Nat) : (count : Nat) → Bytes → Bytes
  | 0, _ => []
  | count + 1, buf => (buf.take sz).reverse ++ bufEndianSwap sz count (buf.drop sz)

/-- `ubjw_write_buffer` for the types of constant width; a buffer of strings is an array of
pointers, which no caller has. -/
def ubjwWriteBuffer (ctx : UbjwContext) (data : Bytes) (type : UbjType) (count : Nat) :
    UbjwContext :=
  let typesz := (ubjiTypeSize type).toNat
  let ctx := ubjwBeginArray ctx type count
  let ctx :=
    if typesz = 1 then privUbjwContextWrite ctx (data.take (typesz * count))
    else privUbjwContextWrite ctx (bufEndianSwap typesz count data)
  ubjwEnd ctx

/-! ## The recursion over a value -/

namespace Writer

mutual

/-- The `switch` of `Writer::writeValue`. -/
def writeTagged : Value → UbjwContext → UbjwContext
  | .null, ctx => ubjwWriteNull ctx
  | .bool b, ctx => ubjwWriteBool ctx b
  | .int32 i, ctx => ubjwWriteInt32 ctx i
  | .int64 i, ctx => ubjwWriteInt64 ctx i
  | .float32 bits, ctx => ubjwWriteFloat32 ctx bits
  | .float64 bits, ctx => ubjwWriteFloat64 ctx bits
  | .string s, ctx => ubjwWriteString ctx s
  -- `Writer::writeArray`: without bytes the `Array` of the value is written, which is empty here
  | .buffer data, ctx =>
      if data.length = 0 then ubjwEnd (ubjwBeginArray ctx .mixed 0)
      else ubjwWriteBuffer ctx data .int8 data.length
  | .array items, ctx =>
      ubjwEnd (writeItems items (ubjwBeginArray ctx .mixed items.length))
  -- `Writer::writeObject`
  | .object fields, ctx =>
      ubjwEnd (writeFields fields (ubjwBeginObject ctx .mixed fields.length))

/-- The loop of `Writer::writeArray`: `writeValue` with an empty key. -/
def writeItems : List Value → UbjwContext → UbjwContext
  | [], ctx => ctx
  | v :: vs, ctx => writeItems vs (writeTagged v ctx)

/-- The loop of `Writer::writeObject`: `writeValue` with the key of the field. -/
def writeFields : List (Bytes × Value) → UbjwContext → UbjwContext
  | [], ctx => ctx
  | (key, v) :: fs, ctx =>
      writeFields fs (writeTagged v (if key.isEmpty then ctx else ubjwWriteKey ctx key))

end

/-- `Writer::writeValue`. -/
def writeValue (key : Bytes) (val : Value) (ctx : UbjwContext) : UbjwContext :=
  writeTagged val (if key.isEmpty then ctx else ubjwWriteKey ctx key)

/-- What `Writer::write` has collected when it stops. -/
def collect (val : Value) : Bytes :=
  match val.type with
  | .object | .array => (writeTagged val ubjwOpenCallback).written
  | _ => ubjwOpenCallback.written

/-- `Writer::write`. The vector's `size_t` length is passed on as a `uint32_t`. -/
def write (val : Value) : Bytes := (collect val).take ((collect val).length % 2 ^ 32)

end Writer

example : Writer.write (.object [([0x61], .array [.null, .int32 5]), ([0x62], .buffer [1])])
    = [0x7B, 0x23, 0x69, 2, 0x69, 1, 0x61, 0x5B, 0x23, 0x69, 2, 0x5A, 0x6C, 0, 0, 0, 5,
       0x69, 1, 0x62, 0x5B, 0x24, 0x69, 0x23, 0x69, 1, 1] := by decide

end Zway.Ubj
