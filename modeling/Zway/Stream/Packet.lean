import Zway.Lib.Bytes
import Zway.Lib.Chunk

/-!
# Buffers and packets

`MemoryBuffer` is a block of memory whose size is a `uint32_t`; that bound is a
field here. Its `read` and `write` clip at the end of the block without reporting
it, so both always succeed on a non-empty buffer.

`malloc` is taken to succeed: a failing allocation is out of scope.
-/

namespace Zway

/-- `MemoryBuffer`; `m_size` is the length of the data. -/
@[ext]
structure MemoryBuffer where
  data : Bytes
  /-- `m_size` is a `uint32_t`. -/
  size_lt : data.length < 2 ^ 32
  deriving DecidableEq

namespace MemoryBuffer

def size (b : MemoryBuffer) : Nat := b.data.length

/-- `MemoryBuffer::empty`. -/
def empty (b : MemoryBuffer) : Bool := b.data.isEmpty

/-- `MemoryBuffer::create(nullptr, size)`. -/
def create (size : UInt32) : MemoryBuffer where
  data := List.replicate size.toNat 0
  size_lt := by rw [List.length_replicate]; exact size.toNat_lt

/-- `MemoryBuffer::create(data, size)`, where `data` are the `size` bytes at the pointer. -/
def ofData (data : Bytes) : MemoryBuffer where
  data := data.take (data.length % 2 ^ 32)
  size_lt := by rw [List.length_take]; omega

/-- `MemoryBuffer::read`: the bytes that are copied to the destination. -/
def read (b : MemoryBuffer) (size offset : UInt32) : Option Bytes :=
  if b.empty then none else some ((b.data.drop offset.toNat).take size.toNat)

/-- The `memcpy` of `MemoryBuffer::write`. -/
def blit (b : MemoryBuffer) (data : Bytes) (offset : Nat) : MemoryBuffer where
  data := overwrite b.data offset data
  size_lt := by rw [overwrite_length]; exact b.size_lt

/-- `MemoryBuffer::write` of the bytes `data` at `offset`. -/
def write (b : MemoryBuffer) (data : Bytes) (offset : UInt32) : Option MemoryBuffer :=
  if b.empty then none else some (b.blit data offset.toNat)

/-- `MemoryBuffer::copy`. -/
def copy (b : MemoryBuffer) : Option MemoryBuffer := if b.empty then none else some b

@[simp] theorem create_size (n : UInt32) : (create n).size = n.toNat := List.length_replicate

theorem ofData_data {data : Bytes} (h : data.length < 2 ^ 32) : (ofData data).data = data := by
  show data.take (data.length % 2 ^ 32) = data
  rw [Nat.mod_eq_of_lt h, List.take_length]

theorem empty_eq_false {b : MemoryBuffer} : b.empty = false ↔ 0 < b.size := by
  unfold empty size
  cases b.data with
  | nil => simp
  | cons _ _ => simp

@[simp] theorem blit_size (b : MemoryBuffer) (data : Bytes) (offset : Nat) :
    (b.blit data offset).size = b.size := overwrite_length ..

theorem write_eq {b : MemoryBuffer} (h : 0 < b.size) (data : Bytes) (offset : UInt32) :
    b.write data offset = some (b.blit data offset.toNat) := by
  unfold write
  rw [empty_eq_false.mpr h]
  rfl

theorem write_empty {b : MemoryBuffer} (h : b.size = 0) (data : Bytes) (offset : UInt32) :
    b.write data offset = none := by
  have hempty : b.empty = true := List.isEmpty_iff.mpr (List.length_eq_zero_iff.mp h)
  unfold write
  rw [if_pos hempty]

theorem copy_eq {b : MemoryBuffer} (h : 0 < b.size) : b.copy = some b := by
  unfold copy
  rw [empty_eq_false.mpr h]
  rfl

theorem read_eq {b : MemoryBuffer} (h : 0 < b.size) (size offset : UInt32) :
    b.read size offset = some ((b.data.drop offset.toNat).take size.toNat) := by
  unfold read
  rw [empty_eq_false.mpr h]
  rfl

/-- A buffer that is filled from its beginning to its end. -/
theorem create_blit_data {size : UInt32} {bs : Bytes} (h : bs.length = size.toNat) :
    ((create size).blit bs 0).data = bs := by
  have hsize : (create size).data.length = size.toNat := create_size size
  have htake := @take_overwrite _ (create size).data bs 0 (by omega)
  rw [List.take_zero, List.nil_append, List.take_of_length_le (by
    rw [overwrite_length]
    omega)] at htake
  exact htake

end MemoryBuffer

/-- `MAX_PACKET_BODY`. -/
def MAX_PACKET_BODY : UInt32 := 65536

@[simp] theorem MAX_PACKET_BODY_toNat : MAX_PACKET_BODY.toNat = 65536 := rfl

/-- `Packet::Head`. -/
structure Packet.Head where
  id : UInt32
  streamId : UInt32
  streamType : UInt32
  part : UInt32
  parts : UInt32
  bodySize : UInt32
  deriving Repr, DecidableEq

/-- `Packet`. -/
structure Packet where
  head : Packet.Head
  /-- `m_body`. -/
  body : Option MemoryBuffer
  deriving DecidableEq

namespace Packet

/-- `Packet::StreamType`, as it is stored in the head. -/
def Request : UInt32 := 1

def Resource : UInt32 := 2

/-- `Packet::create`. -/
def create : Packet := { head := ⟨0, 0, 0, 0, 0, 0⟩, body := none }

/-- `Packet::setBody` with a body; a size of zero stands for the size of the body. -/
def setBody (pkt : Packet) (body : MemoryBuffer) (size : UInt32) : Packet :=
  { head := { pkt.head with bodySize := if size ≠ 0 then size else UInt32.ofNat body.size },
    body := some body }

theorem setBody_bodySize (pkt : Packet) (body : MemoryBuffer) :
    (pkt.setBody body 0).head.bodySize = UInt32.ofNat body.size := by
  unfold setBody
  dsimp only
  rw [if_neg (fun h => h rfl)]

/-- The `bodySize` bytes at `bodyData()`. -/
def bodyBytes (pkt : Packet) : Bytes :=
  match pkt.body with
  | some body => body.data.take pkt.head.bodySize.toNat
  | none => []

/-- A packet as `Receiver::recvPacket` returns it: any head, and a body of `bodySize` bytes unless
that is zero. -/
structure FromWire (pkt : Packet) : Prop where
  le : pkt.head.bodySize.toNat ≤ 65536
  body : pkt.body.map MemoryBuffer.size
    = if pkt.head.bodySize = 0 then none else some pkt.head.bodySize.toNat

/-- The body of such a packet is its bytes. -/
theorem FromWire.bodyBytes_length {pkt : Packet} (h : pkt.FromWire) :
    pkt.bodyBytes.length = pkt.head.bodySize.toNat := by
  have hbody := h.body
  unfold bodyBytes
  cases hb : pkt.body with
  | none =>
    rw [hb] at hbody
    split at hbody
    · rename_i hzero
      rw [hzero]
      rfl
    · exact absurd hbody (by simp)
  | some body =>
    rw [hb] at hbody
    split at hbody
    · exact absurd hbody (by simp)
    · have hsize : body.data.length = pkt.head.bodySize.toNat := Option.some.inj hbody
      rw [List.length_take, hsize, Nat.min_self]

/-- A packet is its head and its bytes. -/
theorem FromWire.eq {pkt : Packet} (h : pkt.FromWire) :
    (pkt.head.bodySize = 0 → pkt = ⟨pkt.head, none⟩) ∧
      (∀ body : MemoryBuffer, pkt.head.bodySize ≠ 0 → body.data = pkt.bodyBytes →
        pkt = ⟨pkt.head, some body⟩) := by
  obtain ⟨head, body⟩ := pkt
  have hbody := h.body
  refine ⟨fun hzero => ?_, fun body' hne hdata => ?_⟩
  · rw [if_pos hzero] at hbody
    exact congrArg (Packet.mk head) (Option.map_eq_none_iff.mp hbody)
  · rw [if_neg hne] at hbody
    obtain ⟨b, hb, hsize⟩ := Option.map_eq_some_iff.mp hbody
    change body = some b at hb
    subst hb
    have hb' : body' = b := by
      ext1
      exact hdata.trans (List.take_of_length_le (Nat.le_of_eq hsize))
    rw [hb']

end Packet

end Zway
