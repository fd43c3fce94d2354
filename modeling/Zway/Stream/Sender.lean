import Zway.Stream.Packet
import Zway.Ubj.Writer

/-!
# Stream senders

`StreamSender::process` cuts a stream into packets. What a subclass contributes are
the virtual functions `preparePacket` and `processPacket`, here `SenderVirtuals`
over the members `δ` the subclass adds.

The offsets and sizes are `uint32_t`. For a stream of at most `65535 * 65536`
bytes none of them wraps, and `BufferSender.process_eq` says in plain arithmetic
what one call does: it emits the next block of the buffer.
-/

namespace Zway

/-- `StreamSender::Status`. -/
inductive SenderStatus where
  | idle
  | outgoing
  | completed
  | error
  deriving Repr, DecidableEq

/-- `StreamSender`. The scratch buffer `m_body` is cleared before every use and is not kept. -/
structure StreamSender (δ : Type) where
  id : UInt32
  type : UInt32
  status : SenderStatus
  size : UInt32
  part : UInt32
  parts : UInt32
  /-- The members of the subclass. -/
  sub : δ

/-- The virtual functions of a sender. Each says whether it succeeded; `preparePacket` may drop the
packet. -/
structure SenderVirtuals (δ : Type) where
  preparePacket : StreamSender δ → Packet → (bytesToSend bytesSent : UInt32) →
    Bool × Option Packet × StreamSender δ
  processPacket : StreamSender δ → Packet → Bool × Packet × StreamSender δ

/-- What a call of `StreamSender::process` leaves behind. -/
structure Sent (δ : Type) where
  ok : Bool
  pkt : Option Packet
  sender : StreamSender δ
  /-- Whether `invokeCallback` ran. It is the last thing that happens. -/
  invoked : Bool

namespace StreamSender

variable {δ : Type}

/-- The constructor. -/
def new (id type parts : UInt32) (sub : δ) : StreamSender δ :=
  { id := id, type := type, status := .idle, size := 0, part := 0, parts := parts, sub := sub }

/-- `StreamSender::init`. -/
def init (s : StreamSender δ) (streamSize : UInt32) : StreamSender δ :=
  if streamSize ≠ 0 then
    { s with
      size := streamSize
      parts :=
        if MAX_PACKET_BODY ≤ streamSize then
          streamSize / MAX_PACKET_BODY + if streamSize % MAX_PACKET_BODY ≠ 0 then 1 else 0
        else 1 }
  else s

/-- `StreamSender::preparePacket`. -/
def preparePacket (s : StreamSender δ) (pkt : Packet) : Packet :=
  { pkt with
    head :=
      { pkt.head with streamId := s.id, streamType := s.type, part := s.part + 1, parts := s.parts } }

/-- The end of `StreamSender::process`. -/
def finish (s : StreamSender δ) (pkt : Option Packet) : Sent δ :=
  if 0 < s.parts ∧ s.part = s.parts then ⟨true, pkt, { s with status := .completed }, true⟩
  else ⟨true, pkt, s, false⟩

/-- `StreamSender::process`. -/
def process (virtuals : SenderVirtuals δ) (s : StreamSender δ) : Sent δ :=
  let bytesSent := s.part * MAX_PACKET_BODY
  let bytesToSend :=
    if 0 < s.size ∧ s.size - bytesSent < MAX_PACKET_BODY then s.size - bytesSent
    else MAX_PACKET_BODY
  match virtuals.preparePacket s Packet.create bytesToSend bytesSent with
  | (false, pkt, s) => ⟨false, pkt, { s with status := .error }, true⟩
  | (true, none, s) => s.finish none
  | (true, some pkt, s) =>
      match virtuals.processPacket s pkt with
      | (false, pkt, s) => ⟨false, some pkt, { s with status := .error }, true⟩
      | (true, pkt, s) => { s with part := s.part + 1 }.finish (some pkt)

/-- An offset of at most `65535` blocks does not wrap. -/
theorem bytesSent_toNat {part : UInt32} {k : Nat} (hpart : part.toNat = k) (hk : k ≤ 65535) :
    (part * MAX_PACKET_BODY).toNat = k * 65536 := by
  rw [UInt32.toNat_mul, hpart, MAX_PACKET_BODY_toNat]
  omega

/-- What is left at an offset inside the stream, cut to the length of a body. -/
theorem bytesToSend_toNat {size sent : UInt32} (hsent : sent.toNat < size.toNat) :
    (if 0 < size ∧ size - sent < MAX_PACKET_BODY then size - sent
      else MAX_PACKET_BODY).toNat = min 65536 (size.toNat - sent.toNat) := by
  have hsub : (size - sent).toNat = size.toNat - sent.toNat :=
    UInt32.toNat_sub_of_le _ _ (by rw [UInt32.le_iff_toNat_le]; omega)
  have hpos : 0 < size := by
    rw [UInt32.lt_iff_toNat_lt]
    show 0 < size.toNat
    omega
  by_cases hlast : size - sent < MAX_PACKET_BODY
  · rw [if_pos ⟨hpos, hlast⟩, hsub]
    rw [UInt32.lt_iff_toNat_lt, hsub, MAX_PACKET_BODY_toNat] at hlast
    omega
  · rw [if_neg (fun hc => hlast hc.2), MAX_PACKET_BODY_toNat]
    rw [UInt32.lt_iff_toNat_lt, hsub, MAX_PACKET_BODY_toNat] at hlast
    omega

end StreamSender

/-! ## Senders of a buffer -/

/-- `BufferSender`, with its `m_buffer`. A `UbjSender` is one whose buffer is a UBJ document. -/
abbrev BufferSender := StreamSender MemoryBuffer

namespace BufferSender

/-- `BufferSender::preparePacket`. The body is the whole `m_body`, of which `bytesRead` count. -/
def preparePacket (s : BufferSender) (pkt : Packet) (bytesToSend bytesSent : UInt32) :
    Bool × Option Packet × BufferSender :=
  let pkt := StreamSender.preparePacket s pkt
  match s.sub.read bytesToSend bytesSent with
  | none => (false, some pkt, s)
  | some bytes =>
      match (MemoryBuffer.create MAX_PACKET_BODY).write bytes 0 with
      | none => (false, some pkt, s)
      | some body =>
          if bytes.length ≠ 0 then (true, some (pkt.setBody body (UInt32.ofNat bytes.length)), s)
          else (true, none, s)

def virtuals : SenderVirtuals MemoryBuffer where
  preparePacket := preparePacket
  processPacket := fun s pkt => (true, pkt, s)

/-- `BufferSender::create`. -/
def create (id type : UInt32) (buffer : MemoryBuffer) : BufferSender :=
  (StreamSender.new id type 0 buffer).init (UInt32.ofNat buffer.size)

/-- The packet with block `k` of the buffer. -/
def packet (s : BufferSender) (k : Nat) : Packet where
  head :=
    { id := 0
      streamId := s.id
      streamType := s.type
      part := UInt32.ofNat (k + 1)
      parts := s.parts
      bodySize := UInt32.ofNat (block 65536 k s.sub.data).length }
  body := some ((MemoryBuffer.create MAX_PACKET_BODY).blit (block 65536 k s.sub.data) 0)

/-- A sender that has sent the first `k` blocks of its buffer. -/
structure At (s : BufferSender) (k : Nat) : Prop where
  /-- The size is that of the buffer, and neither is zero. -/
  size : s.size.toNat = s.sub.size
  pos : 0 < s.sub.size
  /-- Beyond this the offsets wrap. -/
  le : s.sub.size ≤ 65535 * 65536
  parts : s.parts.toNat = blockCount 65536 s.sub.size
  part : s.part.toNat = k

theorem At.parts_le {s : BufferSender} {k : Nat} (h : s.At k) : s.parts.toNat ≤ 65535 := by
  rw [h.parts]
  exact blockCount_le (by decide) h.le

/-- Every block before the last part begins inside the buffer. -/
theorem At.offset_lt {s : BufferSender} {k j : Nat} (h : s.At k) (hj : j < s.parts.toNat) :
    j * 65536 < s.sub.size := by
  rw [h.parts] at hj
  exact mul_lt_of_lt_blockCount (by decide) hj

/-- The constructor is about the counters only. -/
theorem create_fields (id type : UInt32) (buffer : MemoryBuffer) :
    (create id type buffer).id = id ∧ (create id type buffer).type = type
      ∧ (create id type buffer).status = .idle ∧ (create id type buffer).sub = buffer := by
  unfold create StreamSender.init
  split <;> exact ⟨rfl, rfl, rfl, rfl⟩

/-- The part count of `StreamSender::init` is that of the blocks. -/
theorem partCount_toNat {size : UInt32} (h : 0 < size.toNat) :
    (if MAX_PACKET_BODY ≤ size then
        size / MAX_PACKET_BODY + if size % MAX_PACKET_BODY ≠ 0 then 1 else 0
      else 1).toNat = blockCount 65536 size.toNat := by
  by_cases hle : MAX_PACKET_BODY ≤ size
  · have hmod : (size % MAX_PACKET_BODY ≠ 0) ↔ size.toNat % 65536 ≠ 0 := by
      rw [ne_eq, ← UInt32.toNat_inj]
      simp
    rw [if_pos hle]
    unfold blockCount
    by_cases h0 : size.toNat % 65536 = 0
    · rw [if_neg (by rw [hmod]; exact fun hn => hn h0), if_pos h0]
      simp
    · rw [if_pos (hmod.mpr h0), if_neg h0]
      have := size.toNat_lt
      simp
      omega
  · have hlt : size.toNat < 65536 := by
      rw [UInt32.le_iff_toNat_le] at hle
      simp at hle
      exact hle
    rw [if_neg hle, blockCount_eq_one h hlt]
    rfl

theorem create_at {id type : UInt32} {buffer : MemoryBuffer} (hpos : 0 < buffer.size)
    (hle : buffer.size ≤ 65535 * 65536) : (create id type buffer).At 0 := by
  have hsz : (UInt32.ofNat buffer.size).toNat = buffer.size := by
    rw [UInt32.toNat_ofNat']
    omega
  have hne : UInt32.ofNat buffer.size ≠ 0 := by
    intro h
    have := congrArg UInt32.toNat h
    rw [hsz] at this
    simp at this
    omega
  have hparts := partCount_toNat (by rw [hsz]; exact hpos)
  rw [hsz] at hparts
  unfold create StreamSender.init StreamSender.new
  rw [if_pos hne]
  exact ⟨hsz, hpos, hle, hparts, rfl⟩

/-- The offset and the size of the next block, which do not wrap. -/
theorem At.bytesSent {s : BufferSender} {k : Nat} (h : s.At k) (hk : k < s.parts.toNat) :
    (s.part * MAX_PACKET_BODY).toNat = k * 65536 := by
  have hp := h.parts_le
  exact StreamSender.bytesSent_toNat h.part (by omega)

theorem At.bytesToSend {s : BufferSender} {k : Nat} (h : s.At k) (hk : k < s.parts.toNat) :
    (if 0 < s.size ∧ s.size - s.part * MAX_PACKET_BODY < MAX_PACKET_BODY then
        s.size - s.part * MAX_PACKET_BODY
      else MAX_PACKET_BODY).toNat = min 65536 (s.sub.size - k * 65536) := by
  have hoff := h.offset_lt hk
  have hsent := h.bytesSent hk
  rw [StreamSender.bytesToSend_toNat (by rw [hsent, h.size]; exact hoff), hsent, h.size]

/-- `BufferSender::preparePacket` reads the next block. -/
theorem At.preparePacket_eq {s : BufferSender} {k : Nat} (h : s.At k) (hk : k < s.parts.toNat)
    {bytesToSend bytesSent : UInt32} (hto : bytesToSend.toNat = min 65536 (s.sub.size - k * 65536))
    (hsent : bytesSent.toNat = k * 65536) :
    preparePacket s Packet.create bytesToSend bytesSent = (true, some (s.packet k), s) := by
  have hoff := h.offset_lt hk
  have hblock : (s.sub.data.drop bytesSent.toNat).take bytesToSend.toNat
      = block 65536 k s.sub.data := by
    rw [hto, hsent, block, MemoryBuffer.size, ← List.length_drop]
    exact List.take_eq_take_min.symm
  have hlen : (block 65536 k s.sub.data).length = min 65536 (s.sub.size - k * 65536) :=
    block_length ..
  have hsz : UInt32.ofNat (block 65536 k s.sub.data).length ≠ 0 := by
    intro h0
    have := congrArg UInt32.toNat h0
    rw [UInt32.toNat_ofNat'] at this
    simp at this
    omega
  have hpart : s.part + 1 = UInt32.ofNat (k + 1) := by
    have hp := h.parts_le
    rw [← UInt32.toNat_inj, UInt32.toNat_add, h.part, UInt32.toNat_ofNat']
    rfl
  have hroom : 0 < (MemoryBuffer.create MAX_PACKET_BODY).size := by
    rw [MemoryBuffer.create_size]
    decide
  unfold preparePacket
  rw [MemoryBuffer.read_eq h.pos, hblock]
  dsimp only
  rw [MemoryBuffer.write_eq hroom]
  dsimp only
  rw [if_pos (by omega)]
  unfold Packet.setBody StreamSender.preparePacket packet Packet.create
  rw [if_pos hsz, hpart]
  rfl

/-- **One call emits the next block**, and the call that emits the last one completes the sender. -/
theorem At.process_eq {s : BufferSender} {k : Nat} (h : s.At k) (hk : k < s.parts.toNat) :
    s.process virtuals =
      if k + 1 = s.parts.toNat then
        ⟨true, some (s.packet k), { s with part := s.part + 1, status := .completed }, true⟩
      else ⟨true, some (s.packet k), { s with part := s.part + 1 }, false⟩ := by
  have hnext : (s.part + 1).toNat = k + 1 := by
    have hp := h.parts_le
    rw [UInt32.toNat_add, h.part]
    show (k + 1) % 2 ^ 32 = k + 1
    omega
  have hpos : 0 < s.parts := by
    rw [UInt32.lt_iff_toNat_lt]
    show 0 < s.parts.toNat
    omega
  have hdone : (s.part + 1 = s.parts) ↔ k + 1 = s.parts.toNat := by
    rw [← UInt32.toNat_inj, hnext]
  have hprep : virtuals.preparePacket s Packet.create _ (s.part * MAX_PACKET_BODY)
      = (true, some (s.packet k), s) :=
    h.preparePacket_eq hk (h.bytesToSend hk) (h.bytesSent hk)
  unfold StreamSender.process
  dsimp only
  rw [hprep]
  show StreamSender.finish { s with part := s.part + 1 } (some (s.packet k)) = _
  unfold StreamSender.finish
  by_cases hlast : k + 1 = s.parts.toNat
  · rw [if_pos hlast, if_pos ⟨hpos, hdone.mpr hlast⟩]
  · rw [if_neg hlast, if_neg (fun hc => hlast (hdone.mp hc.2))]

end BufferSender

/-- `UbjSender::create`. -/
def UbjSender.create (id type : UInt32) (value : Ubj.Value) : BufferSender :=
  BufferSender.create id type (MemoryBuffer.ofData (Ubj.Writer.write value))

end Zway
