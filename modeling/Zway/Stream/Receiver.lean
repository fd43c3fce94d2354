import Zway.Stream.Packet
import Zway.Ubj.Reader

/-!
# Stream receivers

`StreamReceiver::process` puts the packets of a stream back together. Every receiver
of the library is a `BufferReceiver`, so one structure holds the members of both
classes, and `δ` those a subclass adds.

A packet may come without a body, and the size given to `Value::read` need not be
that of the buffer. Neither is checked, so every such access is recorded with what
decides whether it is one to memory of the program: `Access.InBounds`.
-/

namespace Zway

/-- `StreamReceiver::Status`. -/
inductive ReceiverStatus where
  | idle
  | incoming
  | completed
  | error
  deriving Repr, DecidableEq

/-- `StreamReceiver` and `BufferReceiver`. -/
structure BufferReceiver (δ : Type) where
  id : UInt32
  type : UInt32
  status : ReceiverStatus
  part : UInt32
  parts : UInt32
  buffer : MemoryBuffer
  bytesReceived : UInt32
  /-- The members of the subclass. -/
  sub : δ

/-- The accesses of a receiver that nothing guards. -/
inductive Access where
  /-- `pkt.bodyData()`, which goes through `m_body`. -/
  | bodyData (present : Bool)
  /-- `UBJ::Value::read` of `size` bytes of a buffer, and what it finds there. -/
  | valueRead (size bufferSize : Nat) (bytes : Bytes)
  deriving Repr, DecidableEq

/-- The pointer is not null, the bytes are those of the buffer. -/
def Access.InBounds : Access → Prop
  | .bodyData present => present = true
  | .valueRead size bufferSize _ => size ≤ bufferSize

instance : DecidablePred Access.InBounds
  | .bodyData present => inferInstanceAs (Decidable (present = true))
  | .valueRead size bufferSize _ => inferInstanceAs (Decidable (size ≤ bufferSize))

/-- What a call of `StreamReceiver::process`, or of `processPacket`, leaves behind. -/
structure Received (δ : Type) where
  ok : Bool
  receiver : BufferReceiver δ
  accesses : List Access
  /-- Whether `invokeCallback` ran. It is the last thing that happens. -/
  invoked : Bool

namespace BufferReceiver

variable {δ : Type}

/-- `BufferReceiver::init` without a buffer of its own. -/
def init (pkt : Packet) (sub : δ) : BufferReceiver δ :=
  { id := pkt.head.streamId
    type := pkt.head.streamType
    status := .idle
    part := pkt.head.part
    parts := pkt.head.parts
    buffer := MemoryBuffer.create (pkt.head.parts * MAX_PACKET_BODY)
    bytesReceived := 0
    sub := sub }

/-- `BufferReceiver::processPacket`. The source takes `pkt.bodyData()` first: for a packet without
a body it follows a null pointer, and that is its end. Here the access is recorded, and the call
goes on with no bytes. -/
def processPacket (r : BufferReceiver δ) (pkt : Packet) : Received δ :=
  let accesses := [Access.bodyData pkt.body.isSome]
  match r.buffer.write pkt.bodyBytes ((pkt.head.part - 1) * MAX_PACKET_BODY) with
  | none => ⟨false, r, accesses, false⟩
  | some buffer =>
      ⟨true, { r with buffer := buffer, bytesReceived := r.bytesReceived + pkt.head.bodySize },
        accesses, false⟩

/-- A part number that is neither the next one nor below two. -/
def OutOfOrder (r : BufferReceiver δ) (pkt : Packet) : Prop :=
  1 < pkt.head.part ∧ pkt.head.part ≠ r.part + 1

instance (r : BufferReceiver δ) (pkt : Packet) : Decidable (r.OutOfOrder pkt) :=
  inferInstanceAs (Decidable (1 < pkt.head.part ∧ pkt.head.part ≠ r.part + 1))

/-- `StreamReceiver::process` with a virtual `processPacket`. -/
def process (processPacket : BufferReceiver δ → Packet → Received δ) (r : BufferReceiver δ)
    (pkt : Packet) : Received δ :=
  if r.OutOfOrder pkt then ⟨false, r, [], false⟩
  else
    let p := processPacket r pkt
    if p.ok then
      if pkt.head.part = p.receiver.parts then
        ⟨true, { p.receiver with part := pkt.head.part, status := .completed }, p.accesses, true⟩
      else ⟨true, { p.receiver with part := pkt.head.part }, p.accesses, false⟩
    else ⟨false, { p.receiver with status := .error }, p.accesses, true⟩

/-- The receiver with the body of a packet in its buffer. -/
def store (r : BufferReceiver δ) (pkt : Packet) : BufferReceiver δ :=
  { r with
    buffer := r.buffer.blit pkt.bodyBytes ((pkt.head.part - 1) * MAX_PACKET_BODY).toNat
    bytesReceived := r.bytesReceived + pkt.head.bodySize }

theorem processPacket_eq {r : BufferReceiver δ} (h : 0 < r.buffer.size) (pkt : Packet) :
    r.processPacket pkt = ⟨true, r.store pkt, [.bodyData pkt.body.isSome], false⟩ := by
  unfold processPacket
  rw [MemoryBuffer.write_eq h]
  rfl

/-- An empty buffer takes nothing. -/
theorem processPacket_empty {r : BufferReceiver δ} (h : r.buffer.size = 0) (pkt : Packet) :
    r.processPacket pkt = ⟨false, r, [.bodyData pkt.body.isSome], false⟩ := by
  unfold processPacket
  rw [MemoryBuffer.write_empty h]

theorem process_id (r : BufferReceiver δ) (pkt : Packet) :
    (process processPacket r pkt).receiver.id = r.id := by
  have hpacket : (r.processPacket pkt).receiver.id = r.id := by
    unfold processPacket
    dsimp only
    split
    · rfl
    · rfl
  unfold process
  dsimp only
  split
  · rfl
  · split
    · split
      · exact hpacket
      · exact hpacket
    · exact hpacket

theorem process_outOfOrder {r : BufferReceiver δ} {pkt : Packet} (h : r.OutOfOrder pkt)
    (processPacket : BufferReceiver δ → Packet → Received δ) :
    process processPacket r pkt = ⟨false, r, [], false⟩ := by
  unfold process
  rw [if_pos h]

/-- A packet in its place whose content is accepted. -/
theorem process_of_ok {processPacket : BufferReceiver δ → Packet → Received δ}
    {r r' : BufferReceiver δ} {pkt : Packet} {accesses : List Access}
    (hpart : ¬ r.OutOfOrder pkt) (hp : processPacket r pkt = ⟨true, r', accesses, false⟩) :
    process processPacket r pkt =
      if pkt.head.part = r'.parts then
        ⟨true, { r' with part := pkt.head.part, status := .completed }, accesses, true⟩
      else ⟨true, { r' with part := pkt.head.part }, accesses, false⟩ := by
  unfold process
  rw [if_neg hpart, hp]
  dsimp only
  rw [if_pos rfl]

/-- A packet whose content is not accepted. -/
theorem process_of_error {processPacket : BufferReceiver δ → Packet → Received δ}
    {r r' : BufferReceiver δ} {pkt : Packet} {accesses : List Access}
    (hpart : ¬ r.OutOfOrder pkt) (hp : processPacket r pkt = ⟨false, r', accesses, false⟩) :
    process processPacket r pkt = ⟨false, { r' with status := .error }, accesses, true⟩ := by
  unfold process
  rw [if_neg hpart, hp]
  dsimp only
  rw [if_neg (by decide)]

end BufferReceiver

/-! ## Receivers of a document -/

/-- `UbjReceiver`, with its `m_value`. -/
abbrev UbjReceiver := BufferReceiver Ubj.Value

namespace UbjReceiver

/-- `UbjReceiver::create`. -/
def create (pkt : Packet) : UbjReceiver := BufferReceiver.init pkt .null

section

-- `UBJ::Value::read` on a value and some bytes, and the memory behind the buffer
variable (read : Ubj.Value → Bytes → Bool × Ubj.Value) (behind : Nat → UInt8)

/-- The `size` bytes at `m_buffer->data()`. -/
def bytesAt (buffer : MemoryBuffer) (size : Nat) : Bytes :=
  buffer.data.take size ++ (List.range (size - buffer.size)).map behind

/-- `UbjReceiver::processPacket`. That the value cannot be read is not an error. -/
def processPacket (r : UbjReceiver) (pkt : Packet) : Received Ubj.Value :=
  let p := BufferReceiver.processPacket r pkt
  if p.ok then
    if pkt.head.part = pkt.head.parts then
      let size := p.receiver.bytesReceived.toNat
      let bytes := bytesAt behind p.receiver.buffer size
      { p with
        receiver := { p.receiver with sub := (read p.receiver.sub bytes).2 }
        accesses := p.accesses ++ [.valueRead size p.receiver.buffer.size bytes] }
    else p
  else p

theorem processPacket_of_ok {r r' : UbjReceiver} {pkt : Packet} {accesses : List Access}
    (hp : BufferReceiver.processPacket r pkt = ⟨true, r', accesses, false⟩) :
    processPacket read behind r pkt =
      if pkt.head.part = pkt.head.parts then
        ⟨true,
          { r' with sub := (read r'.sub (bytesAt behind r'.buffer r'.bytesReceived.toNat)).2 },
          accesses ++ [.valueRead r'.bytesReceived.toNat r'.buffer.size
            (bytesAt behind r'.buffer r'.bytesReceived.toNat)], false⟩
      else ⟨true, r', accesses, false⟩ := by
  unfold processPacket
  rw [hp]
  dsimp only
  rw [if_pos rfl]

/-- `StreamReceiver::process` of a `UbjReceiver`. -/
def process (r : UbjReceiver) (pkt : Packet) : Received Ubj.Value :=
  BufferReceiver.process (processPacket read behind) r pkt

/-- What is in the buffer after a packet, as far as the receiver counts it. -/
def storedBytes (r : UbjReceiver) (pkt : Packet) : Bytes :=
  bytesAt behind (r.store pkt).buffer (r.store pkt).bytesReceived.toNat

/-- The accesses while a packet is taken. -/
def takenAccesses (r : UbjReceiver) (pkt : Packet) : List Access :=
  .bodyData pkt.body.isSome ::
    if pkt.head.part = pkt.head.parts then
      [.valueRead (r.store pkt).bytesReceived.toNat r.buffer.size (storedBytes behind r pkt)]
    else []

/-- The value after a packet is taken. -/
def takenValue (r : UbjReceiver) (pkt : Packet) : Ubj.Value :=
  if pkt.head.part = pkt.head.parts then (read r.sub (storedBytes behind r pkt)).2 else r.sub

/-- The receiver after a packet it takes. -/
def taken (r : UbjReceiver) (pkt : Packet) (status : ReceiverStatus) : UbjReceiver where
  id := r.id
  type := r.type
  status := status
  part := pkt.head.part
  parts := r.parts
  buffer := r.buffer.blit pkt.bodyBytes ((pkt.head.part - 1) * MAX_PACKET_BODY).toNat
  bytesReceived := r.bytesReceived + pkt.head.bodySize
  sub := takenValue read behind r pkt

/-- **What `StreamReceiver::process` does with a packet it takes.** -/
theorem process_taken {r : UbjReceiver} {pkt : Packet} (hpart : ¬ r.OutOfOrder pkt)
    (hpos : 0 < r.buffer.size) :
    process read behind r pkt =
      if pkt.head.part = r.parts then
        ⟨true, taken read behind r pkt .completed, takenAccesses behind r pkt, true⟩
      else ⟨true, taken read behind r pkt r.status, takenAccesses behind r pkt, false⟩ := by
  have hsize : (r.store pkt).buffer.size = r.buffer.size := MemoryBuffer.blit_size ..
  have hwrite := processPacket_of_ok read behind (BufferReceiver.processPacket_eq hpos pkt)
  rw [hsize] at hwrite
  have hpacket : processPacket read behind r pkt
      = ⟨true, { r.store pkt with sub := takenValue read behind r pkt },
          takenAccesses behind r pkt, false⟩ := by
    rw [hwrite]
    unfold takenValue takenAccesses storedBytes BufferReceiver.store
    by_cases hd : pkt.head.part = pkt.head.parts
    · rw [if_pos hd, if_pos hd, if_pos hd]
      rfl
    · rw [if_neg hd, if_neg hd, if_neg hd]
  unfold process taken
  rw [BufferReceiver.process_of_ok hpart hpacket]
  unfold BufferReceiver.store
  rfl

/-- An empty buffer, which a product of zero leads to, ends the stream. -/
theorem process_empty {r : UbjReceiver} {pkt : Packet} (hpart : ¬ r.OutOfOrder pkt)
    (hsize : r.buffer.size = 0) :
    process read behind r pkt =
      ⟨false, { r with status := .error }, [.bodyData pkt.body.isSome], true⟩ := by
  have hpacket : processPacket read behind r pkt
      = ⟨false, r, [.bodyData pkt.body.isSome], false⟩ := by
    unfold processPacket
    rw [BufferReceiver.processPacket_empty hsize]
    dsimp only
    rw [if_neg (by decide)]
  exact BufferReceiver.process_of_error hpart hpacket

end

end UbjReceiver

end Zway
