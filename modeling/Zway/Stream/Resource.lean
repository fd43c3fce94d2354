import Zway.Crypto.Aes
import Zway.Stream.Sender
import Zway.Stream.Receiver

/-!
# Resources

A resource goes out as an encrypted stream: `ResourceSender` encrypts the body of
each packet in place, `ResourceReceiver` decrypts it in place before it is stored.
Each side has one `AES` context that runs through the whole stream.

The packets are values here. In the source they share the scratch buffer of the
sender, so they are to be handed on, or copied as the engine does, before the
sender is called again.
-/

namespace Zway

/-- `Resource`, as far as a sender looks at it. `Resource::open` always succeeds. -/
structure Resource where
  id : UInt32
  /-- `m_data`. -/
  data : Option MemoryBuffer

namespace Resource

/-- `Resource::size`. -/
def size (res : Resource) : UInt32 :=
  match res.data with
  | some data => UInt32.ofNat data.size
  | none => 0

/-- `Resource::read` into `buf`. -/
def read (res : Resource) (buf : MemoryBuffer) (size offset : UInt32) : Option MemoryBuffer :=
  match res.data with
  | none => none
  | some data =>
      if buf.size < size.toNat then none
      else
        match data.read (if size ≠ 0 then size else UInt32.ofNat buf.size) offset with
        | none => none
        | some bytes => some (buf.blit bytes 0)

end Resource

/-- `PushRequest::resourceSalt`: the id and a zero over the last eight bytes. -/
def resourceSalt (salt : Option MemoryBuffer) (resourceId : UInt32) : Option MemoryBuffer :=
  match salt with
  | none => none
  | some salt =>
      match salt.copy with
      | none => none
      | some res => some ((res.blit (leBytes 4 resourceId.toNat) 8).blit (leBytes 4 0) 12)

section

-- the cipher with a key, on one block
variable (aes_encrypt : Bytes → Bytes → Bytes)

/-! ## Senders -/

/-- The members of a `ResourceSender`. -/
structure ResourceStream where
  /-- `m_res`. -/
  res : Resource
  /-- `m_aes`. -/
  aes : AES

abbrev ResourceSender := StreamSender ResourceStream

namespace ResourceSender

/-- `ResourceSender::create`. -/
def create (res : Option Resource) (key salt : Option MemoryBuffer) : Option ResourceSender :=
  match res, key, salt with
  | some res, some key, some salt =>
      some { (StreamSender.new 0 Packet.Resource 0
          { res := res, aes := (AES.new.setKey (some key)).setCtr (some salt) }).init res.size with
        id := res.id }
  | _, _, _ => none

/-- `ResourceSender::preparePacket`. -/
def preparePacket (s : ResourceSender) (pkt : Packet) (bytesToSend bytesSent : UInt32) :
    Bool × Option Packet × ResourceSender :=
  let pkt := StreamSender.preparePacket s pkt
  match s.sub.res.read (MemoryBuffer.create MAX_PACKET_BODY) bytesToSend bytesSent with
  | none => (false, some pkt, s)
  | some body => (true, some (pkt.setBody body bytesToSend), s)

/-- `ResourceSender::processPacket`. -/
def processPacket (s : ResourceSender) (pkt : Packet) : Bool × Packet × ResourceSender :=
  match pkt.body with
  | none => (true, pkt, s)
  | some body =>
      if pkt.head.bodySize ≠ 0 then
        let c := s.sub.aes.encrypt aes_encrypt AES.noCallback body.data pkt.head.bodySize ()
        (c.1, { pkt with body := some (body.blit c.2.2.1 0) },
          { s with sub := { s.sub with aes := c.2.1 } })
      else (true, pkt, s)

theorem processPacket_body {s : ResourceSender} {pkt : Packet} {body : MemoryBuffer}
    (hbody : pkt.body = some body) (hsize : pkt.head.bodySize ≠ 0) {a : AES} {bytes : Bytes}
    (h : s.sub.aes.encrypt aes_encrypt AES.noCallback body.data pkt.head.bodySize ()
      = (true, a, bytes, ())) :
    processPacket aes_encrypt s pkt =
      (true, { pkt with body := some (body.blit bytes 0) },
        { s with sub := { s.sub with aes := a } }) := by
  unfold processPacket
  rw [hbody]
  dsimp only
  rw [if_pos hsize, h]

def virtuals : SenderVirtuals ResourceStream where
  preparePacket := preparePacket
  processPacket := processPacket aes_encrypt

end ResourceSender

/-! ## Receivers -/

/-- `ResourceReceiver`, with its `m_aes`. -/
abbrev ResourceReceiver := BufferReceiver AES

namespace ResourceReceiver

/-- `ResourceReceiver::create`. -/
def create (pkt : Packet) (key salt : Option MemoryBuffer) : Option ResourceReceiver :=
  match key, salt with
  | some key, some salt =>
      some (BufferReceiver.init pkt ((AES.new.setKey (some key)).setCtr (some salt)))
  | _, _ => none

/-- `ResourceReceiver::processPacket`. The body is decrypted in place. -/
def processPacket (r : ResourceReceiver) (pkt : Packet) : Received AES :=
  if pkt.head.bodySize ≠ 0 then
    match pkt.body with
    | none => ⟨false, r, [.bodyData false], false⟩
    | some body =>
        let c := r.sub.decrypt aes_encrypt AES.noCallback body.data pkt.head.bodySize ()
        if c.1 then
          BufferReceiver.processPacket { r with sub := c.2.1 }
            { pkt with body := some (body.blit c.2.2.1 0) }
        else ⟨false, { r with sub := c.2.1 }, [.bodyData true], false⟩
  else BufferReceiver.processPacket r pkt

theorem processPacket_body {r : ResourceReceiver} {pkt : Packet} {body : MemoryBuffer}
    (hbody : pkt.body = some body) (hsize : pkt.head.bodySize ≠ 0) {a : AES} {bytes : Bytes}
    (h : r.sub.decrypt aes_encrypt AES.noCallback body.data pkt.head.bodySize ()
      = (true, a, bytes, ())) :
    processPacket aes_encrypt r pkt =
      BufferReceiver.processPacket { r with sub := a }
        { pkt with body := some (body.blit bytes 0) } := by
  unfold processPacket
  rw [if_pos hsize, hbody]
  dsimp only
  rw [h]
  dsimp only
  rw [if_pos rfl]

/-- `StreamReceiver::process` of a `ResourceReceiver`. -/
def process (r : ResourceReceiver) (pkt : Packet) : Received AES :=
  BufferReceiver.process (processPacket aes_encrypt) r pkt

end ResourceReceiver

/-! ## Whole streams -/

/-- Call `process` until the sender is completed or fails, but at most so many times. -/
def StreamSender.sendAll {δ : Type} (virtuals : SenderVirtuals δ) :
    Nat → StreamSender δ → List Packet × StreamSender δ
  | 0, s => ([], s)
  | n + 1, s =>
      let p := s.process virtuals
      if p.ok ∧ p.sender.status ≠ .completed then
        let rest := sendAll virtuals n p.sender
        (p.pkt.toList ++ rest.1, rest.2)
      else (p.pkt.toList, p.sender)

/-- Call `process` for one packet after another, until one is turned down. -/
def BufferReceiver.receiveAll {δ : Type} (process : BufferReceiver δ → Packet → Received δ) :
    BufferReceiver δ → List Packet → Bool × BufferReceiver δ
  | r, [] => (true, r)
  | r, pkt :: pkts =>
      let p := process r pkt
      if p.ok then receiveAll process p.receiver pkts else (false, p.receiver)

end

end Zway
