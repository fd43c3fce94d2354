import Zway.Stream.Transfer
import Zway.Thread.Sender

/-!
# Outgoing streams

The stream senders of a client are those of requests and of resources. Whatever they read
and encrypt, they number their packets: `process_numbered`.
-/

namespace Zway

namespace StreamSender

variable {δ ε : Type}

/-- The same sender, with other members of its subclass. -/
def withSub (s : StreamSender δ) (sub : ε) : StreamSender ε where
  id := s.id
  type := s.type
  status := s.status
  size := s.size
  part := s.part
  parts := s.parts
  sub := sub

/-- How much the next packet may take. -/
def bytesToSend (size part : UInt32) : UInt32 :=
  if 0 < size ∧ size - part * MAX_PACKET_BODY < MAX_PACKET_BODY then size - part * MAX_PACKET_BODY
  else MAX_PACKET_BODY

theorem process_eq (virtuals : SenderVirtuals δ) (s : StreamSender δ) : s.process virtuals =
    match virtuals.preparePacket s Packet.create (bytesToSend s.size s.part)
      (s.part * MAX_PACKET_BODY) with
    | (false, pkt, s) => ⟨false, pkt, { s with status := .error }, true⟩
    | (true, none, s) => s.finish none
    | (true, some pkt, s) =>
        match virtuals.processPacket s pkt with
        | (false, pkt, s) => ⟨false, some pkt, { s with status := .error }, true⟩
        | (true, pkt, s) => { s with part := s.part + 1 }.finish (some pkt) := rfl

/-- The virtual functions leave the numbers alone, and the packet is the next one. -/
structure Numbered (virtuals : SenderVirtuals δ) : Prop where
  prepared : ∀ s pkt bytesToSend bytesSent,
    (virtuals.preparePacket s pkt bytesToSend bytesSent).2.2.id = s.id
      ∧ (virtuals.preparePacket s pkt bytesToSend bytesSent).2.2.part = s.part
  packet : ∀ s pkt bytesToSend bytesSent pkt',
    (virtuals.preparePacket s pkt bytesToSend bytesSent).2.1 = some pkt' →
      pkt'.head.streamId = s.id ∧ pkt'.head.part = s.part + 1
  processed : ∀ s pkt, (virtuals.processPacket s pkt).2.2.id = s.id
    ∧ (virtuals.processPacket s pkt).2.2.part = s.part
  kept : ∀ s pkt, (virtuals.processPacket s pkt).2.1.head.streamId = pkt.head.streamId
    ∧ (virtuals.processPacket s pkt).2.1.head.part = pkt.head.part

theorem init_fields (s : StreamSender δ) (streamSize : UInt32) :
    (s.init streamSize).id = s.id ∧ (s.init streamSize).part = s.part := by
  unfold init
  split
  · exact ⟨rfl, rfl⟩
  · exact ⟨rfl, rfl⟩

theorem finish_fields (s : StreamSender δ) (pkt : Option Packet) :
    (s.finish pkt).sender.id = s.id ∧ (s.finish pkt).sender.part = s.part ∧ (s.finish pkt).pkt = pkt
      ∧ (s.finish pkt).ok = true := by
  unfold finish
  split
  · exact ⟨rfl, rfl, rfl, rfl⟩
  · exact ⟨rfl, rfl, rfl, rfl⟩

/-- **A call makes the next packet, or none.** -/
theorem process_numbered {virtuals : SenderVirtuals δ} (h : Numbered virtuals) (s : StreamSender δ) :
    (s.process virtuals).sender.id = s.id
      ∧ ((s.process virtuals).ok = false ∨ (s.process virtuals).pkt = none →
          (s.process virtuals).sender.part = s.part)
      ∧ ∀ pkt, (s.process virtuals).ok = true → (s.process virtuals).pkt = some pkt →
          (s.process virtuals).sender.part = s.part + 1
            ∧ pkt.head.streamId = s.id ∧ pkt.head.part = s.part + 1 := by
  rw [process_eq]
  generalize bytesToSend s.size s.part = bytesToSend
  obtain ⟨hid, hpart⟩ := h.prepared s Packet.create bytesToSend (s.part * MAX_PACKET_BODY)
  have hpacket := h.packet s Packet.create bytesToSend (s.part * MAX_PACKET_BODY)
  generalize virtuals.preparePacket s Packet.create bytesToSend (s.part * MAX_PACKET_BODY) = prepared
    at hid hpart hpacket
  obtain ⟨ok, pkt, s₁⟩ := prepared
  dsimp only at hid hpart hpacket
  cases ok with
  | false => exact ⟨hid, fun _ => hpart, fun _ hok => by cases hok⟩
  | true =>
    cases pkt with
    | none =>
      obtain ⟨hid', hpart', hpkt', -⟩ := s₁.finish_fields none
      refine ⟨hid'.trans hid, fun _ => hpart'.trans hpart, fun pkt _ hpkt => ?_⟩
      cases hpkt'.symm.trans hpkt
    | some pkt =>
      obtain ⟨hstreamId, hpktPart⟩ := hpacket pkt rfl
      obtain ⟨hid₂, hpart₂⟩ := h.processed s₁ pkt
      obtain ⟨hkeptId, hkeptPart⟩ := h.kept s₁ pkt
      dsimp only
      generalize virtuals.processPacket s₁ pkt = processed at hid₂ hpart₂ hkeptId hkeptPart
      obtain ⟨ok, pkt', s₂⟩ := processed
      dsimp only at hid₂ hpart₂ hkeptId hkeptPart
      cases ok with
      | false => exact ⟨hid₂.trans hid, fun _ => hpart₂.trans hpart, fun _ hok => by cases hok⟩
      | true =>
        obtain ⟨hid', hpart', hpkt', hok'⟩ := ({ s₂ with part := s₂.part + 1 }).finish_fields (some pkt')
        refine ⟨hid'.trans (hid₂.trans hid), fun hnone => ?_, fun pkt'' _ hpkt => ?_⟩
        · rcases hnone with hnone | hnone
          · cases hok'.symm.trans hnone
          · cases hpkt'.symm.trans hnone
        · obtain rfl := Option.some.inj (hpkt'.symm.trans hpkt)
          refine ⟨hpart'.trans ?_, hkeptId.trans hstreamId, hkeptPart.trans hpktPart⟩
          exact congrArg (· + 1) (hpart₂.trans hpart)

end StreamSender

namespace Client

/-! ## The senders of a client -/

/-- The members of a `UbjSender`, or of a `ResourceSender`. -/
inductive ClientStream where
  | request (buffer : MemoryBuffer)
  | resource (stream : ResourceStream)

namespace ClientStream

variable (aes_encrypt : Bytes → Bytes → Bytes)

/-- The virtual functions of the class that a sender is of. -/
def virtuals : SenderVirtuals ClientStream where
  preparePacket := fun s pkt bytesToSend bytesSent =>
    match s.sub with
    | .request buffer =>
        let p := BufferSender.virtuals.preparePacket (s.withSub buffer) pkt bytesToSend bytesSent
        (p.1, p.2.1, p.2.2.withSub (.request p.2.2.sub))
    | .resource stream =>
        let p := (ResourceSender.virtuals aes_encrypt).preparePacket (s.withSub stream) pkt bytesToSend
          bytesSent
        (p.1, p.2.1, p.2.2.withSub (.resource p.2.2.sub))
  processPacket := fun s pkt =>
    match s.sub with
    | .request buffer =>
        let p := BufferSender.virtuals.processPacket (s.withSub buffer) pkt
        (p.1, p.2.1, p.2.2.withSub (.request p.2.2.sub))
    | .resource stream =>
        let p := (ResourceSender.virtuals aes_encrypt).processPacket (s.withSub stream) pkt
        (p.1, p.2.1, p.2.2.withSub (.resource p.2.2.sub))

theorem setBody_head (pkt : Packet) (body : MemoryBuffer) (bodySize : UInt32) :
    (pkt.setBody body bodySize).head.streamId = pkt.head.streamId
      ∧ (pkt.setBody body bodySize).head.part = pkt.head.part := by
  unfold Packet.setBody
  split
  · exact ⟨rfl, rfl⟩
  · exact ⟨rfl, rfl⟩

theorem numbered_request : StreamSender.Numbered BufferSender.virtuals where
  prepared := by
    intro s pkt bytesToSend bytesSent
    change (BufferSender.preparePacket s pkt bytesToSend bytesSent).2.2.id = s.id
      ∧ (BufferSender.preparePacket s pkt bytesToSend bytesSent).2.2.part = s.part
    unfold BufferSender.preparePacket
    dsimp only
    split
    · exact ⟨rfl, rfl⟩
    · split
      · exact ⟨rfl, rfl⟩
      · split
        · exact ⟨rfl, rfl⟩
        · exact ⟨rfl, rfl⟩
  packet := by
    intro s pkt bytesToSend bytesSent pkt' h
    change (BufferSender.preparePacket s pkt bytesToSend bytesSent).2.1 = some pkt' at h
    unfold BufferSender.preparePacket at h
    dsimp only at h
    split at h
    · obtain rfl := Option.some.inj h
      exact ⟨rfl, rfl⟩
    · split at h
      · obtain rfl := Option.some.inj h
        exact ⟨rfl, rfl⟩
      · split at h
        · obtain rfl := Option.some.inj h
          exact setBody_head _ _ _
        · cases h
  processed := fun _ _ => ⟨rfl, rfl⟩
  kept := fun _ _ => ⟨rfl, rfl⟩

theorem numbered_resource : StreamSender.Numbered (ResourceSender.virtuals aes_encrypt) where
  prepared := by
    intro s pkt bytesToSend bytesSent
    change (ResourceSender.preparePacket s pkt bytesToSend bytesSent).2.2.id = s.id
      ∧ (ResourceSender.preparePacket s pkt bytesToSend bytesSent).2.2.part = s.part
    unfold ResourceSender.preparePacket
    dsimp only
    split
    · exact ⟨rfl, rfl⟩
    · exact ⟨rfl, rfl⟩
  packet := by
    intro s pkt bytesToSend bytesSent pkt' h
    change (ResourceSender.preparePacket s pkt bytesToSend bytesSent).2.1 = some pkt' at h
    unfold ResourceSender.preparePacket at h
    dsimp only at h
    split at h
    · obtain rfl := Option.some.inj h
      exact ⟨rfl, rfl⟩
    · obtain rfl := Option.some.inj h
      exact setBody_head _ _ _
  processed := by
    intro s pkt
    change (ResourceSender.processPacket aes_encrypt s pkt).2.2.id = s.id
      ∧ (ResourceSender.processPacket aes_encrypt s pkt).2.2.part = s.part
    unfold ResourceSender.processPacket
    split
    · exact ⟨rfl, rfl⟩
    · split
      · exact ⟨rfl, rfl⟩
      · exact ⟨rfl, rfl⟩
  kept := by
    intro s pkt
    change (ResourceSender.processPacket aes_encrypt s pkt).2.1.head.streamId = pkt.head.streamId
      ∧ (ResourceSender.processPacket aes_encrypt s pkt).2.1.head.part = pkt.head.part
    unfold ResourceSender.processPacket
    split
    · exact ⟨rfl, rfl⟩
    · split
      · exact ⟨rfl, rfl⟩
      · exact ⟨rfl, rfl⟩

/-- **Both classes number their packets.** -/
theorem numbered : StreamSender.Numbered (virtuals aes_encrypt) where
  prepared := by
    intro s pkt bytesToSend bytesSent
    unfold virtuals
    dsimp only
    cases s.sub with
    | request buffer => exact numbered_request.prepared (s.withSub buffer) _ _ _
    | resource stream => exact (numbered_resource aes_encrypt).prepared (s.withSub stream) _ _ _
  packet := by
    intro s pkt bytesToSend bytesSent pkt' h
    unfold virtuals at h
    dsimp only at h
    cases hsub : s.sub with
    | request buffer =>
      rw [hsub] at h
      exact numbered_request.packet (s.withSub buffer) _ _ _ pkt' h
    | resource stream =>
      rw [hsub] at h
      exact (numbered_resource aes_encrypt).packet (s.withSub stream) _ _ _ pkt' h
  processed := by
    intro s pkt
    unfold virtuals
    dsimp only
    cases s.sub with
    | request buffer => exact numbered_request.processed (s.withSub buffer) pkt
    | resource stream => exact (numbered_resource aes_encrypt).processed (s.withSub stream) pkt
  kept := by
    intro s pkt
    unfold virtuals
    dsimp only
    cases s.sub with
    | request buffer => exact numbered_request.kept (s.withSub buffer) pkt
    | resource stream => exact (numbered_resource aes_encrypt).kept (s.withSub stream) pkt

/-- A sender of a resource does what its class does. -/
theorem process_resource (s : ResourceSender) :
    (s.withSub (ClientStream.resource s.sub)).process (virtuals aes_encrypt) =
      { ok := (s.process (ResourceSender.virtuals aes_encrypt)).ok
        pkt := (s.process (ResourceSender.virtuals aes_encrypt)).pkt
        sender := (s.process (ResourceSender.virtuals aes_encrypt)).sender.withSub
          (.resource (s.process (ResourceSender.virtuals aes_encrypt)).sender.sub)
        invoked := (s.process (ResourceSender.virtuals aes_encrypt)).invoked } := by
  have hfinish : ∀ (s : ResourceSender) (pkt : Option Packet),
      (s.withSub (ClientStream.resource s.sub)).finish pkt =
        { ok := (s.finish pkt).ok
          pkt := (s.finish pkt).pkt
          sender := (s.finish pkt).sender.withSub (.resource (s.finish pkt).sender.sub)
          invoked := (s.finish pkt).invoked } := by
    intro s pkt
    unfold StreamSender.finish StreamSender.withSub
    dsimp only
    split
    · rfl
    · rfl
  obtain ⟨id, type, status, size, part, parts, sub⟩ := s
  rw [StreamSender.process_eq, StreamSender.process_eq]
  unfold virtuals
  dsimp only [StreamSender.withSub]
  generalize (ResourceSender.virtuals aes_encrypt).preparePacket _ Packet.create _ _ = prepared
  obtain ⟨ok, pkt, s₁⟩ := prepared
  cases ok with
  | false => rfl
  | true =>
    cases pkt with
    | none => exact hfinish s₁ none
    | some pkt =>
      dsimp only
      generalize (ResourceSender.virtuals aes_encrypt).processPacket s₁ pkt = processed
      obtain ⟨ok, pkt', s₂⟩ := processed
      cases ok with
      | false => rfl
      | true => exact hfinish { s₂ with part := s₂.part + 1 } (some pkt')

end ClientStream

/-- A sender that is about to be added. -/
inductive NewStream where
  /-- `UbjSender::create`. -/
  | request (id type : UInt32) (value : Ubj.Value)
  /-- `ResourceSender::create`. -/
  | resource (res : Resource) (key salt : MemoryBuffer)

namespace NewStream

def id : NewStream → UInt32
  | request id _ _ => id
  | resource res _ _ => res.id

def sender : NewStream → StreamSender ClientStream
  | request id type value =>
      let s := UbjSender.create id type value
      s.withSub (.request s.sub)
  | resource res key salt =>
      match ResourceSender.create (some res) (some key) (some salt) with
      | some s => s.withSub (.resource s.sub)
      | none => StreamSender.new 0 Packet.Resource 0 (.resource ⟨res, AES.new⟩)

/-- It begins before its first packet. -/
theorem sender_fields (new : NewStream) : new.sender.id = new.id ∧ new.sender.part = 0 := by
  cases new with
  | request id type value =>
    obtain ⟨hid, hpart⟩ := (StreamSender.new id type 0
      (MemoryBuffer.ofData (Ubj.Writer.write value))).init_fields
        (UInt32.ofNat (MemoryBuffer.ofData (Ubj.Writer.write value)).size)
    exact ⟨hid, hpart⟩
  | resource res key salt =>
    obtain ⟨-, hpart⟩ := (StreamSender.new 0 Packet.Resource 0
      (⟨res, (AES.new.setKey (some key)).setCtr (some salt)⟩ : ResourceStream)).init_fields res.size
    exact ⟨rfl, hpart⟩

end NewStream

/-! ## The sender of a client -/

section

variable (aes_encrypt : Bytes → Bytes → Bytes) (posts : Nat → List NewStream)

/-- `Sender`, with what the callbacks of the stream senders add. -/
def clientSender : Thread.HandlerVirtuals Packet (SenderTable ClientStream) Thread.SenderRound NewStream where
  start := .start
  getElements :=
    Thread.getElements (ClientStream.virtuals aes_encrypt) (fun h => (posts h).map NewStream.sender)
  add := fun new table =>
    if new.sender.id = 0 then none else some (table.addStreamSender new.sender)
  Unfinished := Thread.UnfinishedSender

/-- What the turn of one stream sender does to the table and to the queue. -/
structure Turn (posts : Nat → List (StreamSender ClientStream)) (h : Nat)
    (sender : StreamSender ClientStream) (table table' : SenderTable ClientStream)
    (queue queue' : List Packet) (goesOn : Bool) (p : Sent ClientStream) : Prop where
  table : table' = storeSent posts table h p
    ∨ goesOn = false ∧ table' = (storeSent posts table h p).removeStreamSender h
  id : p.sender.id = sender.id
  queue : queue' = queue ∧ p.sender.part = sender.part
    ∨ ∃ pkt : Packet, queue' = queue ++ [pkt] ∧ pkt.head.streamId = sender.id
      ∧ pkt.head.part = sender.part + 1 ∧ p.sender.part = sender.part + 1

theorem turn_processStreamSender (posts : Nat → List (StreamSender ClientStream)) {h : Nat}
    {table : SenderTable ClientStream} {sender : StreamSender ClientStream} (queue : List Packet)
    (hsender : table.objects[h]? = some sender) :
    ∃ p, Turn posts h sender table
      (processStreamSender (ClientStream.virtuals aes_encrypt) posts true Thread.pushBack h
        ⟨table, queue, 0⟩).2.table queue
      (processStreamSender (ClientStream.virtuals aes_encrypt) posts true Thread.pushBack h
        ⟨table, queue, 0⟩).2.out
      (processStreamSender (ClientStream.virtuals aes_encrypt) posts true Thread.pushBack h
        ⟨table, queue, 0⟩).1 p := by
  obtain ⟨hid, hkept, hnext⟩ := StreamSender.process_numbered (ClientStream.numbered aes_encrypt) sender
  unfold processStreamSender
  dsimp only
  rw [hsender]
  dsimp only
  generalize sender.process (ClientStream.virtuals aes_encrypt) = p at hid hkept hnext
  refine ⟨p, ?_⟩
  obtain ⟨ok, pkt, sender', invoked⟩ := p
  dsimp only at hid hkept hnext
  cases ok with
  | false => exact ⟨.inr ⟨rfl, rfl⟩, hid, .inl ⟨rfl, hkept (.inl rfl)⟩⟩
  | true =>
    cases pkt with
    | none =>
      dsimp only
      split
      · exact ⟨.inr ⟨rfl, rfl⟩, hid, .inl ⟨rfl, hkept (.inr rfl)⟩⟩
      · exact ⟨.inl rfl, hid, .inl ⟨rfl, hkept (.inr rfl)⟩⟩
    | some pkt =>
      obtain ⟨hpart, hstreamId, hpktPart⟩ := hnext pkt rfl rfl
      have hqueue : ∃ pkt' : Packet, queue ++ [{ pkt with body := pkt.body.bind MemoryBuffer.copy }]
          = queue ++ [pkt'] ∧ pkt'.head.streamId = sender.id ∧ pkt'.head.part = sender.part + 1
            ∧ sender'.part = sender.part + 1 := ⟨_, rfl, hstreamId, hpktPart, hpart⟩
      dsimp only [Thread.pushBack]
      split
      · exact ⟨.inr ⟨rfl, rfl⟩, hid, .inr hqueue⟩
      · exact ⟨.inl rfl, hid, .inr hqueue⟩

end

end Client

end Zway
