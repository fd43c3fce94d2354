import Zway.Client.Incoming
import Zway.Stream.Transfer

/-!
# The stream of one resource

What the packets of a resource do to a client, one after the other. The receiver follows
the stream of its sender, and the callback runs with the last packet. How many bytes the
receiver has counted is of no account, so `Follows` leaves it out: a receiver that was
left behind in the middle of a stream follows the next one as well, with the counter of
its cipher where it is, and then holds another text.
-/

namespace Zway

/-! ## Receivers that follow a stream -/

/-- The receiver with another count of its bytes. -/
def BufferReceiver.withBytes {δ : Type} (r : BufferReceiver δ) (n : UInt32) : BufferReceiver δ :=
  { r with bytesReceived := n }

/-- What is left behind, but for the count of the bytes. -/
def Received.withBytes {δ : Type} (p : Received δ) (n : UInt32) : Received δ :=
  { p with receiver := p.receiver.withBytes n }

namespace ResourceReceiver

variable {aes_encrypt : Bytes → Bytes → Bytes} {key ctr : Bytes} {s : BufferSender} {k j : Nat}

theorem store_withBytes (r : ResourceReceiver) (n : UInt32) (pkt : Packet) :
    ∃ m, BufferReceiver.processPacket (r.withBytes n) pkt = (BufferReceiver.processPacket r pkt).withBytes m := by
  have hbuffer : (r.withBytes n).buffer = r.buffer := rfl
  unfold BufferReceiver.processPacket
  rw [hbuffer]
  cases r.buffer.write pkt.bodyBytes ((pkt.head.part - 1) * MAX_PACKET_BODY) with
  | none => exact ⟨n, rfl⟩
  | some buffer => exact ⟨n + pkt.head.bodySize, rfl⟩

theorem processPacket_withBytes (r : ResourceReceiver) (n : UInt32) (pkt : Packet) :
    ∃ m, processPacket aes_encrypt (r.withBytes n) pkt = (processPacket aes_encrypt r pkt).withBytes m := by
  unfold processPacket
  split
  · cases pkt.body with
    | none => exact ⟨n, rfl⟩
    | some body =>
      dsimp only
      change ∃ m, (if (r.sub.decrypt _ _ _ _ _).1 = true then _ else _) = _
      split
      · exact store_withBytes { r with sub := _ } n _
      · exact ⟨n, rfl⟩
  · exact store_withBytes r n pkt

/-- The bytes are only counted. -/
theorem process_withBytes (r : ResourceReceiver) (n : UInt32) (pkt : Packet) :
    ∃ m, process aes_encrypt (r.withBytes n) pkt = (process aes_encrypt r pkt).withBytes m := by
  by_cases horder : r.OutOfOrder pkt
  · have horder' : (r.withBytes n).OutOfOrder pkt := horder
    unfold process
    rw [BufferReceiver.process_outOfOrder horder, BufferReceiver.process_outOfOrder horder']
    exact ⟨n, rfl⟩
  · have horder' : ¬ (r.withBytes n).OutOfOrder pkt := horder
    obtain ⟨m, hm⟩ := @processPacket_withBytes aes_encrypt r n pkt
    refine ⟨m, ?_⟩
    unfold process BufferReceiver.process
    rw [if_neg horder, if_neg horder', hm]
    generalize processPacket aes_encrypt r pkt = p
    dsimp only [Received.withBytes, BufferReceiver.withBytes]
    split
    · split
      · rfl
      · rfl
    · rfl

/-- What no packet changes. -/
theorem processPacket_fields (r : ResourceReceiver) (pkt : Packet) :
    (processPacket aes_encrypt r pkt).receiver.id = r.id
      ∧ (processPacket aes_encrypt r pkt).receiver.status = r.status := by
  have hstore : ∀ (r : ResourceReceiver) (pkt : Packet),
      (BufferReceiver.processPacket r pkt).receiver.id = r.id
        ∧ (BufferReceiver.processPacket r pkt).receiver.status = r.status := by
    intro r pkt
    unfold BufferReceiver.processPacket
    cases r.buffer.write pkt.bodyBytes ((pkt.head.part - 1) * MAX_PACKET_BODY) with
    | none => exact ⟨rfl, rfl⟩
    | some buffer => exact ⟨rfl, rfl⟩
  unfold processPacket
  split
  · cases pkt.body with
    | none => exact ⟨rfl, rfl⟩
    | some body =>
      dsimp only
      split
      · exact hstore _ _
      · exact ⟨rfl, rfl⟩
  · exact hstore r pkt

theorem process_id (r : ResourceReceiver) (pkt : Packet) :
    (process aes_encrypt r pkt).receiver.id = r.id := by
  obtain ⟨hid, -⟩ := @processPacket_fields aes_encrypt r pkt
  unfold process BufferReceiver.process
  split
  · rfl
  · dsimp only
    split
    · split
      · exact hid
      · exact hid
    · exact hid

/-- A receiver that turns a packet down is not completed by it. -/
theorem process_rejected {r : ResourceReceiver} {pkt : Packet} (hstatus : r.status ≠ .completed)
    (hok : (process aes_encrypt r pkt).ok = false) :
    (process aes_encrypt r pkt).receiver.id = r.id
      ∧ (process aes_encrypt r pkt).receiver.status ≠ .completed := by
  refine ⟨process_id r pkt, ?_⟩
  unfold process BufferReceiver.process at hok ⊢
  by_cases horder : r.OutOfOrder pkt
  · rw [if_pos horder]
    exact hstatus
  · rw [if_neg horder] at hok ⊢
    dsimp only at hok ⊢
    by_cases hp : (processPacket aes_encrypt r pkt).ok = true
    · rw [if_pos hp] at hok
      split at hok
      · cases hok
      · cases hok
    · rw [if_neg hp]
      exact fun herror => by cases herror

/-- The receiver after `j` packets, apart from the number of bytes. -/
def Follows (key ctr : Bytes) (s : BufferSender) (r : ResourceReceiver) (j : Nat) : Prop :=
  ∃ n, At key ctr s (r.withBytes n) j

theorem Follows.process_eq {r : ResourceReceiver} (h : s.At k) (hr : Follows key ctr s r j)
    (hj : j < s.parts.toNat) :
    ∃ r' accesses, process aes_encrypt r
        ((s.withText (ciphertext aes_encrypt key ctr s.sub)).packet j)
          = ⟨true, r', accesses, decide (j + 1 = s.parts.toNat)⟩
      ∧ Follows key ctr s r' (j + 1)
      ∧ r'.status = if j + 1 = s.parts.toNat then .completed else r.status := by
  obtain ⟨n, hat⟩ := hr
  obtain ⟨r', accesses, hprocess, hr', hstatus⟩ := @At.process_eq aes_encrypt key ctr s k j _ h hat hj
  obtain ⟨m, hm⟩ := @process_withBytes aes_encrypt r n
    ((s.withText (ciphertext aes_encrypt key ctr s.sub)).packet j)
  rw [hprocess] at hm
  generalize process aes_encrypt r ((s.withText (ciphertext aes_encrypt key ctr s.sub)).packet j) = p
    at hm ⊢
  obtain ⟨ok, receiver, accesses', invoked⟩ := p
  injection hm with hok hreceiver haccesses hinvoked
  subst hok hreceiver hinvoked
  exact ⟨receiver, accesses', rfl, ⟨m, hr'⟩, hstatus⟩

/-- The receiver of a whole stream holds its text. -/
theorem Follows.complete {r : ResourceReceiver} (h : s.At k) (hr : Follows key ctr s r s.parts.toNat) :
    r.buffer.data.take s.sub.size = s.sub.data := by
  obtain ⟨n, hat⟩ := hr
  exact (hat.holds.complete h).2

/-- The receiver that the first packet makes. -/
theorem follows_init (h : s.At k) :
    Follows key ctr s (BufferReceiver.init (s.packet 0) (contextAt key ctr 0)) 0 :=
  ⟨0, BufferReceiver.init_holds h _, fun _ => rfl⟩

end ResourceReceiver

/-! ## The stream of a resource -/

namespace Client

/-- A resource sender has the counters of a buffer sender. -/
theorem create_asBuffer {id : UInt32} {key salt data : MemoryBuffer} {s : ResourceSender}
    (h : ResourceSender.create (some ⟨id, some data⟩) (some key) (some salt) = some s)
    (buffer : MemoryBuffer) :
    s.asBuffer buffer = (BufferSender.create id Packet.Resource data).withText buffer := by
  obtain rfl := Option.some.inj h
  unfold BufferSender.create StreamSender.init ResourceSender.asBuffer BufferSender.withText
    Resource.size
  dsimp only
  split
  · rfl
  · rfl

/-- The sender of the plaintext of a resource. -/
def Content.sender (content : Content) (id : UInt32) : BufferSender :=
  BufferSender.create id Packet.Resource content.data

theorem Content.sender_at (content : Content) (id : UInt32) : (content.sender id).At 0 :=
  BufferSender.create_at content.pos content.le

theorem Content.sender_sub (content : Content) (id : UInt32) :
    (content.sender id).sub = content.data :=
  (BufferSender.create_fields id Packet.Resource content.data).2.2.2

theorem Content.sender_id (content : Content) (id : UInt32) : (content.sender id).id = id :=
  (BufferSender.create_fields id Packet.Resource content.data).1

theorem Content.sender_type (content : Content) (id : UInt32) :
    (content.sender id).type = Packet.Resource :=
  (BufferSender.create_fields id Packet.Resource content.data).2.1

/-- How many packets the stream has. -/
def Content.parts (content : Content) (id : UInt32) : Nat := (content.sender id).parts.toNat

theorem Content.parts_eq (content : Content) (id : UInt32) :
    content.parts id = blockCount 65536 content.data.size := by
  unfold Content.parts
  rw [(content.sender_at id).parts, content.sender_sub]

theorem Content.parts_pos (content : Content) (id : UInt32) : 0 < content.parts id := by
  rw [content.parts_eq]
  exact blockCount_pos (by decide) content.pos

section

variable {aes_encrypt : Bytes → Bytes → Bytes}

/-- The counter that a resource of a push starts with. -/
def Push.ctr (p : Push) (id : UInt32) : Bytes :=
  p.salt.data.take 8 ++ leBytes 4 id.toNat ++ [0, 0, 0, 0]

theorem Push.ctr_length (p : Push) (id : UInt32) : (p.ctr id).length = 16 := by
  have hlen : p.salt.data.length = 16 := p.salt_size
  unfold Push.ctr
  rw [List.length_append, List.length_append, List.length_take, leBytes_length]
  simp [hlen]

variable (aes_encrypt) in
/-- Packet `j` of the stream. -/
def Push.packet (p : Push) (id : UInt32) (content : Content) (j : Nat) : Packet :=
  ((content.sender id).withText (ciphertext aes_encrypt p.key.data (p.ctr id) content.data)).packet j

/-- **What is transmitted** are the packets of the ciphertext. -/
theorem Push.packets_eq (p : Push) (id : UInt32) (content : Content) :
    p.packets aes_encrypt id content
      = (List.range' 0 (content.parts id)).map (p.packet aes_encrypt id content) := by
  obtain ⟨ctr, hctr, hbytes⟩ := resourceSalt_eq p.salt_size id
  have hsize : ctr.size = 16 := (congrArg List.length hbytes).trans (p.ctr_length id)
  obtain ⟨s, hcreate, hs⟩ := ResourceSender.create_at id p.key_size hsize content.pos content.le
  have hparts : s.parts.toNat = content.parts id := hs.counters.parts.trans (content.parts_eq id).symm
  obtain ⟨s', -, hsend⟩ := ResourceSender.At.sendAll aes_encrypt s.parts.toNat hs
    (hparts ▸ content.parts_pos id) (Nat.sub_zero _)
  unfold Push.packets Push.packet
  rw [hctr, hcreate]
  dsimp only
  rw [hsend _ (Nat.le_refl _), hparts, create_asBuffer hcreate, hbytes]
  rfl

/-! ## What a packet does -/

/-- A row that is found is found by its id. -/
theorem Records.find_unknown {s : Records} {id : UInt32} {row : ResourceRow}
    (h : s.resources.find? (fun row => row.id = id ∧ row.status = .unknown) = some row) :
    row ∈ s.resources ∧ row.id = id ∧ row.status = .unknown :=
  ⟨List.mem_of_find?_eq_some h, by simpa using List.find?_some h⟩

/-- **The first packet of an announced resource** makes a receiver, whatever it is. -/
theorem Records.createStreamReceiver_eq {s : Records} {p : Push} {id : UInt32} {pkt : Packet}
    {row : ResourceRow} {request : RequestRow} (hstream : pkt.head.streamId = id)
    (htype : pkt.head.streamType = Packet.Resource)
    (hrow : s.resources.find? (fun row => row.id = id ∧ row.status = .unknown) = some row)
    (hrequest : s.request row.request = some request) (hkey : request.key = p.key)
    (hsalt : request.salt = p.salt) :
    ∃ event : ClientEvent, (∀ messageId, event.isMessageReceived messageId = false) ∧
      s.createStreamReceiver pkt = ((s.updateResource id .incoming).post event,
        some (.resource
          ⟨BufferReceiver.init pkt (contextAt p.key.data (p.ctr id) 0), request⟩)) := by
  obtain ⟨ctr, hctr, hbytes⟩ := resourceSalt_eq p.salt_size id
  have hsize : ctr.size = 16 := (congrArg List.length hbytes).trans (p.ctr_length id)
  have hctr' : ctr.data = p.ctr id := hbytes
  obtain ⟨hmem, hid, -⟩ := Records.find_unknown hrow
  obtain ⟨row', hfind⟩ := Records.exists_resource
    (Records.mem_updateResource.mpr ⟨row, hmem, rfl⟩) ((Records.id_updated row id .incoming).trans hid)
  refine ⟨.resourceIncoming ((s.updateResource id .incoming).message row'.request) row', fun _ => rfl, ?_⟩
  unfold Records.createStreamReceiver Records.createResourceReceiver ResourceReceiver.create
  rw [if_pos htype]
  dsimp only
  rw [hstream, hrow]
  dsimp only
  rw [hrequest]
  dsimp only
  rw [hkey, hsalt, hctr]
  dsimp only
  rw [hfind, contextAt_zero p.key_size hsize, hctr']
  rfl

namespace Incoming

variable {key ctr : Bytes} {b : BufferSender} {k j : Nat}

/-- **The next packet** is stored, and the last one brings the callback about. -/
theorem processReceiver_eq {s : Incoming} {r : IncomingReceiver} (h : b.At k)
    (hr : ResourceReceiver.Follows key ctr b r.receiver j) (hj : j < b.parts.toNat)
    (hstatus : r.receiver.status ≠ .completed) :
    ∃ receiver : ResourceReceiver, ResourceReceiver.Follows key ctr b receiver (j + 1)
      ∧ (j + 1 < b.parts.toNat → receiver.status = r.receiver.status)
      ∧ s.processReceiver aes_encrypt r
          ((b.withText (ciphertext aes_encrypt key ctr b.sub)).packet j)
        = if j + 1 = b.parts.toNat then
            ⟨true,
              ⟨s.records.resourceReceived b.id receiver.buffer r.request,
                OrdMap.erase b.id
                  (OrdMap.insert b.id (.resource ⟨receiver, r.request⟩) s.streamReceivers)⟩, true⟩
          else
            ⟨true,
              ⟨s.records, OrdMap.insert b.id (.resource ⟨receiver, r.request⟩) s.streamReceivers⟩,
              false⟩ := by
  obtain ⟨receiver, accesses, hprocess, hr', hstatus'⟩ := @ResourceReceiver.Follows.process_eq aes_encrypt key ctr b k j _ h hr hj
  have hstream : ((b.withText (ciphertext aes_encrypt key ctr b.sub)).packet j).head.streamId = b.id := rfl
  have hid : receiver.id = b.id := by
    obtain ⟨n, hat⟩ := hr'
    exact hat.holds.id
  refine ⟨receiver, hr', fun hlt => hstatus'.trans (if_neg (Nat.ne_of_lt hlt)), ?_⟩
  unfold processReceiver
  dsimp only
  rw [hprocess, hstream]
  dsimp only
  rw [hid]
  by_cases hlast : j + 1 = b.parts.toNat
  · rw [if_pos hlast] at hstatus' ⊢
    simp [hstatus', hlast]
  · rw [if_neg hlast] at hstatus' ⊢
    simp [hstatus', hlast, hstatus]

end Incoming

end

end Client

end Zway
