import Zway.Client.Received

/-!
# Retransmission after an interruption

A resource whose first transmission was interrupted is transmitted again, in full. If the
connection was dropped before any packet came in, the client has seen nothing of it. If some
packets came in, their receiver is still in the table: it takes the new first packet, but
its cipher stands where the first attempt has left it. If a packet was rejected the receiver
is gone, and the row is incoming, so no packet makes a new one; only a packet of another type
that comes before any of the resource leaves its row alone. `restored_iff` says what is left:
the key stream must repeat.
-/

namespace Zway

/-! ## A receiver that was left behind -/

theorem BufferSender.withText_at {s : BufferSender} {k : Nat} (h : s.At k) {buffer : MemoryBuffer}
    (hsize : buffer.size = s.sub.size) : (s.withText buffer).At k where
  size := h.size.trans hsize.symm
  pos := Nat.lt_of_lt_of_eq h.pos hsize.symm
  le := le_of_eq_of_le hsize h.le
  parts := h.parts.trans (congrArg _ hsize.symm)
  part := h.part

/-- From its next first packet on it follows the stream of another text, with another counter. -/
theorem ResourceReceiver.Follows.restart {key ctr : Bytes} {s : BufferSender} {r : ResourceReceiver}
    {k : Nat} (hr : Follows key ctr s r k) (hk : k < s.parts.toNat) (buffer : MemoryBuffer) :
    Follows key (Ctr.advance ctr (k * (65536 / 16))) (s.withText buffer) r 0 := by
  obtain ⟨n, hholds, haes⟩ := hr
  refine ⟨0, ⟨hholds.id, hholds.parts, fun hpos => absurd hpos (Nat.lt_irrefl 0), hholds.size, ?_, ?_⟩,
    fun _ => ?_⟩
  · rw [Nat.zero_mul, Nat.zero_min]
    rfl
  · rw [Nat.zero_mul, List.take_zero]
    exact List.take_zero
  · refine (haes hk).trans ?_
    unfold contextAt
    rw [Nat.zero_mul, Ctr.advance_advance, Nat.add_zero]

/-- What such a receiver takes the ciphertext for. -/
theorem ciphertext_ciphertext (aes_encrypt : Bytes → Bytes → Bytes) (key ctr : Bytes)
    (data : MemoryBuffer) : ciphertext aes_encrypt key ctr (ciphertext aes_encrypt key ctr data) = data := by
  ext1
  exact congrArg Prod.snd (Ctr.crypt_crypt (aes_encrypt key) ctr data.data)

namespace Client

/-- How an attempt to transmit a resource ends. -/
inductive AttemptEnd where
  | dropped
  /-- One more packet of the stream comes in. -/
  | rejected (pkt : Packet)
  deriving DecidableEq

namespace Incoming

variable (aes_encrypt : Bytes → Bytes → Bytes)

/-- A resource that a push has announced, and of which nothing has come in. -/
structure Announced (s : Incoming) (p : Push) (id : UInt32) : Prop where
  row : ∃ row ∈ s.records.resources, row.id = id
  request : ∀ row ∈ s.records.resources, row.id = id → row.request = p.requestId
  status : ∀ row ∈ s.records.resources, row.id = id → row.status = .unknown
  receiver : OrdMap.find? s.streamReceivers id = none
  record : s.records.request p.requestId = some ⟨p.requestId, p.key, p.salt⟩

/-- The first packets of a resource. -/
def begun (s : Incoming) (p : Push) (id : UInt32) (content : Content) (k : Nat) : Incoming :=
  s.processAll aes_encrypt ((p.packets aes_encrypt id content).take k)

/-- The packet after which an attempt of `k` packets ends is one that is rejected. One that gets to
the buffer of a receiver has a body, or it would be a null pointer that ends the attempt. -/
def Rejects (s : Incoming) (id : UInt32) (k : Nat) : AttemptEnd → Prop
  | .dropped => True
  | .rejected pkt =>
      pkt.head.streamId = id ∧ (s.processIncomingPacket aes_encrypt pkt).ok = false
        ∧ (0 < k ∨ pkt.head.streamType = Packet.Resource ∨ pkt.head.streamType = Packet.Request →
          pkt.head.part ≤ 1 ∨ pkt.head.part.toNat = k + 1 → pkt.body.isSome = true)

/-- An end that the row of the resource does not notice: before it has a receiver, a packet of
another type is rejected without a look at the row. -/
def Unnoticed (k : Nat) : AttemptEnd → Prop
  | .dropped => True
  | .rejected pkt => k = 0 ∧ pkt.head.streamType ≠ Packet.Resource

/-- What is left of an attempt. A connection that is dropped leaves the receivers alone. -/
def interrupted (s : Incoming) : AttemptEnd → Incoming
  | .dropped => s
  | .rejected pkt => (s.processIncomingPacket aes_encrypt pkt).incoming

/-- The resource is received, and its content is what was stored. -/
def Restored (s : Incoming) (id : UInt32) (content : Content) : Prop :=
  ∃ row buffer, s.records.resource id = some row ∧ row.status = .received
    ∧ row.data = some buffer ∧ buffer.data.take content.data.size = content.data.data

variable {aes_encrypt}

theorem processAll_append (s : Incoming) (pkts pkts' : List Packet) :
    s.processAll aes_encrypt (pkts ++ pkts')
      = (s.processAll aes_encrypt pkts).processAll aes_encrypt pkts' :=
  List.foldl_append

theorem processAll_cons (s : Incoming) (pkt : Packet) (pkts : List Packet) :
    s.processAll aes_encrypt (pkt :: pkts)
      = (s.processIncomingPacket aes_encrypt pkt).incoming.processAll aes_encrypt pkts := rfl

/-! ## The first attempt -/

variable {s : Incoming} {p : Push} {id : UInt32} {content : Content} {k : Nat}

theorem Announced.tracks (h : s.Announced p id) (content : Content) : Tracks p id content s 0 where
  le := Nat.zero_le _
  row := h.row
  request := h.request
  status := h.status
  receiver := fun hpos => absurd hpos (Nat.lt_irrefl 0)
  vacant := fun _ => h.receiver

/-- **The first packets** are stored, and the request stays. -/
theorem tracks_begun (h : s.Announced p id) : ∀ {k : Nat}, k < content.parts id →
    Tracks p id content (s.begun aes_encrypt p id content k) k
      ∧ (s.begun aes_encrypt p id content k).records.request p.requestId
        = some ⟨p.requestId, p.key, p.salt⟩
  | 0, _ => ⟨h.tracks content, h.record⟩
  | k + 1, hk => by
      have hlt : k < content.parts id := Nat.lt_of_succ_lt hk
      obtain ⟨htracks, hrequest⟩ := tracks_begun h hlt
      have hnext : s.begun aes_encrypt p id content (k + 1)
          = ((s.begun aes_encrypt p id content k).processIncomingPacket aes_encrypt
            (p.packet aes_encrypt id content k)).incoming := by
        unfold begun
        rw [Push.packets_eq, ← List.map_take, ← List.map_take,
          List.take_range'_of_length_ge (Nat.le_of_lt hlt), List.take_range'_of_length_ge (Nat.le_of_lt hk),
          List.range'_concat, List.map_append, processAll_append, Nat.one_mul, Nat.zero_add]
        rfl
      have hd := @Tracks.delivered aes_encrypt p id content k _ htracks hlt hrequest
      have hsame := hd.same (.inl (Nat.ne_of_lt hk))
      rw [hnext]
      refine ⟨hd.tracks htracks hlt, ?_⟩
      unfold Records.request at hrequest ⊢
      rw [hsame.requests]
      exact hrequest

/-! ## After a rejected packet -/

/-- The rows of the resource are incoming, but nothing takes its packets. -/
structure Dead (s : Incoming) (id : UInt32) : Prop where
  row : ∃ row ∈ s.records.resources, row.id = id
  status : ∀ row ∈ s.records.resources, row.id = id → row.status = .incoming
  receiver : OrdMap.find? s.streamReceivers id = none

/-- No packet changes that. -/
theorem Dead.processAll (h : s.Dead id) : ∀ (pkts : List Packet),
    (∀ pkt ∈ pkts, pkt.head.streamId = id ∧ pkt.head.streamType = Packet.Resource) →
    s.processAll aes_encrypt pkts = s
  | [], _ => rfl
  | pkt :: pkts, hpkts => by
      obtain ⟨hstream, htype⟩ := hpkts pkt (List.mem_cons_self ..)
      have hnone : s.records.resources.find? (fun row => row.id = id ∧ row.status = .unknown) = none := by
        refine List.find?_eq_none.mpr (fun row hrow hfound => ?_)
        obtain ⟨hid, hunknown⟩ := of_decide_eq_true hfound
        cases (h.status row hrow hid).symm.trans hunknown
      have hpacket : (s.processIncomingPacket aes_encrypt pkt).incoming = s := by
        unfold processIncomingPacket Records.createStreamReceiver Records.createResourceReceiver
        rw [if_pos htype]
        dsimp only
        rw [hstream, h.receiver, hnone]
        rfl
      rw [processAll_cons, hpacket]
      exact h.processAll pkts (fun pkt' hpkt' => hpkts pkt' (List.mem_cons_of_mem _ hpkt'))

theorem Dead.not_restored (h : s.Dead id) : ¬ s.Restored id content := by
  rintro ⟨row, buffer, hrow, hstatus, -⟩
  obtain ⟨hmem, hid⟩ := Records.resource_mem hrow
  cases (h.status row hmem hid).symm.trans hstatus

/-- A packet that is rejected takes its receiver with it. -/
theorem processReceiver_rejected {r : IncomingReceiver} {pkt : Packet} (hid : r.receiver.id = id)
    (hstream : pkt.head.streamId = id) (hstatus : r.receiver.status ≠ .completed)
    (hok : (s.processReceiver aes_encrypt r pkt).ok = false) :
    (s.processReceiver aes_encrypt r pkt).incoming.records = s.records
      ∧ OrdMap.find? (s.processReceiver aes_encrypt r pkt).incoming.streamReceivers id = none := by
  have hrejected : (ResourceReceiver.process aes_encrypt r.receiver pkt).ok = false := by
    unfold processReceiver at hok
    dsimp only at hok
    split at hok
    · exact hok
    · cases hok
  obtain ⟨hid', hstatus'⟩ := ResourceReceiver.process_rejected hstatus hrejected
  unfold processReceiver
  dsimp only
  rw [if_pos (.inl hrejected), hid', hid, hstream]
  exact ⟨if_neg (fun hc => hstatus' hc.2), OrdMap.find?_erase_self _ _⟩

/-- **After a rejected packet the resource is dead.** -/
theorem Rejects.dead (htracks : Tracks p id content s k) (hk : k < content.parts id)
    (hrequest : s.records.request p.requestId = some ⟨p.requestId, p.key, p.salt⟩) {pkt : Packet}
    (h : s.Rejects aes_encrypt id k (.rejected pkt))
    (htype : k = 0 → pkt.head.streamType = Packet.Resource) :
    (s.interrupted aes_encrypt (.rejected pkt)).Dead id := by
  obtain ⟨hstream, hok, -⟩ := h
  obtain ⟨records, r, hmarks, -, -, hstatus, hnew, hold, hprocess⟩ :=
    @Tracks.receiver_any aes_encrypt p id content k s htracks hk hrequest _ hstream htype
  have hid : r.receiver.id = id := by
    by_cases hzero : k = 0
    · rw [hnew hzero]
      exact hstream
    · obtain ⟨n, hat⟩ := hold (Nat.pos_of_ne_zero hzero)
      exact hat.holds.id.trans (content.sender_id id)
  change (s.processIncomingPacket aes_encrypt pkt).incoming.Dead id
  rw [hprocess] at hok ⊢
  obtain ⟨hrecords, hreceiver⟩ := processReceiver_rejected hid hstream hstatus hok
  refine ⟨?_, ?_, hreceiver⟩
  · rw [hrecords]
    exact hmarks.exists_id htracks.row
  · -- its row is incoming for good
    rw [hrecords]
    refine (hmarks.forall_iff (fun id' _ status => id' = id → status = .incoming)).mpr
      (fun row _ hrowId => if_pos hrowId)

/-- **After a rejected packet of another type** the resource is as it was. -/
theorem Rejects.unnoticed (hvacant : OrdMap.find? s.streamReceivers id = none) {pkt : Packet}
    (h : s.Rejects aes_encrypt id k (.rejected pkt))
    (htype : pkt.head.streamType ≠ Packet.Resource) :
    (s.interrupted aes_encrypt (.rejected pkt)).records = s.records
      ∧ OrdMap.find? (s.interrupted aes_encrypt (.rejected pkt)).streamReceivers id = none := by
  obtain ⟨hstream, hok, -⟩ := h
  change (s.processIncomingPacket aes_encrypt pkt).incoming.records = _
    ∧ OrdMap.find? (s.processIncomingPacket aes_encrypt pkt).incoming.streamReceivers id = none
  unfold processIncomingPacket Records.createStreamReceiver at hok ⊢
  rw [hstream, hvacant, if_neg htype] at hok ⊢
  by_cases hdocument : pkt.head.streamType = Packet.Request
  · -- the receiver of a document, which the rejection takes away again
    rw [if_pos hdocument] at hok ⊢
    change (s.processDocument (BufferReceiver.init pkt ()) pkt).ok = false at hok
    change (s.processDocument (BufferReceiver.init pkt ()) pkt).incoming.records = _
      ∧ OrdMap.find? (s.processDocument (BufferReceiver.init pkt ()) pkt).incoming.streamReceivers id
        = none
    have hid := BufferReceiver.process_id (BufferReceiver.init pkt ()) pkt
    unfold processDocument at hok ⊢
    dsimp only at hok ⊢
    rw [hid, show (BufferReceiver.init pkt ()).id = id from hstream]
    generalize BufferReceiver.process BufferReceiver.processPacket (BufferReceiver.init pkt ()) pkt = q
      at hok ⊢
    split at hok
    · rename_i hend
      rw [if_pos hend]
      exact ⟨rfl, OrdMap.find?_erase_self _ _⟩
    · cases hok
  · rw [if_neg hdocument]
    exact ⟨rfl, hvacant⟩

/-! ## The second attempt -/

/-- **A whole stream**, from a receiver that follows it. -/
theorem processReceiver_all {key ctr : Bytes} {b : BufferSender} (hb : b.At 0) :
    ∀ (n : Nat) {s : Incoming} {r : IncomingReceiver} {j : Nat}, j + n + 1 = b.parts.toNat →
    ResourceReceiver.Follows key ctr b r.receiver j → r.receiver.status ≠ .completed →
    ∃ buffer : MemoryBuffer, buffer.data.take b.sub.size = b.sub.data
      ∧ ((s.processReceiver aes_encrypt r
          ((b.withText (ciphertext aes_encrypt key ctr b.sub)).packet j)).incoming.processAll aes_encrypt
            ((List.range' (j + 1) n).map
              (b.withText (ciphertext aes_encrypt key ctr b.sub)).packet)).records
        = s.records.resourceReceived b.id buffer r.request
  | 0, s, r, j, hn, hr, hstatus => by
      obtain ⟨receiver, hr', -, heq⟩ :=
        @processReceiver_eq aes_encrypt key ctr b 0 j s r hb hr (by omega) hstatus
      have hlast : j + 1 = b.parts.toNat := hn
      rw [if_pos hlast] at heq
      rw [heq]
      exact ⟨receiver.buffer, (hlast ▸ hr').complete hb, rfl⟩
  | n + 1, s, r, j, hn, hr, hstatus => by
      obtain ⟨receiver, hr', hstatus', heq⟩ :=
        @processReceiver_eq aes_encrypt key ctr b 0 j s r hb hr (by omega) hstatus
      rw [if_neg (by omega)] at heq
      rw [heq, List.range'_succ, List.map_cons, processAll_cons]
      have hnext : ∀ s' : Incoming,
          OrdMap.find? s'.streamReceivers b.id = some (.resource ⟨receiver, r.request⟩) →
          s'.processIncomingPacket aes_encrypt
              ((b.withText (ciphertext aes_encrypt key ctr b.sub)).packet (j + 1))
            = s'.processReceiver aes_encrypt ⟨receiver, r.request⟩
              ((b.withText (ciphertext aes_encrypt key ctr b.sub)).packet (j + 1)) := by
        intro s' hfind
        have hstream : ((b.withText (ciphertext aes_encrypt key ctr b.sub)).packet (j + 1)).head.streamId
            = b.id := rfl
        unfold processIncomingPacket
        rw [hstream, hfind]
        rfl
      rw [hnext _ (OrdMap.find?_insert_self _ _ _)]
      exact processReceiver_all hb n (by omega) hr' (by rw [hstatus' (by omega)]; exact hstatus)

/-- What the callback stores. -/
theorem resource_resourceReceived {s : Records} (hrow : ∃ row ∈ s.resources, row.id = id)
    (buffer : MemoryBuffer) (request : RequestRow) :
    ∃ row, (s.resourceReceived id buffer request).resource id = some row
      ∧ row.status = .received ∧ row.data = some buffer := by
  have hresources : (s.resourceReceived id buffer request).resources
      = (s.storeResource id .received (some buffer)).resources := by
    unfold Records.resourceReceived
    dsimp only
    split
    · rfl
    · rfl
  obtain ⟨row, hmem, hid⟩ := hrow
  have hstored : (if row.id = id then { row with status := .received, data := some buffer } else row)
      ∈ (s.resourceReceived id buffer request).resources := by
    rw [hresources]
    exact List.mem_map.mpr ⟨row, hmem, rfl⟩
  rw [if_pos hid] at hstored
  obtain ⟨row', hfind⟩ := Records.exists_resource hstored hid
  obtain ⟨hmem', hid'⟩ := Records.resource_mem hfind
  rw [hresources] at hmem'
  obtain ⟨row₀, -, rfl⟩ := List.mem_map.mp hmem'
  refine ⟨_, hfind, ?_⟩
  by_cases hrow₀ : row₀.id = id
  · rw [if_pos hrow₀]
    exact ⟨rfl, rfl⟩
  · rw [if_neg hrow₀] at hid'
    exact absurd hid' hrow₀

/-- What is stored for the resource, after the connection was dropped. -/
theorem restored_of_dropped (htracks : Tracks p id content s k) (hk : k < content.parts id)
    (hrequest : s.records.request p.requestId = some ⟨p.requestId, p.key, p.salt⟩) :
    (s.processAll aes_encrypt (p.packets aes_encrypt id content)).Restored id content
      ↔ ∀ i < content.data.size, Ctr.keyStream (aes_encrypt p.key.data) (p.ctr id) i
        = Ctr.keyStream (aes_encrypt p.key.data) (p.ctr id) (k * 65536 + i) := by
  have hstream : (p.packet aes_encrypt id content 0).head.streamId = id := content.sender_id id
  obtain ⟨records, r, hmarks, -, -, hstatus, hnew, hold, hprocess⟩ :=
    @Tracks.receiver_any aes_encrypt p id content k s htracks hk hrequest _ hstream
      (fun _ => content.sender_type id)
  have hfollows : ResourceReceiver.Follows p.key.data (p.ctr id) (content.sender id) r.receiver k := by
    by_cases hzero : k = 0
    · subst hzero
      rw [hnew rfl]
      exact ResourceReceiver.follows_init (content.sender_at id)
    · exact hold (Nat.pos_of_ne_zero hzero)
  -- the text that the receiver makes of the second stream
  obtain ⟨ctr', hctr'⟩ : ∃ ctr', ctr' = Ctr.advance (p.ctr id) (k * (65536 / 16)) := ⟨_, rfl⟩
  obtain ⟨data', hdata'⟩ : ∃ data', data' = ciphertext aes_encrypt p.key.data ctr'
      (ciphertext aes_encrypt p.key.data (p.ctr id) content.data) := ⟨_, rfl⟩
  have hsize : data'.size = content.data.size := by
    rw [hdata', ciphertext_size, ciphertext_size]
  have hrestart := hfollows.restart hk data'
  rw [← hctr'] at hrestart
  have hb : ((content.sender id).withText data').At 0 :=
    BufferSender.withText_at (content.sender_at id) (hsize.trans (by rw [content.sender_sub]))
  have hpacket : ∀ j, (((content.sender id).withText data').withText
      (ciphertext aes_encrypt p.key.data ctr' ((content.sender id).withText data').sub)).packet j
        = p.packet aes_encrypt id content j := by
    intro j
    have hcipher : ciphertext aes_encrypt p.key.data ctr' ((content.sender id).withText data').sub
        = ciphertext aes_encrypt p.key.data (p.ctr id) content.data := by
      change ciphertext aes_encrypt p.key.data ctr' data' = _
      rw [hdata', ciphertext_ciphertext]
    rw [hcipher]
    rfl
  obtain ⟨n, hn⟩ : ∃ n, content.parts id = n + 1 := ⟨content.parts id - 1, by omega⟩
  obtain ⟨buffer, hbuffer, hall⟩ := @processReceiver_all aes_encrypt p.key.data ctr' _ hb n
    { s with records := records } r 0 (by rw [Nat.zero_add]; exact hn.symm) hrestart hstatus
  have hrange : 0 :: List.range' (0 + 1) n = List.range' 0 (content.parts id) := by
    rw [hn]
    rfl
  rw [funext hpacket, ← hprocess, ← processAll_cons, ← List.map_cons, hrange,
    ← Push.packets_eq] at hall
  have hid : ((content.sender id).withText data').id = id := content.sender_id id
  rw [hid] at hall
  obtain ⟨row, hrow, hrowStatus, hrowData⟩ := resource_resourceReceived (hmarks.exists_id htracks.row)
    buffer r.request
  have hstored : (s.processAll aes_encrypt (p.packets aes_encrypt id content)).Restored id content
      ↔ data'.data = content.data.data := by
    change buffer.data.take data'.size = data'.data at hbuffer
    rw [hsize] at hbuffer
    unfold Restored
    rw [hall]
    constructor
    · rintro ⟨row', buffer', hrow', -, hdata, htake⟩
      obtain rfl := Option.some.inj (hrow.symm.trans hrow')
      obtain rfl := Option.some.inj (hrowData.symm.trans hdata)
      rw [← hbuffer, htake]
    · intro hdata
      exact ⟨row, buffer, hrow, hrowStatus, hrowData, hbuffer.trans hdata⟩
  rw [hstored, hdata']
  refine (Ctr.xorFrom_xorFrom_eq_iff (Ctr.keyStream (aes_encrypt p.key.data) ctr')
    (Ctr.keyStream (aes_encrypt p.key.data) (p.ctr id)) 0 content.data.data).trans ?_
  refine forall_congr' (fun i => forall_congr' (fun _ => ?_))
  rw [Nat.zero_add, hctr', Ctr.keyStream_advance, Nat.mul_assoc]
  exact eq_comm

/-- The packets of a resource. -/
theorem Push.forall_packets (p : Push) (id : UInt32) (content : Content) :
    ∀ pkt ∈ p.packets aes_encrypt id content,
      pkt.head.streamId = id ∧ pkt.head.streamType = Packet.Resource := by
  intro pkt hpkt
  rw [Push.packets_eq] at hpkt
  obtain ⟨j, -, rfl⟩ := List.mem_map.mp hpkt
  exact ⟨content.sender_id id, content.sender_type id⟩

/-- **When a resource is restored.** -/
theorem restored_iff (h : s.Announced p id) (hk : k < content.parts id) {ending : AttemptEnd}
    (hending : (s.begun aes_encrypt p id content k).Rejects aes_encrypt id k ending) :
    (((s.begun aes_encrypt p id content k).interrupted aes_encrypt ending).processAll aes_encrypt
        (p.packets aes_encrypt id content)).Restored id content
      ↔ Unnoticed k ending
        ∧ ∀ i < content.data.size, Ctr.keyStream (aes_encrypt p.key.data) (p.ctr id) i
          = Ctr.keyStream (aes_encrypt p.key.data) (p.ctr id) (k * 65536 + i) := by
  obtain ⟨htracks, hrequest⟩ := @tracks_begun aes_encrypt s p id content h k hk
  cases ending with
  | dropped =>
    refine (restored_of_dropped htracks hk hrequest).trans ?_
    exact ⟨fun hall => ⟨trivial, hall⟩, fun hall => hall.2⟩
  | rejected pkt =>
    by_cases hunnoticed : k = 0 ∧ pkt.head.streamType ≠ Packet.Resource
    · -- the row is as it was, and there is no receiver
      obtain ⟨rfl, htype⟩ := hunnoticed
      obtain ⟨hrecords, hvacant⟩ := hending.unnoticed (htracks.vacant (.inl rfl)) htype
      have htracks' : Tracks p id content
          ((s.begun aes_encrypt p id content 0).interrupted aes_encrypt (.rejected pkt)) 0 :=
        { le := htracks.le
          row := hrecords ▸ htracks.row
          request := hrecords ▸ htracks.request
          status := hrecords ▸ htracks.status
          receiver := fun hpos => absurd hpos (Nat.lt_irrefl 0)
          vacant := fun _ => hvacant }
      refine (restored_of_dropped htracks' hk (hrecords ▸ hrequest)).trans ?_
      exact ⟨fun hall => ⟨⟨rfl, htype⟩, hall⟩, fun hall => hall.2⟩
    · -- the row is incoming, and the receiver is gone
      have hdead := hending.dead htracks hk hrequest
        (fun hzero => Classical.not_not.mp (fun htype => hunnoticed ⟨hzero, htype⟩))
      rw [hdead.processAll _ (Push.forall_packets p id content)]
      exact ⟨fun hrestored => absurd hrestored hdead.not_restored,
        fun hnever => absurd hnever.1 hunnoticed⟩

/-- What the push of one resource announces. -/
def announcedOnce : Incoming where
  records := (Records.empty.processPush Receiving.firstPush).1
  streamReceivers := []

theorem announced_announcedOnce : announcedOnce.Announced Receiving.firstPush 7 where
  row := ⟨_, List.mem_singleton.mpr rfl, rfl⟩
  request := fun row hrow _ => by
    obtain rfl := List.mem_singleton.mp hrow
    rfl
  status := fun row hrow _ => by
    obtain rfl := List.mem_singleton.mp hrow
    rfl
  receiver := rfl
  record := rfl

theorem restored_of_nothing_came :
    (((announcedOnce.begun Receiving.zeroCipher Receiving.firstPush 7 Receiving.oneByte 0).interrupted
      Receiving.zeroCipher .dropped).processAll Receiving.zeroCipher
        (Receiving.firstPush.packets Receiving.zeroCipher 7 Receiving.oneByte)).Restored 7
          Receiving.oneByte :=
  (restored_iff announced_announcedOnce (Receiving.oneByte.parts_pos 7)
    (show Rejects _ _ 7 0 .dropped from trivial)).mpr
    ⟨trivial, fun i _ => by rw [Nat.zero_mul, Nat.zero_add]⟩

/-- A packet that is not the first of its stream. -/
def secondPacket : Packet where
  head :=
    { Packet.create.head with
      streamId := 7
      streamType := Packet.Resource
      part := 2
      parts := 2 }
  body := none

theorem not_restored_of_rejected :
    announcedOnce.Announced Receiving.firstPush 7
      ∧ announcedOnce.Rejects Receiving.zeroCipher 7 0 (.rejected secondPacket)
      ∧ ¬ (((announcedOnce.begun Receiving.zeroCipher Receiving.firstPush 7 Receiving.oneByte 0).interrupted
        Receiving.zeroCipher (.rejected secondPacket)).processAll Receiving.zeroCipher
          (Receiving.firstPush.packets Receiving.zeroCipher 7 Receiving.oneByte)).Restored 7
            Receiving.oneByte := by
  have hrejects : announcedOnce.Rejects Receiving.zeroCipher 7 0 (.rejected secondPacket) :=
    ⟨rfl, rfl, fun _ hpart => absurd hpart (by decide)⟩
  obtain ⟨htracks, hrequest⟩ := @tracks_begun Receiving.zeroCipher announcedOnce Receiving.firstPush 7
    Receiving.oneByte announced_announcedOnce 0 (Receiving.oneByte.parts_pos 7)
  have hdead := Rejects.dead htracks (Receiving.oneByte.parts_pos 7) hrequest hrejects (fun _ => rfl)
  refine ⟨announced_announcedOnce, hrejects, ?_⟩
  rw [hdead.processAll _ (Push.forall_packets _ 7 Receiving.oneByte)]
  exact hdead.not_restored

end Incoming

end Client

end Zway
