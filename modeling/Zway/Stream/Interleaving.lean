import Zway.Lib.Run
import Zway.Stream.Delivery

/-!
# Streams that arrive together

Packets of different streams arrive in any order, and any of them may be malformed. A stream
does not notice: `Engine::processIncomingPacket` does with its packets what it would do if
there were no others. What the engine keeps of one stream is `Solo`.

A packet without a body that the part check lets through has the receiver follow a null
pointer, and a count of bytes above the size of the buffer has `Value::read` leave it. After
that there is nothing to say, so `receive` has no result for such a packet.
-/

namespace Zway

/-- What a receiver takes for granted of a packet that its part check lets through: it has a body
with the bytes that its head announces, and those counted are in the buffer when they are decoded. -/
def UbjReceiver.Trusted (r : UbjReceiver) (pkt : Packet) : Prop :=
  r.OutOfOrder pkt ∨
    pkt.body.any (fun body => pkt.head.bodySize.toNat ≤ body.size) = true ∧
      (0 < r.buffer.size → pkt.head.part = pkt.head.parts →
        (r.bytesReceived + pkt.head.bodySize).toNat ≤ r.buffer.size)

instance (r : UbjReceiver) (pkt : Packet) : Decidable (r.Trusted pkt) :=
  inferInstanceAs (Decidable (_ ∨ _ ∧ (_ → _ → _)))

/-- The next part of a stream is what the receiver takes it for. -/
theorem BufferReceiver.Holds.trusted {s : BufferSender} {k j : Nat} {r : UbjReceiver} (h : s.At k)
    (hr : r.Holds s j) (hj : j < s.parts.toNat) : r.Trusted (s.packet j) := by
  have hpart := BufferSender.packet_part h hj
  have hstep := hr.step h hj hpart r.status r.sub
  refine .inr ⟨?_, fun _ _ => ?_⟩
  · have hsize : ((MemoryBuffer.create MAX_PACKET_BODY).blit (block 65536 j s.sub.data) 0).size
        = 65536 := by
      rw [MemoryBuffer.blit_size, MemoryBuffer.create_size, MAX_PACKET_BODY_toNat]
    show decide (_ ≤ MemoryBuffer.size _) = true
    rw [hsize, BufferSender.packet_bodySize h, block_length]
    exact decide_eq_true (Nat.min_le_left ..)
  · have hbytes := hstep.bytes
    change (r.bytesReceived + (s.packet j).head.bodySize).toNat = _ at hbytes
    rw [hbytes, hr.size]
    have hle : (j + 1) * 65536 ≤ s.parts.toNat * 65536 := Nat.mul_le_mul_right _ hj
    omega

/-! ## One stream -/

/-- What an engine keeps of one stream: its receiver, and the reports about it. -/
structure Solo where
  receiver : Option UbjReceiver
  reports : List UbjReceiver

namespace Solo

variable (read : Ubj.Value → Bytes → Bool × Ubj.Value) (behind : Nat → UInt8)

/-- An engine with no other streams gets a packet. -/
def receive (v : Solo) (pkt : Packet) : Option (Bool × Solo) :=
  match v.receiver.or (ReceiverTable.createStreamReceiver pkt) with
  | none => some (false, v)
  | some r =>
      if r.Trusted pkt then
        let p := UbjReceiver.process read behind r pkt
        some (p.ok,
          { receiver :=
              if p.ok = false ∨ p.receiver.status = .completed then none else some p.receiver
            reports := v.reports ++ if p.invoked then [p.receiver] else [] })
      else none

end Solo

variable {read : Ubj.Value → Bytes → Bool × Ubj.Value} {behind : Nat → UInt8}

theorem UbjReceiver.process_id (r : UbjReceiver) (pkt : Packet) :
    (UbjReceiver.process read behind r pkt).receiver.id = r.id := by
  by_cases hpart : r.OutOfOrder pkt
  · rw [show UbjReceiver.process read behind r pkt = _ from
      BufferReceiver.process_outOfOrder hpart (UbjReceiver.processPacket read behind)]
  · rcases Nat.eq_zero_or_pos r.buffer.size with hempty | hpos
    · rw [UbjReceiver.process_empty read behind hpart hempty]
    · rw [UbjReceiver.process_taken read behind hpart hpos]
      split
      · rfl
      · rfl

namespace ReceiverTable

/-- What the engine keeps of a stream. -/
def solo (t : ReceiverTable) (id : UInt32) : Solo where
  receiver := OrdMap.find? t.streamReceivers id
  reports := Link.reportsOf t id

/-- Every receiver is stored under its own id. -/
def Keyed (t : ReceiverTable) : Prop :=
  ∀ id r, OrdMap.find? t.streamReceivers id = some r → r.id = id

/-- Whatever receiver a packet finds, it is one for its stream. -/
theorem Keyed.receiverFor {t : ReceiverTable} (h : t.Keyed) {pkt : Packet} {r : UbjReceiver}
    (hr : t.receiverFor pkt = some r) : r.id = pkt.head.streamId := by
  unfold ReceiverTable.receiverFor at hr
  cases hfind : OrdMap.find? t.streamReceivers pkt.head.streamId with
  | none =>
    rw [hfind] at hr
    dsimp only [createStreamReceiver] at hr
    split at hr
    · obtain rfl := Option.some.inj hr
      rfl
    · cases hr
  | some r' =>
    rw [hfind] at hr
    obtain rfl := Option.some.inj hr
    exact h _ _ hfind

/-- The reports that a packet adds. -/
theorem processReceiver_reports (t : ReceiverTable) (r : UbjReceiver) (pkt : Packet) :
    (t.processReceiver read behind r pkt).1 = (UbjReceiver.process read behind r pkt).ok ∧
      (t.processReceiver read behind r pkt).2.reports
        = t.reports ++ if (UbjReceiver.process read behind r pkt).invoked then
            [(UbjReceiver.process read behind r pkt).receiver] else [] := by
  unfold processReceiver
  generalize UbjReceiver.process read behind r pkt = p
  dsimp only
  obtain ⟨requests, calls, hcall⟩ := onReceived_eq { t with
    streamReceivers := OrdMap.insert pkt.head.streamId p.receiver t.streamReceivers
    accesses := t.accesses ++ p.accesses } p.receiver
  rw [hcall]
  cases p.invoked with
  | true =>
    rw [if_pos rfl, if_pos rfl]
    split
    · exact ⟨rfl, rfl⟩
    · exact ⟨rfl, rfl⟩
  | false =>
    rw [if_neg Bool.false_ne_true, if_neg Bool.false_ne_true, List.append_nil]
    split
    · exact ⟨rfl, rfl⟩
    · exact ⟨rfl, rfl⟩

variable (read behind) in
/-- `Engine::processIncomingPacket`, where what the receiver takes for granted holds. -/
def receive (t : ReceiverTable) (pkt : Packet) : Option (Bool × ReceiverTable) :=
  match t.receiverFor pkt with
  | none => some (t.processIncomingPacket read behind pkt)
  | some r => if r.Trusted pkt then some (t.processIncomingPacket read behind pkt) else none

theorem receive_eq {t : ReceiverTable} {pkt : Packet} {p : Bool × ReceiverTable}
    (h : t.receive read behind pkt = some p) : p = t.processIncomingPacket read behind pkt := by
  unfold receive at h
  cases hr : t.receiverFor pkt with
  | none =>
    rw [hr] at h
    exact (Option.some.inj h).symm
  | some r =>
    rw [hr] at h
    dsimp only at h
    split at h
    · exact (Option.some.inj h).symm
    · cases h

/-- The stream of a packet alone finds the same receiver. -/
theorem solo_or (t : ReceiverTable) (pkt : Packet) :
    (t.solo pkt.head.streamId).receiver.or (createStreamReceiver pkt) = t.receiverFor pkt := by
  unfold solo ReceiverTable.receiverFor
  cases OrdMap.find? t.streamReceivers pkt.head.streamId with
  | none => rfl
  | some r => rfl

/-- **What a packet does to its stream**: what it would do alone. -/
theorem Keyed.receive {t : ReceiverTable} (h : t.Keyed) (pkt : Packet) :
    (t.solo pkt.head.streamId).receive read behind pkt
      = (t.receive read behind pkt).map fun r => (r.1, r.2.solo pkt.head.streamId) := by
  unfold ReceiverTable.receive Solo.receive ReceiverTable.processIncomingPacket
  rw [solo_or]
  cases hr : t.receiverFor pkt with
  | none => rfl
  | some r =>
    dsimp only
    by_cases htrusted : r.Trusted pkt
    · have hid : (UbjReceiver.process read behind r pkt).receiver.id = pkt.head.streamId :=
        (UbjReceiver.process_id r pkt).trans (h.receiverFor hr)
      obtain ⟨hok, hreports⟩ := @processReceiver_reports read behind t r pkt
      obtain ⟨-, hreceivers⟩ := processReceiver_eq read behind t r pkt
      rw [if_pos htrusted, if_pos htrusted, Option.map_some]
      generalize t.processReceiver read behind r pkt = q at hok hreports hreceivers ⊢
      generalize UbjReceiver.process read behind r pkt = p at hid hok hreports hreceivers ⊢
      -- the report and the receiver are under the id of the packet
      have hmine : (if p.invoked then [p.receiver] else []).filter (·.id = pkt.head.streamId)
          = if p.invoked then [p.receiver] else [] := by
        split
        · exact List.filter_cons_of_pos (by simp [hid])
        · rfl
      have hfind : OrdMap.find? q.2.streamReceivers pkt.head.streamId
          = if p.ok = false ∨ p.receiver.status = .completed then none else some p.receiver := by
        rw [hreceivers]
        split
        · rw [hid, OrdMap.find?_erase_self]
        · exact OrdMap.find?_insert_self _ _ _
      unfold solo Link.reportsOf
      rw [hok, hreports, List.filter_append, hmine, hfind]
    · rw [if_neg htrusted, if_neg htrusted]
      rfl

/-- The other streams do not notice. -/
theorem Keyed.processIncomingPacket_other {t : ReceiverTable} (h : t.Keyed) {pkt : Packet}
    {id : UInt32} (hne : id ≠ pkt.head.streamId) :
    (t.processIncomingPacket read behind pkt).2.solo id = t.solo id := by
  unfold ReceiverTable.processIncomingPacket
  cases hr : t.receiverFor pkt with
  | none => rfl
  | some r =>
    have hid : (UbjReceiver.process read behind r pkt).receiver.id = pkt.head.streamId :=
      (UbjReceiver.process_id r pkt).trans (h.receiverFor hr)
    obtain ⟨-, hreports⟩ := @processReceiver_reports read behind t r pkt
    obtain ⟨-, hreceivers⟩ := processReceiver_eq read behind t r pkt
    dsimp only
    generalize t.processReceiver read behind r pkt = q at hreports hreceivers ⊢
    generalize UbjReceiver.process read behind r pkt = p at hid hreports hreceivers ⊢
    -- and so under no other one
    have hnone : (if p.invoked then [p.receiver] else []).filter (·.id = id) = [] := by
      split
      · exact List.filter_cons_of_neg (by simp [hid, hne.symm])
      · rfl
    have hfind : OrdMap.find? q.2.streamReceivers id = OrdMap.find? t.streamReceivers id := by
      rw [hreceivers]
      split
      · rw [hid, OrdMap.find?_erase_of_ne _ hne, OrdMap.find?_insert_of_ne _ _ hne]
      · exact OrdMap.find?_insert_of_ne _ _ hne
    unfold solo Link.reportsOf
    rw [hreports, List.filter_append, hnone, hfind, List.append_nil]

theorem Keyed.step {t : ReceiverTable} (h : t.Keyed) (pkt : Packet) :
    (t.processIncomingPacket read behind pkt).2.Keyed := by
  intro id r hfind
  by_cases hid : id = pkt.head.streamId
  · subst hid
    unfold ReceiverTable.processIncomingPacket at hfind
    cases hr : t.receiverFor pkt with
    | none =>
      rw [hr] at hfind
      exact h _ _ hfind
    | some r' =>
      have hid : (UbjReceiver.process read behind r' pkt).receiver.id = pkt.head.streamId :=
        (UbjReceiver.process_id r' pkt).trans (h.receiverFor hr)
      rw [hr] at hfind
      dsimp only at hfind
      rw [(processReceiver_eq read behind t r' pkt).2] at hfind
      split at hfind
      · rw [hid, OrdMap.find?_erase_self] at hfind
        cases hfind
      · rw [OrdMap.find?_insert_self] at hfind
        exact Option.some.inj hfind ▸ hid
  · exact h id r ((congrArg Solo.receiver (h.processIncomingPacket_other hid)).symm.trans hfind)

/-- Every stream sees the engine as if it were alone. -/
theorem viewed : Steps.Viewed (ReceiverTable.receive read behind) (Solo.receive read behind)
    solo (fun pkt => pkt.head.streamId) Keyed where
  inv := by
    intro t pkt a t' ht ha
    rw [show t' = _ from congrArg Prod.snd (receive_eq ha)]
    exact ht.step pkt
  own := fun _ pkt ht => ht.receive pkt
  other := by
    intro t pkt a t' ht ha id hid
    rw [show t' = _ from congrArg Prod.snd (receive_eq ha)]
    exact ht.processIncomingPacket_other hid

/-! ## Packets in any order -/

variable (read behind) in
/-- The packets one after another, with what `Engine::processIncomingPacket` returns for each. -/
def receiveAll (t : ReceiverTable) (pkts : List Packet) :
    Option (List (Packet × Bool) × ReceiverTable) :=
  Steps.respond (ReceiverTable.receive read behind) t pkts

variable (read behind) in
/-- The packets of one stream, by themselves. -/
def receiveAlone (pkts : List Packet) : Option (List (Packet × Bool) × Solo) :=
  Steps.respond (Solo.receive read behind) ⟨none, []⟩ pkts

theorem keyed_empty : empty.Keyed := fun _ _ hfind => absurd hfind (by simp [empty, OrdMap.find?])

/-- What is left of a stream arrives. -/
theorem receiveAll_stream {s : BufferSender} (hs : Link.Postable read s) : ∀ (n : Nat) {j : Nat}
    {t : ReceiverTable}, j + n ≤ s.parts.toNat → Link.RecvInv read t s j →
    ∃ answers t', t.receiveAll read behind ((List.range' j n).map s.packet) = some (answers, t')
      ∧ Link.RecvInv read t' s (j + n)
  | 0, j, t, _, h => ⟨[], t, rfl, h⟩
  | n + 1, j, t, hle, h => by
      obtain ⟨r, hfor, hholds, -, -⟩ := h.receiverFor hs (by omega)
      have hnext := (@Link.RecvInv.deliver read behind t s j hs h (by omega)).1
      -- a sender's packet is what its receiver takes it for
      have hreceive : t.receive read behind (s.packet j)
          = some (t.processIncomingPacket read behind (s.packet j)) := by
        unfold ReceiverTable.receive
        rw [hfor]
        exact if_pos (hholds.trusted hs.at_zero (by omega))
      obtain ⟨answers, t', hrest, hlast⟩ := receiveAll_stream hs n (j := j + 1) (by omega) hnext
      have hrun : t.receiveAll read behind (s.packet j :: (List.range' (j + 1) n).map s.packet)
          = some (_, t') :=
        (Steps.respond_cons_of_some hreceive _).trans (congrArg (Option.map _) hrest)
      rw [Nat.add_assoc, Nat.add_comm 1] at hlast
      exact ⟨_, t', hrun, hlast⟩

theorem recvInv_empty {s : BufferSender} (hs : Link.Postable read s) :
    Link.RecvInv read empty s 0 where
  opened := fun hpos => absurd hpos (Nat.lt_irrefl 0)
  closed := fun _ => rfl
  pending := fun _ => rfl
  reported := fun he => absurd hs.parts_pos (he ▸ Nat.lt_irrefl 0)

/-- The packets of a sender are of one stream. -/
theorem onWire_packets (s : BufferSender) :
    Link.onWire ((List.range s.parts.toNat).map s.packet) s.id
      = (List.range s.parts.toNat).map s.packet := by
  refine List.filter_eq_self.mpr fun pkt hpkt => ?_
  obtain ⟨j, -, rfl⟩ := List.mem_map.mp hpkt
  exact decide_eq_true rfl

/-- A stream that arrives alone is received. -/
theorem receiveAlone_packets {s : BufferSender} (hs : Link.Postable read s) :
    ∃ answers t, receiveAlone read behind ((List.range s.parts.toNat).map s.packet)
        = some (answers, t.solo s.id)
      ∧ Link.RecvInv read t s s.parts.toNat := by
  obtain ⟨answers, t, hrun, hinv⟩ :=
    @receiveAll_stream read behind s hs s.parts.toNat 0 empty (by omega) (recvInv_empty hs)
  rw [← List.range_eq_range'] at hrun
  rw [Nat.zero_add] at hinv
  have hown := viewed.respond _ keyed_empty hrun s.id
  change receiveAlone read behind (Link.onWire _ s.id) = _ at hown
  rw [onWire_packets] at hown
  exact ⟨_, t, hown, hinv⟩

/-- **Streams do not notice each other.** Whatever packets arrive, in any order and however
malformed, the engine gets through them without following a null pointer or leaving a buffer exactly
if it gets through those of each stream alone. If it does, it answers the packets of a stream, and
keeps and reports of it, as if there were no others; so a document whose packets are all there in
order is received, whatever arrives between them. -/
theorem streams_apart (pkts : List Packet) :
    ((empty.receiveAll read behind pkts).isSome = true ↔
      ∀ id, (receiveAlone read behind (Link.onWire pkts id)).isSome = true) ∧
    ∀ answers t, empty.receiveAll read behind pkts = some (answers, t) →
      (∀ id, receiveAlone read behind (Link.onWire pkts id)
        = some (answers.filter (·.1.head.streamId = id), t.solo id)) ∧
      ∀ s, Link.Postable read s →
        Link.onWire pkts s.id = (List.range s.parts.toNat).map s.packet →
        OrdMap.find? t.streamReceivers s.id = none ∧
        ∃ r v, Link.reportsOf t s.id = [r] ∧
          r.status = .completed ∧ r.buffer.data.take s.sub.size = s.sub.data ∧
          s.sub.data = Ubj.Writer.write v ∧ r.sub = v := by
  refine ⟨viewed.respond_isSome_iff pkts keyed_empty, fun answers t hrun => ?_⟩
  have happart := viewed.respond pkts keyed_empty hrun
  refine ⟨happart, fun s hs hpackets => ?_⟩
  -- alone it is received, and it is not told apart from that
  have hmine : receiveAlone read behind (Link.onWire pkts s.id) = some (_, t.solo s.id) :=
    happart s.id
  obtain ⟨answers', t', halone, hinv⟩ := @receiveAlone_packets read behind s hs
  rw [hpackets, halone] at hmine
  have hsolo : t'.solo s.id = t.solo s.id := congrArg Prod.snd (Option.some.inj hmine)
  obtain ⟨r, hreports, hstatus, hholds, hsub⟩ := hinv.reported rfl
  obtain ⟨v, hdocument, hread⟩ := hs.document
  refine ⟨?_, r, v, ?_, hstatus, (hholds.complete hs.at_zero).2, hdocument, by rw [hsub, hread]⟩
  · exact (congrArg Solo.receiver hsolo).symm.trans (hinv.closed (Or.inr rfl))
  · exact (congrArg Solo.reports hsolo).symm.trans hreports

/-- The object `{"a": true}` between packets of other streams. -/
theorem streams_apart_object : ∃ answers t r,
    empty.receiveAll (Ubj.Value.read ⟨0, fun _ => 0⟩ 20) (fun _ => 0)
      [⟨⟨0, 9, Packet.Request, 3, 5, 0⟩, none⟩,
        (UbjSender.create 7 Packet.Request (.object [([0x61], .bool true)])).packet 0,
        ⟨⟨0, 9, Packet.Request, 5, 5, 0⟩, none⟩] = some (answers, t) ∧
      Link.reportsOf t 7 = [r] ∧
      Ubj.Writer.write r.sub = Ubj.Writer.write (.object [([0x61], .bool true)]) := by
  have hpost : Link.Postable (Ubj.Value.read ⟨0, fun _ => 0⟩ 20)
      (UbjSender.create 7 Packet.Request (.object [([0x61], .bool true)])) :=
    ⟨by decide, .object [([0x61], .bool true)], rfl, by decide, by decide, rfl⟩
  obtain ⟨hiff, hthrough⟩ := @streams_apart (Ubj.Value.read ⟨0, fun _ => 0⟩ 20) (fun _ => 0)
    [⟨⟨0, 9, Packet.Request, 3, 5, 0⟩, none⟩,
      (UbjSender.create 7 Packet.Request (.object [([0x61], .bool true)])).packet 0,
      ⟨⟨0, 9, Packet.Request, 5, 5, 0⟩, none⟩]
  have hsome := hiff.mpr fun id => by
    by_cases hobject : id = 7
    · subst hobject
      obtain ⟨_, _, halone, -⟩ := @receiveAlone_packets _ (fun _ => 0) _ hpost
      exact Option.isSome_iff_exists.mpr ⟨_, halone⟩
    by_cases hrefused : id = 9
    · subst hrefused
      decide +kernel
    rw [Link.onWire_cons_of_ne (Ne.symm hrefused), Link.onWire_cons_of_ne (Ne.symm hobject),
      Link.onWire_cons_of_ne (Ne.symm hrefused)]
    rfl
  obtain ⟨⟨answers, t⟩, hrun⟩ := Option.isSome_iff_exists.mp hsome
  obtain ⟨-, r, v, hreports, -, -, hdocument, hsub⟩ := (hthrough answers t hrun).2 _ hpost rfl
  exact ⟨answers, t, r, hrun, hreports, hsub ▸ hdocument.symm⟩

end ReceiverTable

end Zway
