import Zway.Stream.Engine

/-!
# The receive path and its memory

What an engine does to memory with packets from the network. The receivers trust
three things about a packet that `Receiver::recvPacket` does not check: that it has
a body, that a part number below two opens the stream, and that the buffer for all
its parts has a size that a `uint32_t` can hold.

`Safe` is what a packet has to meet in the state it arrives in. A run of safe
packets stays inside the memory of the program; for each clause there is a packet
that violates it and leaves it.
-/

namespace Zway

namespace ReceiverTable

/-- What the receivers rely on. -/
structure Safe (t : ReceiverTable) (pkt : Packet) : Prop where
  /-- The packet has a body, unless it is turned down by its part number. -/
  body : ∀ r, t.receiverFor pkt = some r → ¬ r.OutOfOrder pkt → pkt.head.bodySize ≠ 0
  /-- It does not start a stream over that is being received. -/
  restart : ∀ r, OrdMap.find? t.streamReceivers pkt.head.streamId = some r → 1 < pkt.head.part
  /-- The parts of a new stream fit a buffer. -/
  room : OrdMap.find? t.streamReceivers pkt.head.streamId = none → pkt.head.parts.toNat ≤ 65535

section

variable (read : Ubj.Value → Bytes → Bool × Ubj.Value) (behind : Nat → UInt8)

/-- A run of an engine that receives nothing at first, over packets that meet `P` when they
arrive. -/
inductive Run (P : ReceiverTable → Packet → Prop) : ReceiverTable → Prop where
  | start {t : ReceiverTable} : t.streamReceivers = [] → t.accesses = [] → Run P t
  | packet {t : ReceiverTable} {pkt : Packet} : Run P t → pkt.FromWire → P t pkt →
      Run P (t.processIncomingPacket read behind pkt).2

end

/-- A receiver under way has room for what it counts, up to the parts it got. -/
structure Bounded (id : UInt32) (r : UbjReceiver) : Prop where
  id : r.id = id
  parts : r.parts.toNat ≤ 65535
  part : r.part.toNat < r.parts.toNat
  size : r.buffer.size = r.parts.toNat * 65536
  bytes : r.bytesReceived.toNat ≤ max 1 r.part.toNat * 65536

/-- The invariant of a safe run. -/
structure BoundsInv (t : ReceiverTable) : Prop where
  receivers : ∀ id r, OrdMap.find? t.streamReceivers id = some r → Bounded id r
  accesses : ∀ a ∈ t.accesses, a.InBounds

variable {read : Ubj.Value → Bytes → Bool × Ubj.Value} {behind : Nat → UInt8}

/-- The packet finds its receiver with room for one more part. -/
theorem BoundsInv.receiverFor {t : ReceiverTable} (h : t.BoundsInv) {pkt : Packet}
    (hs : t.Safe pkt) {r : UbjReceiver} (hr : t.receiverFor pkt = some r)
    (hpart : ¬ r.OutOfOrder pkt) :
    r.parts.toNat ≤ 65535 ∧ r.buffer.size = r.parts.toNat * 65536
      ∧ (0 < r.buffer.size →
          r.bytesReceived.toNat + 65536 ≤ max 1 pkt.head.part.toNat * 65536
          ∧ pkt.head.part.toNat ≤ r.parts.toNat) := by
  unfold ReceiverTable.receiverFor at hr
  cases hfind : OrdMap.find? t.streamReceivers pkt.head.streamId with
  | none =>
    rw [hfind] at hr
    dsimp only [createStreamReceiver] at hr
    have hroom := hs.room hfind
    split at hr
    · obtain rfl := (Option.some.inj hr).symm
      have hsize : (UbjReceiver.create pkt).buffer.size = pkt.head.parts.toNat * 65536 := by
        show (MemoryBuffer.create (pkt.head.parts * MAX_PACKET_BODY)).size = _
        rw [MemoryBuffer.create_size, UInt32.toNat_mul, MAX_PACKET_BODY_toNat]
        omega
      -- a new receiver has the part number of its packet, so only zero and one get through
      have hle : pkt.head.part.toNat ≤ 1 := by
        by_contra hgt
        refine hpart ⟨UInt32.lt_iff_toNat_lt.mpr (by show 1 < _; omega), ?_⟩
        intro he
        have heq := congrArg UInt32.toNat he
        have hlt := pkt.head.part.toNat_lt
        rw [UInt32.toNat_add] at heq
        change pkt.head.part.toNat = (pkt.head.part.toNat + 1) % 2 ^ 32 at heq
        omega
      refine ⟨hroom, hsize, fun hpos => ⟨?_, ?_⟩⟩
      · show (0 : UInt32).toNat + 65536 ≤ _
        have : (0 : UInt32).toNat = 0 := rfl
        omega
      · show _ ≤ pkt.head.parts.toNat
        omega
    · exact absurd hr (by simp)
  | some r' =>
    rw [hfind] at hr
    obtain rfl := (Option.some.inj hr).symm
    have hb := h.receivers _ _ hfind
    have hgt := hs.restart _ hfind
    have hnext : pkt.head.part.toNat = r.part.toNat + 1 := by
      have heq : pkt.head.part = r.part + 1 := by
        by_contra hne
        exact hpart ⟨hgt, hne⟩
      have hp := hb.part
      have hparts := hb.parts
      rw [heq, UInt32.toNat_add]
      show (r.part.toNat + 1) % 2 ^ 32 = _
      omega
    have hgt' : 1 < pkt.head.part.toNat := UInt32.lt_iff_toNat_lt.mp hgt
    refine ⟨hb.parts, hb.size, fun _ => ?_⟩
    have hbytes := hb.bytes
    have hp := hb.part
    omega

/-- Whatever receiver the packet finds, it is one for its stream. -/
theorem BoundsInv.receiverFor_id {t : ReceiverTable} (h : t.BoundsInv) {pkt : Packet}
    {r : UbjReceiver} (hr : t.receiverFor pkt = some r) : r.id = pkt.head.streamId := by
  unfold ReceiverTable.receiverFor at hr
  cases hfind : OrdMap.find? t.streamReceivers pkt.head.streamId with
  | none =>
    rw [hfind] at hr
    dsimp only [createStreamReceiver] at hr
    split at hr
    · obtain rfl := (Option.some.inj hr).symm
      rfl
    · exact absurd hr (by simp)
  | some r' =>
    rw [hfind] at hr
    obtain rfl := (Option.some.inj hr).symm
    exact (h.receivers _ _ hfind).id

/-- **When one packet stays in bounds.** What a receiver does with a packet whose part number it
lets through is in bounds exactly when there is a body and, if the packet calls itself the last, the
bytes counted so far fit the buffer. -/
theorem process_inBounds_iff {r : UbjReceiver} {pkt : Packet} (hwire : pkt.FromWire)
    (hpart : ¬ r.OutOfOrder pkt) :
    (∀ a ∈ (UbjReceiver.process read behind r pkt).accesses, a.InBounds) ↔
      pkt.head.bodySize ≠ 0 ∧ (0 < r.buffer.size → pkt.head.part = pkt.head.parts →
        (r.bytesReceived + pkt.head.bodySize).toNat ≤ r.buffer.size) := by
  have hbody : pkt.body.isSome = true ↔ pkt.head.bodySize ≠ 0 := by
    rw [← Option.isSome_map (f := MemoryBuffer.size), hwire.body]
    split
    · rename_i hzero
      exact ⟨fun h => absurd h Bool.false_ne_true, fun h => absurd hzero h⟩
    · rename_i hne
      exact ⟨fun _ => hne, fun _ => rfl⟩
  rcases Nat.eq_zero_or_pos r.buffer.size with hempty | hpos
  · rw [UbjReceiver.process_empty read behind hpart hempty]
    constructor
    · intro h
      exact ⟨hbody.mp (h _ (List.mem_singleton_self _)), fun hpos => absurd hempty (by omega)⟩
    · rintro ⟨hne, -⟩ a ha
      rw [List.mem_singleton.mp ha]
      exact hbody.mpr hne
  · have haccesses : (UbjReceiver.process read behind r pkt).accesses
        = UbjReceiver.takenAccesses behind r pkt := by
      rw [UbjReceiver.process_taken read behind hpart hpos]
      split <;> rfl
    rw [haccesses]
    unfold UbjReceiver.takenAccesses
    by_cases hlast : pkt.head.part = pkt.head.parts
    · rw [if_pos hlast]
      constructor
      · intro h
        have hread := h _ (List.mem_cons_of_mem _ (List.mem_singleton_self _))
        exact ⟨hbody.mp (h _ (List.mem_cons_self ..)), fun _ _ => hread⟩
      · rintro ⟨hne, hfit⟩ a ha
        rcases List.mem_cons.mp ha with rfl | ha
        · exact hbody.mpr hne
        · rw [List.mem_singleton.mp ha]
          exact hfit hpos hlast
    · rw [if_neg hlast]
      constructor
      · intro h
        exact ⟨hbody.mp (h _ (List.mem_singleton_self _)), fun _ he => absurd he hlast⟩
      · rintro ⟨hne, -⟩ a ha
        rw [List.mem_singleton.mp ha]
        exact hbody.mpr hne

/-- What one receiver does with a safe packet: it stays in bounds, and if it is kept it is bounded
again. -/
theorem BoundsInv.process {t : ReceiverTable} (h : t.BoundsInv) {pkt : Packet} (hs : t.Safe pkt)
    (hwire : pkt.FromWire) {r : UbjReceiver} (hr : t.receiverFor pkt = some r) :
    (∀ a ∈ (UbjReceiver.process read behind r pkt).accesses, a.InBounds) ∧
      (UbjReceiver.process read behind r pkt).receiver.id = pkt.head.streamId ∧
      ((UbjReceiver.process read behind r pkt).ok = true →
        (UbjReceiver.process read behind r pkt).receiver.status ≠ .completed →
        Bounded pkt.head.streamId (UbjReceiver.process read behind r pkt).receiver) := by
  have hid := h.receiverFor_id hr
  by_cases hpart : r.OutOfOrder pkt
  · have hprocess : UbjReceiver.process read behind r pkt = ⟨false, r, [], false⟩ :=
      BufferReceiver.process_outOfOrder hpart _
    rw [hprocess]
    exact ⟨fun a ha => absurd ha List.not_mem_nil, hid, fun hok => absurd hok Bool.false_ne_true⟩
  · obtain ⟨hparts, hsize, hroom⟩ := h.receiverFor hs hr hpart
    have hcount : 0 < r.buffer.size → (r.bytesReceived + pkt.head.bodySize).toNat
        ≤ max 1 pkt.head.part.toNat * 65536 := by
      intro hpos
      have hbytes := (hroom hpos).1
      have hbs := hwire.le
      rw [UInt32.toNat_add]
      omega
    refine ⟨(process_inBounds_iff hwire hpart).mpr ⟨hs.body r hr hpart, fun hpos _ => ?_⟩, ?_⟩
    · have hle := (hroom hpos).2
      have hc := hcount hpos
      omega
    rcases Nat.eq_zero_or_pos r.buffer.size with hempty | hpos
    · rw [UbjReceiver.process_empty read behind hpart hempty]
      exact ⟨hid, fun hok => absurd hok Bool.false_ne_true⟩
    · rw [UbjReceiver.process_taken read behind hpart hpos]
      by_cases hlast : pkt.head.part = r.parts
      · rw [if_pos hlast]
        exact ⟨hid, fun _ hstatus => absurd rfl hstatus⟩
      · rw [if_neg hlast]
        have hlt : pkt.head.part.toNat < r.parts.toNat := by
          have hle := (hroom hpos).2
          have hne : pkt.head.part.toNat ≠ r.parts.toNat := fun he =>
            hlast (UInt32.toNat_inj.mp he)
          omega
        refine ⟨hid, fun _ _ => ⟨hid, hparts, hlt, ?_, hcount hpos⟩⟩
        exact (MemoryBuffer.blit_size ..).trans hsize

/-- The engine keeps the invariant. -/
theorem BoundsInv.step {t : ReceiverTable} (h : t.BoundsInv) {pkt : Packet}
    (hwire : pkt.FromWire) (hs : t.Safe pkt) :
    (t.processIncomingPacket read behind pkt).2.BoundsInv := by
  unfold processIncomingPacket
  cases hr : t.receiverFor pkt with
  | none => exact h
  | some r =>
    dsimp only
    obtain ⟨hacc, hrec⟩ := processReceiver_eq read behind t r pkt
    obtain ⟨hin, hid, hkept⟩ := @BoundsInv.process read behind _ h _ hs hwire _ hr
    refine ⟨?_, ?_⟩
    · intro id r' hfind
      rw [hrec] at hfind
      -- every other stream keeps its receiver
      by_cases hsame : id = pkt.head.streamId
      · rw [hsame] at hfind ⊢
        split at hfind
        · rw [hid, OrdMap.find?_erase_self] at hfind
          exact absurd hfind (by simp)
        · rename_i hgo
          rw [OrdMap.find?_insert_self] at hfind
          obtain rfl := (Option.some.inj hfind).symm
          refine hkept ?_ (fun hc => hgo (.inr hc))
          cases hok : (UbjReceiver.process read behind r pkt).ok with
          | false => exact absurd (.inl hok) hgo
          | true => rfl
      · refine h.receivers id r' ?_
        split at hfind
        · rw [hid, OrdMap.find?_erase_of_ne _ hsame, OrdMap.find?_insert_of_ne _ _ hsame] at hfind
          exact hfind
        · rw [OrdMap.find?_insert_of_ne _ _ hsame] at hfind
          exact hfind
    · intro a ha
      rw [hacc] at ha
      rcases List.mem_append.mp ha with ha | ha
      · exact h.accesses a ha
      · exact hin a ha

theorem Run.inv {t : ReceiverTable} (h : Run read behind Safe t) : t.BoundsInv := by
  induction h with
  | start hrecv hacc =>
    refine ⟨fun id r hfind => ?_, fun a ha => ?_⟩
    · rw [hrecv] at hfind
      exact absurd hfind (by simp [OrdMap.find?])
    · rw [hacc] at ha
      exact absurd ha List.not_mem_nil
  | packet _ hwire hs ih => exact ih.step hwire hs

/-- **A run of safe packets stays in bounds.** A body is only read where there is one, and what is
decoded lies in the buffer. -/
theorem receive_inBounds {t : ReceiverTable} (h : Run read behind Safe t) :
    ∀ a ∈ t.accesses, a.InBounds := h.inv.accesses

/-- A document of two bytes in one packet. -/
theorem receive_inBounds_single :
    ReceiverTable.empty.Safe ⟨⟨0, 7, Packet.Request, 1, 1, 2⟩, some (.ofData [0x5A, 0x5A])⟩
      ∧ ∀ a ∈ (ReceiverTable.empty.processIncomingPacket (Ubj.Value.read ⟨0, fun _ => 0⟩ 20)
        (fun _ => 0) ⟨⟨0, 7, Packet.Request, 1, 1, 2⟩, some (.ofData [0x5A, 0x5A])⟩).2.accesses,
        a.InBounds := by
  have hsafe : ReceiverTable.empty.Safe
      ⟨⟨0, 7, Packet.Request, 1, 1, 2⟩, some (.ofData [0x5A, 0x5A])⟩ :=
    ⟨fun _ _ _ => by decide, fun _ hfind => (by cases hfind),
      fun _ => by decide⟩
  exact ⟨hsafe, receive_inBounds (.packet (.start rfl rfl) ⟨by decide, rfl⟩ hsafe)⟩

/-- The body of a packet without one is read. -/
theorem receive_bodiless :
    ¬ ∀ t, Run (Ubj.Value.read ⟨0, fun _ => 0⟩ 20) (fun _ => 0) (fun _ _ => True) t →
      ∀ a ∈ t.accesses, a.InBounds := by
  intro h
  have hwire : Packet.FromWire ⟨⟨0, 7, Packet.Request, 1, 1, 0⟩, none⟩ := ⟨by decide, rfl⟩
  have hin := h _ (.packet (.start (t := ReceiverTable.empty) rfl rfl) hwire trivial)
  have hpart : ¬ (UbjReceiver.create ⟨⟨0, 7, Packet.Request, 1, 1, 0⟩, none⟩).OutOfOrder
      ⟨⟨0, 7, Packet.Request, 1, 1, 0⟩, none⟩ := by decide
  have hmem : ∀ a ∈ (UbjReceiver.process (Ubj.Value.read ⟨0, fun _ => 0⟩ 20) (fun _ => 0)
      (UbjReceiver.create ⟨⟨0, 7, Packet.Request, 1, 1, 0⟩, none⟩)
      ⟨⟨0, 7, Packet.Request, 1, 1, 0⟩, none⟩).accesses, a.InBounds := by
    intro a ha
    refine hin a ?_
    unfold processIncomingPacket
    exact (processReceiver_eq ..).1 ▸ List.mem_append_right _ ha
  exact ((process_inBounds_iff hwire hpart).mp hmem).1 rfl

/-- Two packets that count more bytes than the first made room for: either the second starts the
stream over, or the parts of the first do not fit a buffer. -/
theorem overread {p q : Packet} (hp : p.FromWire) (hq : q.FromWire)
    (htype : p.head.streamType = Packet.Request) (hid : q.head.streamId = p.head.streamId)
    (hfirst : p.head.part ≤ 1) (hnext : q.head.part ≤ 1 ∨ q.head.part = p.head.part + 1)
    (hmore : p.head.part ≠ p.head.parts) (hlast : q.head.part = q.head.parts)
    (hroom : 0 < (p.head.parts * MAX_PACKET_BODY).toNat)
    (hover : (p.head.parts * MAX_PACKET_BODY).toNat < (p.head.bodySize + q.head.bodySize).toNat) :
    ∃ t, Run read behind (fun _ _ => True) t ∧ ∃ a ∈ t.accesses, ¬ a.InBounds := by
  have hsize : (UbjReceiver.create p).buffer.size = (p.head.parts * MAX_PACKET_BODY).toNat :=
    MemoryBuffer.create_size _
  have hpart : ¬ (UbjReceiver.create p).OutOfOrder p := fun hc =>
    absurd hc.1 (UInt32.not_lt.mpr hfirst)
  have htaken := UbjReceiver.process_taken read behind hpart (hsize ▸ hroom)
  rw [if_neg (show ¬ p.head.part = (UbjReceiver.create p).parts from hmore)] at htaken
  change _ = Received.mk true (UbjReceiver.taken read behind (UbjReceiver.create p) p .idle) _ _
    at htaken
  -- the receiver after the first packet, and the table it is in
  generalize hr : UbjReceiver.taken read behind (UbjReceiver.create p) p .idle = r at htaken
  have hnot : r.status ≠ .completed := by
    rw [← hr]
    exact fun h => by cases h
  have hstep : (ReceiverTable.empty.processIncomingPacket read behind p).2.streamReceivers
      = [(p.head.streamId, r)] := by
    have hcreate : ReceiverTable.empty.receiverFor p = some (UbjReceiver.create p) := if_pos htype
    unfold processIncomingPacket
    rw [hcreate]
    dsimp only
    rw [(processReceiver_eq ..).2, htaken, if_neg (fun h => h.elim Bool.true_eq_false.mp hnot)]
    rfl
  generalize ht : (ReceiverTable.empty.processIncomingPacket read behind p).2 = t at hstep
  have hrun : Run read behind (fun _ _ => True) t :=
    ht ▸ .packet (.start rfl rfl) hp trivial
  have hfor : t.receiverFor q = some r := by
    unfold ReceiverTable.receiverFor
    rw [hstep, hid, OrdMap.find?, if_pos rfl]
  have hpart' : ¬ r.OutOfOrder q := by
    rintro ⟨hgt, hne⟩
    rcases hnext with hle | he
    · exact UInt32.not_lt.mpr hle hgt
    · exact hne (by rw [he, ← hr]; rfl)
  refine ⟨_, .packet hrun hq trivial, ?_⟩
  unfold processIncomingPacket
  rw [hfor]
  dsimp only
  rw [(processReceiver_eq ..).1]
  by_contra hall
  have hin : ∀ a ∈ (UbjReceiver.process read behind r q).accesses, a.InBounds := by
    intro a ha
    by_contra hout
    exact hall ⟨a, List.mem_append_right _ ha, hout⟩
  have hbuffer : r.buffer.size = (p.head.parts * MAX_PACKET_BODY).toNat := by
    rw [← hr, ← hsize]
    exact MemoryBuffer.blit_size ..
  have hcount : r.bytesReceived = p.head.bodySize := by
    rw [← hr]
    exact UInt32.zero_add _
  have hfit := ((process_inBounds_iff hq hpart').mp hin).2 (hbuffer ▸ hroom) hlast
  rw [hbuffer, hcount] at hfit
  omega

/-- A stream of one part that is started over. -/
example : ∃ t, Run read behind (fun _ _ => True) t ∧ ∃ a ∈ t.accesses, ¬ a.InBounds :=
  overread (p := ⟨⟨0, 7, Packet.Request, 0, 1, 40000⟩, some (.create 40000)⟩)
    (q := ⟨⟨0, 7, Packet.Request, 1, 1, 40000⟩, some (.create 40000)⟩)
    ⟨by decide, congrArg some (MemoryBuffer.create_size _)⟩
    ⟨by decide, congrArg some (MemoryBuffer.create_size _)⟩
    rfl rfl (by decide) (.inl (by decide)) (by decide) rfl (by decide) (by decide)

/-- A stream of 65537 parts, whose buffer has the size of one. -/
example : ∃ t, Run read behind (fun _ _ => True) t ∧ ∃ a ∈ t.accesses, ¬ a.InBounds :=
  overread (p := ⟨⟨0, 7, Packet.Request, 1, 65537, 65536⟩, some (.create 65536)⟩)
    (q := ⟨⟨0, 7, Packet.Request, 2, 2, 65536⟩, some (.create 65536)⟩)
    ⟨by decide, congrArg some (MemoryBuffer.create_size _)⟩
    ⟨by decide, congrArg some (MemoryBuffer.create_size _)⟩
    rfl rfl (by decide) (.inr (by decide)) (by decide) rfl (by decide) (by decide)

end ReceiverTable

end Zway
