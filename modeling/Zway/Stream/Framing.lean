import Zway.Lib.Transfer
import Zway.Stream.Packet

/-!
# Framing

`Sender::sendPacket` writes a packet as its head, which is 24 bytes, and the
`bodySize` bytes of its body; `Receiver::recvPacket` reads the two back. Both go
through loops that take whatever pieces the transport gives them.

`Client::recv` reports a failure as `uint32_t(-1)`, which is not below any size it
is compared with. So the loops are related to `Transfer.run` first, where an ending
is not a number: `recv_eq`, `send_eq`.
-/

namespace Zway

open Transfer (Event Ending)

/-! ## Heads -/

namespace Packet.Head

/-- The memory of a head. -/
def bytes (head : Head) : Bytes :=
  leBytes 4 head.id.toNat ++ (leBytes 4 head.streamId.toNat ++ (leBytes 4 head.streamType.toNat ++
    (leBytes 4 head.part.toNat ++ (leBytes 4 head.parts.toNat ++ leBytes 4 head.bodySize.toNat))))

/-- The field at an offset. -/
def field (bs : Bytes) (off : Nat) : UInt32 := UInt32.ofNat (leNat ((bs.drop off).take 4))

/-- The head in some memory. -/
def ofBytes (bs : Bytes) : Head where
  id := field bs 0
  streamId := field bs 4
  streamType := field bs 8
  part := field bs 12
  parts := field bs 16
  bodySize := field bs 20

@[simp] theorem bytes_length (head : Head) : head.bytes.length = 24 := by simp [bytes]

theorem field_append {bs : Bytes} (h : bs.length = 4) (cs : Bytes) :
    field (bs ++ cs) 0 = UInt32.ofNat (leNat bs) := by
  unfold field
  rw [List.drop_zero, ← h, List.take_left]

theorem field_skip {bs : Bytes} {off : Nat} (h : bs.length ≤ off) (cs : Bytes) :
    field (bs ++ cs) off = field cs (off - bs.length) := by
  unfold field
  rw [List.drop_append, List.drop_of_length_le h, List.nil_append]

theorem ofNat_leNat (x : UInt32) : UInt32.ofNat (leNat (leBytes 4 x.toNat)) = x := by
  rw [leNat_leBytes]
  show UInt32.ofNat (x.toNat % 2 ^ 32) = x
  rw [Nat.mod_eq_of_lt x.toNat_lt, UInt32.ofNat_toNat]

/-- The memory of a head holds the head. -/
theorem ofBytes_bytes (head : Head) (bs : Bytes) : ofBytes (head.bytes ++ bs) = head := by
  unfold ofBytes bytes
  simp only [List.append_assoc]
  simp [field_skip, field_append, ofNat_leNat]

end Packet.Head

/-! ## The loops of the client -/

namespace Client

/-- What `Client::recv` leaves behind. -/
structure Recv where
  res : UInt32
  /-- The bytes it wrote to `data`. -/
  data : Bytes
  incoming : Bytes
  events : List Event

/-- The loop of `Client::recv`. A transport that cannot be asked (`readable` is -1) and one that
answers with a fatal error make no difference, and neither do one that is not readable and one that
has no bytes. -/
def recvLoop (size : UInt32) : List Event → (s : UInt32) → (data incoming : Bytes) → Option Recv
  | [], s, data, incoming => if s < size then none else some ⟨s, data, incoming, []⟩
  | e :: es, s, data, incoming =>
      if s < size then
        match e with
        | .canceled => some ⟨s, data, incoming, es⟩
        | .failed => some ⟨-1, data, incoming, es⟩
        | .idle => recvLoop size es s data incoming
        | .moved n =>
            let ret := min n (min (size - s).toNat incoming.length)
            recvLoop size es (s + UInt32.ofNat ret) (data ++ incoming.take ret) (incoming.drop ret)
      else some ⟨s, data, incoming, e :: es⟩

/-- `Client::recv`. -/
def recv (size : UInt32) (es : List Event) (incoming : Bytes) : Option Recv :=
  recvLoop size es 0 [] incoming

/-- What `Client::send` leaves behind. -/
structure Send where
  res : UInt32
  /-- What was written so far. -/
  wire : Bytes
  events : List Event

/-- The loop of `Client::send`. -/
def sendLoop (data : Bytes) (size : UInt32) : List Event → (s : UInt32) → (wire : Bytes) →
    Option Send
  | [], s, wire => if s < size then none else some ⟨s, wire, []⟩
  | e :: es, s, wire =>
      if s < size then
        match e with
        | .canceled => some ⟨s, wire, es⟩
        | .failed => some ⟨-1, wire, es⟩
        | .idle => sendLoop data size es s wire
        | .moved n =>
            let ret := min n (size - s).toNat
            sendLoop data size es (s + UInt32.ofNat ret) (wire ++ (data.drop s.toNat).take ret)
      else some ⟨s, wire, e :: es⟩

/-- `Client::send`. -/
def send (data : Bytes) (size : UInt32) (es : List Event) (wire : Bytes) : Option Send :=
  sendLoop data size es 0 wire

/-- How the loops report the ending of a transfer. -/
def code (r : Transfer.Result) : UInt32 :=
  match r.ending with
  | .complete => UInt32.ofNat r.got.length
  | .canceled => UInt32.ofNat r.got.length
  | .failed => -1

/-- The count of a loop stays the number of bytes moved. -/
theorem add_moves {size s : UInt32} {n : Nat} {got source : Bytes} (hs : s.toNat = got.length)
    (hle : got.length ≤ size.toNat) :
    (s + UInt32.ofNat (Transfer.moves size.toNat n got source)).toNat
      = got.length + Transfer.moves size.toNat n got source
      ∧ got.length + Transfer.moves size.toNat n got source ≤ size.toNat := by
  have hmoves : Transfer.moves size.toNat n got source ≤ size.toNat - got.length := by
    unfold Transfer.moves
    omega
  have hsize := size.toNat_lt
  rw [UInt32.toNat_add, UInt32.toNat_ofNat', hs]
  omega

theorem recvLoop_eq (size : UInt32) (es : List Event) : ∀ {s : UInt32} {data incoming : Bytes},
    s.toNat = data.length → data.length ≤ size.toNat →
    recvLoop size es s data incoming =
      (Transfer.run size.toNat es data incoming).map
        (fun r => ⟨code r, r.got, r.rest, r.events⟩) := by
  induction es with
  | nil =>
    intro s data incoming hs hle
    have hiff : s < size ↔ data.length < size.toNat := by rw [UInt32.lt_iff_toNat_lt, hs]
    by_cases hlt : data.length < size.toNat
    · rw [recvLoop, Transfer.run, if_pos (hiff.mpr hlt), if_pos hlt]
      rfl
    · have hcode : UInt32.ofNat data.length = s := by rw [← hs, UInt32.ofNat_toNat]
      rw [recvLoop, Transfer.run, if_neg (fun h => hlt (hiff.mp h)), if_neg hlt]
      exact congrArg (fun r => some (Recv.mk r _ _ _)) hcode.symm
  | cons e es ih =>
    intro s data incoming hs hle
    have hiff : s < size ↔ data.length < size.toNat := by rw [UInt32.lt_iff_toNat_lt, hs]
    have hcode : UInt32.ofNat data.length = s := by rw [← hs, UInt32.ofNat_toNat]
    by_cases hlt : data.length < size.toNat
    · have hgo := hiff.mpr hlt
      rw [Transfer.run_cons hlt]
      cases e with
      | canceled =>
        exact (if_pos hgo).trans (congrArg (fun r => some (Recv.mk r _ _ _)) hcode.symm)
      | failed => exact if_pos hgo
      | idle => exact (if_pos hgo).trans (ih hs hle)
      | moved n =>
        have hsub : (size - s).toNat = size.toNat - data.length := by
          rw [UInt32.toNat_sub_of_le _ _ (UInt32.le_of_lt hgo), hs]
        obtain ⟨hcount, hbound⟩ := @add_moves _ _ n _ incoming hs hle
        have hlen := Transfer.got_moves_length size.toNat n data incoming
        refine (if_pos hgo).trans ?_
        dsimp only
        rw [hsub]
        exact ih (hcount.trans hlen.symm) (Nat.le_trans (Nat.le_of_eq hlen) hbound)
    · rw [Transfer.run_of_le (by omega)]
      refine Eq.trans (b := some ⟨s, data, incoming, e :: es⟩) ?_ ?_
      · cases e <;> exact if_neg (fun h => hlt (hiff.mp h))
      · exact congrArg (fun r => some (Recv.mk r _ _ _)) hcode.symm

/-- **`Client::recv` is a transfer** from the bytes that come in. -/
theorem recv_eq (size : UInt32) (es : List Event) (incoming : Bytes) :
    recv size es incoming =
      (Transfer.run size.toNat es [] incoming).map (fun r => ⟨code r, r.got, r.rest, r.events⟩) :=
  recvLoop_eq size es rfl (Nat.zero_le _)

theorem sendLoop_eq {data : Bytes} {size : UInt32} (h : data.length = size.toNat) (wire : Bytes)
    (es : List Event) : ∀ {s : UInt32} {got : Bytes}, s.toNat = got.length →
      got.length ≤ size.toNat →
      sendLoop data size es s (wire ++ got) =
        (Transfer.run size.toNat es got (data.drop s.toNat)).map
          (fun r => ⟨code r, wire ++ r.got, r.events⟩) := by
  induction es with
  | nil =>
    intro s got hs hle
    have hiff : s < size ↔ got.length < size.toNat := by rw [UInt32.lt_iff_toNat_lt, hs]
    by_cases hlt : got.length < size.toNat
    · rw [sendLoop, Transfer.run, if_pos (hiff.mpr hlt), if_pos hlt]
      rfl
    · have hcode : UInt32.ofNat got.length = s := by rw [← hs, UInt32.ofNat_toNat]
      rw [sendLoop, Transfer.run, if_neg (fun h => hlt (hiff.mp h)), if_neg hlt]
      exact congrArg (fun r => some (Send.mk r _ _)) hcode.symm
  | cons e es ih =>
    intro s got hs hle
    have hiff : s < size ↔ got.length < size.toNat := by rw [UInt32.lt_iff_toNat_lt, hs]
    have hcode : UInt32.ofNat got.length = s := by rw [← hs, UInt32.ofNat_toNat]
    by_cases hlt : got.length < size.toNat
    · have hgo := hiff.mpr hlt
      rw [Transfer.run_cons hlt]
      cases e with
      | canceled =>
        exact (if_pos hgo).trans (congrArg (fun r => some (Send.mk r _ _)) hcode.symm)
      | failed => exact if_pos hgo
      | idle => exact (if_pos hgo).trans (ih hs hle)
      | moved n =>
        have hsub : (size - s).toNat = size.toNat - got.length := by
          rw [UInt32.toNat_sub_of_le _ _ (UInt32.le_of_lt hgo), hs]
        -- all that is left to send is there
        have hmoves : min n (size.toNat - got.length)
            = Transfer.moves size.toNat n got (data.drop s.toNat) := by
          unfold Transfer.moves
          rw [List.length_drop, h, hs, Nat.min_self]
        obtain ⟨hcount, hbound⟩ := @add_moves _ _ n _ (data.drop s.toNat) hs hle
        have hlen := Transfer.got_moves_length size.toNat n got (data.drop s.toNat)
        refine (if_pos hgo).trans ?_
        dsimp only
        rw [hsub, hmoves, List.append_assoc]
        have hnext := ih (s := s + UInt32.ofNat (Transfer.moves size.toNat n got
          (data.drop s.toNat))) (hcount.trans hlen.symm) (by omega)
        rw [hcount, ← hs, ← List.drop_drop] at hnext
        exact hnext
    · rw [Transfer.run_of_le (by omega)]
      refine Eq.trans (b := some ⟨s, wire ++ got, e :: es⟩) ?_ ?_
      · cases e <;> exact if_neg (fun h => hlt (hiff.mp h))
      · exact congrArg (fun r => some (Send.mk r _ _)) hcode.symm

/-- **`Client::send` is a transfer** from the data to the wire. -/
theorem send_eq {data : Bytes} {size : UInt32} (h : data.length = size.toNat) (es : List Event)
    (wire : Bytes) :
    send data size es wire =
      (Transfer.run size.toNat es [] data).map (fun r => ⟨code r, wire ++ r.got, r.events⟩) := by
  have hloop := @sendLoop_eq _ _ h wire es 0 [] rfl (Nat.zero_le _)
  rw [List.append_nil] at hloop
  exact hloop

/-- A quiet `Client::recv` returns the size it was asked for. -/
theorem recv_quiet {size : UInt32} {es : List Event} {incoming : Bytes} {r : Recv}
    (hsrc : size.toNat ≤ incoming.length) (hq : Transfer.Quiet es)
    (h : recv size es incoming = some r) :
    r.res = size ∧ r.data = incoming.take size.toNat ∧ r.incoming = incoming.drop size.toNat
      ∧ Transfer.Quiet r.events := by
  rw [recv_eq] at h
  obtain ⟨t, ht, rfl⟩ := Option.map_eq_some_iff.mp h
  obtain ⟨hend, hgot, hrest, hquiet⟩ := Transfer.run_quiet ht hq
  refine ⟨?_, hgot, hrest, hquiet⟩
  show code t = size
  unfold code
  rw [hend, hgot, List.length_take, Nat.min_eq_left hsrc, UInt32.ofNat_toNat]

theorem recv_isSome {size : UInt32} {es : List Event} {incoming : Bytes}
    (hsrc : size.toNat ≤ incoming.length) (hq : Transfer.Quiet es)
    (hes : size.toNat ≤ Transfer.productive es) :
    ∃ r, recv size es incoming = some r
      ∧ Transfer.productive es ≤ Transfer.productive r.events + size.toNat := by
  have hrun : ∃ t, Transfer.run size.toNat es [] incoming = some t ∧ (Transfer.Quiet es →
      Transfer.productive es ≤ Transfer.productive t.events + size.toNat) :=
    Transfer.run_isSome (by rw [List.length_nil, Nat.zero_add]; exact hsrc) hes
  obtain ⟨t, ht, hleft⟩ := hrun
  rw [recv_eq, ht]
  exact ⟨_, rfl, hleft hq⟩

/-- A quiet `Client::send` writes the data. -/
theorem send_quiet {data : Bytes} {size : UInt32} {es : List Event} {wire : Bytes} {r : Send}
    (hsize : data.length = size.toNat) (hq : Transfer.Quiet es)
    (h : send data size es wire = some r) :
    r.res = size ∧ r.wire = wire ++ data ∧ Transfer.Quiet r.events := by
  rw [send_eq hsize] at h
  obtain ⟨t, ht, rfl⟩ := Option.map_eq_some_iff.mp h
  obtain ⟨hend, hgot, -, hquiet⟩ := Transfer.run_quiet ht hq
  rw [List.take_of_length_le (Nat.le_of_eq hsize)] at hgot
  refine ⟨?_, congrArg (wire ++ ·) hgot, hquiet⟩
  show code t = size
  unfold code
  rw [hend, hgot, hsize, UInt32.ofNat_toNat]

theorem send_isSome {data : Bytes} {size : UInt32} {es : List Event} (wire : Bytes)
    (hsize : data.length = size.toNat) (hq : Transfer.Quiet es)
    (hes : size.toNat ≤ Transfer.productive es) :
    ∃ r, send data size es wire = some r
      ∧ Transfer.productive es ≤ Transfer.productive r.events + size.toNat := by
  have hrun : ∃ t, Transfer.run size.toNat es [] data = some t ∧ (Transfer.Quiet es →
      Transfer.productive es ≤ Transfer.productive t.events + size.toNat) :=
    Transfer.run_isSome (by rw [List.length_nil, Nat.zero_add, hsize]) hes
  obtain ⟨t, ht, hleft⟩ := hrun
  rw [send_eq hsize, ht]
  exact ⟨_, rfl, hleft hq⟩

end Client

/-! ## Packets -/

/-- `Sender::sendPacket`; what `Client::send` leaves behind, with what is returned. -/
def Sender.sendPacket (pkt : Packet) (es : List Event) (wire : Bytes) : Option Client.Send :=
  match Client.send pkt.head.bytes 24 es wire with
  | none => none
  | some h =>
      if h.res < 24 then some { h with res := -1 }
      else if 0 < pkt.head.bodySize then
        match Client.send pkt.bodyBytes pkt.head.bodySize h.events h.wire with
        | none => none
        | some b =>
            if b.res < pkt.head.bodySize then some { b with res := -1 }
            else some { b with res := h.res + b.res }
      else some h

namespace Receiver

/-- What `Receiver::recvPacket` leaves behind. -/
structure RecvPacket where
  res : UInt32
  pkt : Packet
  /-- How many bytes of the head and of the body were received. -/
  headRead : Nat
  bodyRead : Nat
  incoming : Bytes
  events : List Event

/-- The head of a packet that was zero before some bytes were received into it. -/
def headOf (data : Bytes) : Packet.Head :=
  Packet.Head.ofBytes (data ++ List.replicate (24 - data.length) 0)

/-- `Receiver::recvPacket`. -/
def recvPacket (es : List Event) (incoming : Bytes) : Option RecvPacket :=
  match Client.recv 24 es incoming with
  | none => none
  | some h =>
      let pkt : Packet := { head := headOf h.data, body := none }
      if h.res = 0 then some ⟨0, pkt, h.data.length, 0, h.incoming, h.events⟩
      else if h.res < 24 then some ⟨-1, pkt, h.data.length, 0, h.incoming, h.events⟩
      else if 0 < pkt.head.bodySize then
        if MAX_PACKET_BODY < pkt.head.bodySize then
          some ⟨-1, pkt, h.data.length, 0, h.incoming, h.events⟩
        else
          match Client.recv pkt.head.bodySize h.events h.incoming with
          | none => none
          | some b =>
              if b.res < pkt.head.bodySize then
                some ⟨-1, pkt, h.data.length, b.data.length, b.incoming, b.events⟩
              else
                some ⟨h.res + b.res,
                  pkt.setBody ((MemoryBuffer.create pkt.head.bodySize).blit b.data 0) 0,
                  h.data.length, b.data.length, b.incoming, b.events⟩
      else some ⟨h.res, pkt, h.data.length, 0, h.incoming, h.events⟩

/-- What `Receiver::run` puts into its queue: the result is positive as an `int32_t`. -/
def Queued (res : UInt32) : Prop := 0 < res.toInt32

instance : DecidablePred Queued := fun res => inferInstanceAs (Decidable (0 < res.toInt32))

theorem queued_iff {res : UInt32} : Queued res ↔ 0 < res.toNat ∧ res.toNat < 2 ^ 31 := by
  have hint : res.toInt32.toInt
      = if 2 * res.toNat < 2 ^ 32 then (res.toNat : Int) else (res.toNat : Int) - (2 ^ 32 : Nat) :=
    BitVec.toInt_eq_toNat_cond res.toBitVec
  have hlt := res.toNat_lt
  unfold Queued
  rw [Int32.lt_iff_toInt_lt, hint]
  show 0 < _ ↔ _
  split <;> omega

end Receiver

/-! ## A list of packets -/

/-- What a packet is on the wire. -/
def Packet.frame (pkt : Packet) : Bytes := pkt.head.bytes ++ pkt.bodyBytes

/-- One call of `Sender::sendPacket` for each packet. -/
def Sender.sendPackets : List Packet → List Event → Bytes → Option (Bytes × List Event)
  | [], es, wire => some (wire, es)
  | pkt :: pkts, es, wire =>
      match sendPacket pkt es wire with
      | none => none
      | some r => sendPackets pkts r.events r.wire

/-- So many calls of `Receiver::recvPacket`. -/
def Receiver.recvPackets : Nat → List Event → Bytes → Option (List RecvPacket)
  | 0, _, _ => some []
  | n + 1, es, incoming =>
      match recvPacket es incoming with
      | none => none
      | some r => (recvPackets n r.events r.incoming).map (r :: ·)

theorem Packet.FromWire.frame_length {pkt : Packet} (h : pkt.FromWire) :
    pkt.frame.length = 24 + pkt.head.bodySize.toNat := by
  unfold frame
  rw [List.length_append, Head.bytes_length, h.bodyBytes_length]

/-- A quiet call writes the frame, and returns its length. -/
theorem Sender.sendPacket_quiet {pkt : Packet} (hpkt : pkt.FromWire) {es : List Event}
    (hq : Transfer.Quiet es) {wire : Bytes} {r : Client.Send}
    (h : sendPacket pkt es wire = some r) :
    r.wire = wire ++ pkt.frame ∧ Transfer.Quiet r.events := by
  unfold sendPacket at h
  cases hhead : Client.send pkt.head.bytes 24 es wire with
  | none =>
    rw [hhead] at h
    exact absurd h (by simp)
  | some a =>
    obtain ⟨hres, hwire, hquiet⟩ := Client.send_quiet (Packet.Head.bytes_length _) hq hhead
    rw [hhead] at h
    dsimp only at h
    rw [hres, if_neg (by decide)] at h
    by_cases hsize : 0 < pkt.head.bodySize
    · rw [if_pos hsize] at h
      cases hbody : Client.send pkt.bodyBytes pkt.head.bodySize a.events a.wire with
      | none =>
        rw [hbody] at h
        exact absurd h (by simp)
      | some b =>
        obtain ⟨hres', hwire', hquiet'⟩ := Client.send_quiet hpkt.bodyBytes_length hquiet hbody
        rw [hbody] at h
        dsimp only at h
        rw [hres', if_neg (UInt32.lt_irrefl _)] at h
        obtain rfl := Option.some.inj h
        refine ⟨?_, hquiet'⟩
        show b.wire = _
        rw [hwire', hwire, List.append_assoc]
        rfl
    · rw [if_neg hsize] at h
      obtain rfl := Option.some.inj h
      have hzero : pkt.head.bodySize.toNat = 0 := by
        rw [UInt32.lt_iff_toNat_lt] at hsize
        change ¬ 0 < _ at hsize
        omega
      have hnil : pkt.bodyBytes = [] := by
        apply List.length_eq_zero_iff.mp
        rw [hpkt.bodyBytes_length, hzero]
      refine ⟨?_, hquiet⟩
      rw [hwire, Packet.frame, hnil, List.append_nil]

/-- A quiet call comes back. -/
theorem Sender.sendPacket_isSome {pkt : Packet} (hpkt : pkt.FromWire) {es : List Event}
    (hq : Transfer.Quiet es) (wire : Bytes) (hes : pkt.frame.length ≤ Transfer.productive es) :
    ∃ r, sendPacket pkt es wire = some r
      ∧ Transfer.productive es ≤ Transfer.productive r.events + pkt.frame.length := by
  have hframe := hpkt.frame_length
  have hlen : pkt.head.bytes.length = (24 : UInt32).toNat := Packet.Head.bytes_length _
  have hprod : (24 : UInt32).toNat ≤ Transfer.productive es := by
    show 24 ≤ _
    omega
  obtain ⟨a, hhead, hleft⟩ := Client.send_isSome wire hlen hq hprod
  obtain ⟨hres, -, hquiet⟩ := Client.send_quiet hlen hq hhead
  change _ ≤ _ + 24 at hleft
  unfold sendPacket
  rw [hhead]
  dsimp only
  rw [hres, if_neg (by decide)]
  by_cases hsize : 0 < pkt.head.bodySize
  · obtain ⟨b, hbody, hleft'⟩ := Client.send_isSome a.wire hpkt.bodyBytes_length hquiet (by omega)
    obtain ⟨hres', -, -⟩ := Client.send_quiet hpkt.bodyBytes_length hquiet hbody
    rw [if_pos hsize, hbody]
    dsimp only
    rw [hres', if_neg (UInt32.lt_irrefl _)]
    exact ⟨_, rfl, by show _ ≤ Transfer.productive b.events + _; omega⟩
  · rw [if_neg hsize]
    exact ⟨_, rfl, by omega⟩

namespace Receiver

/-- A quiet head. -/
theorem recv_head {head : Packet.Head} {es : List Event} (hq : Transfer.Quiet es) {rest : Bytes}
    {r : Client.Recv} (h : Client.recv 24 es (head.bytes ++ rest) = some r) :
    r.res = 24 ∧ headOf r.data = head ∧ r.data.length = 24 ∧ r.incoming = rest
      ∧ Transfer.Quiet r.events := by
  have hlen : head.bytes.length = (24 : UInt32).toNat := Packet.Head.bytes_length head
  obtain ⟨hres, hdata, hincoming, hquiet⟩ := Client.recv_quiet
    (by rw [List.length_append, ← hlen]; omega) hq h
  rw [← hlen, List.take_left] at hdata
  rw [← hlen, List.drop_left] at hincoming
  refine ⟨hres, ?_, ?_, hincoming, hquiet⟩
  · rw [hdata]
    exact Packet.Head.ofBytes_bytes head _
  · rw [hdata, Packet.Head.bytes_length]

/-- The packet that a received body makes of its head. -/
theorem setBody_eq {pkt : Packet} (hpkt : pkt.FromWire) (hne : pkt.head.bodySize ≠ 0) :
    Packet.setBody ⟨pkt.head, none⟩
      ((MemoryBuffer.create pkt.head.bodySize).blit pkt.bodyBytes 0) 0 = pkt := by
  have hdata := MemoryBuffer.create_blit_data hpkt.bodyBytes_length
  have hsize : UInt32.ofNat ((MemoryBuffer.create pkt.head.bodySize).blit pkt.bodyBytes 0).size
      = pkt.head.bodySize := by
    rw [MemoryBuffer.blit_size, MemoryBuffer.create_size, UInt32.ofNat_toNat]
  have hpacket := hpkt.eq.2 _ hne hdata
  unfold Packet.setBody
  rw [if_neg (fun h => h rfl), hsize]
  exact hpacket.symm

/-- A quiet call takes a frame from what comes in, and returns its packet. -/
theorem recvPacket_quiet {pkt : Packet} (hpkt : pkt.FromWire) {es : List Event}
    (hq : Transfer.Quiet es) {rest : Bytes} {p : RecvPacket}
    (h : recvPacket es (pkt.frame ++ rest) = some p) :
    p.pkt = pkt ∧ Queued p.res ∧ p.incoming = rest ∧ Transfer.Quiet p.events := by
  unfold recvPacket at h
  rw [Packet.frame, List.append_assoc] at h
  cases hhead : Client.recv 24 es (pkt.head.bytes ++ (pkt.bodyBytes ++ rest)) with
  | none =>
    rw [hhead] at h
    exact absurd h (by simp)
  | some a =>
    obtain ⟨hres, hof, -, hincoming, hquiet⟩ := recv_head hq hhead
    rw [hhead] at h
    dsimp only at h
    rw [hres, if_neg (by decide), if_neg (by decide), hof] at h
    by_cases hsize : 0 < pkt.head.bodySize
    · have hpos : 0 < pkt.head.bodySize.toNat := UInt32.lt_iff_toNat_lt.mp hsize
      have hmax : ¬ MAX_PACKET_BODY < pkt.head.bodySize := by
        rw [UInt32.lt_iff_toNat_lt, MAX_PACKET_BODY_toNat]
        exact Nat.not_lt.mpr hpkt.le
      have hne : pkt.head.bodySize ≠ 0 := by
        intro h0
        rw [h0] at hpos
        exact absurd hpos (by decide)
      rw [if_pos hsize, if_neg hmax, hincoming] at h
      cases hbody : Client.recv pkt.head.bodySize a.events (pkt.bodyBytes ++ rest) with
      | none =>
        rw [hbody] at h
        exact absurd h (by simp)
      | some b =>
        have hlen := hpkt.bodyBytes_length
        obtain ⟨hres', hdata, hrest, hquiet'⟩ := Client.recv_quiet
          (by rw [List.length_append, hlen]; omega) hquiet hbody
        rw [← hlen, List.take_left] at hdata
        rw [← hlen, List.drop_left] at hrest
        rw [hbody] at h
        dsimp only at h
        rw [hres', if_neg (UInt32.lt_irrefl _), hdata, setBody_eq hpkt hne] at h
        obtain rfl := Option.some.inj h
        refine ⟨rfl, ?_, hrest, hquiet'⟩
        have hle := hpkt.le
        rw [queued_iff, UInt32.toNat_add]
        show 0 < (24 + _) % _ ∧ (24 + _) % _ < _
        omega
    · have hzero : pkt.head.bodySize = 0 := by
        rw [UInt32.not_lt] at hsize
        exact UInt32.le_antisymm hsize (UInt32.zero_le ..)
      have hnil : pkt.bodyBytes = [] := by
        apply List.length_eq_zero_iff.mp
        rw [hpkt.bodyBytes_length, hzero]
        rfl
      rw [if_neg hsize] at h
      obtain rfl := Option.some.inj h
      refine ⟨(hpkt.eq.1 hzero).symm, ?_, ?_, hquiet⟩
      · show Queued 24
        decide
      · rw [hincoming, hnil, List.nil_append]

theorem recvPacket_isSome {pkt : Packet} (hpkt : pkt.FromWire) {es : List Event}
    (hq : Transfer.Quiet es) (rest : Bytes) (hes : pkt.frame.length ≤ Transfer.productive es) :
    ∃ p, recvPacket es (pkt.frame ++ rest) = some p
      ∧ Transfer.productive es ≤ Transfer.productive p.events + pkt.frame.length := by
  have hframe := hpkt.frame_length
  have hlen := hpkt.bodyBytes_length
  have hsrc : (24 : UInt32).toNat ≤ (pkt.head.bytes ++ (pkt.bodyBytes ++ rest)).length := by
    rw [List.length_append, Packet.Head.bytes_length]
    exact Nat.le_add_right 24 _
  have hprod : (24 : UInt32).toNat ≤ Transfer.productive es := by
    show 24 ≤ _
    omega
  obtain ⟨a, hhead, hleft⟩ := Client.recv_isSome hsrc hq hprod
  obtain ⟨hres, hof, -, hincoming, hquiet⟩ := recv_head hq hhead
  change _ ≤ _ + 24 at hleft
  unfold recvPacket
  rw [Packet.frame, List.append_assoc, hhead]
  dsimp only
  rw [hres, if_neg (by decide), if_neg (by decide), hof]
  by_cases hsize : 0 < pkt.head.bodySize
  · have hmax : ¬ MAX_PACKET_BODY < pkt.head.bodySize := by
      rw [UInt32.lt_iff_toNat_lt, MAX_PACKET_BODY_toNat]
      exact Nat.not_lt.mpr hpkt.le
    have hsrc : pkt.head.bodySize.toNat ≤ (pkt.bodyBytes ++ rest).length := by
      rw [List.length_append, hlen]
      omega
    obtain ⟨b, hbody, hleft'⟩ := Client.recv_isSome hsrc hquiet (by omega)
    obtain ⟨hres', -, -, -⟩ := Client.recv_quiet hsrc hquiet hbody
    rw [if_pos hsize, if_neg hmax, hincoming, hbody]
    dsimp only
    rw [hres', if_neg (UInt32.lt_irrefl _)]
    exact ⟨_, rfl, by
      show _ ≤ Transfer.productive b.events + _
      rw [List.length_append, Packet.Head.bytes_length, hlen]
      omega⟩
  · rw [if_neg hsize]
    exact ⟨_, rfl, by
      show _ ≤ Transfer.productive a.events + _
      rw [List.length_append, Packet.Head.bytes_length]
      omega⟩

/-- A head that announces too much is turned down with its body still to come. -/
theorem recvPacket_large {head : Packet.Head} (hlarge : MAX_PACKET_BODY < head.bodySize)
    {es : List Event} (hq : Transfer.Quiet es) {rest : Bytes} {p : RecvPacket}
    (h : recvPacket es (head.bytes ++ rest) = some p) : ¬ Queued p.res ∧ p.incoming = rest := by
  unfold recvPacket at h
  cases hhead : Client.recv 24 es (head.bytes ++ rest) with
  | none =>
    rw [hhead] at h
    exact absurd h (by simp)
  | some a =>
    obtain ⟨hres, hof, -, hincoming, -⟩ := recv_head hq hhead
    have hpos : 0 < head.bodySize := UInt32.lt_trans (by decide) hlarge
    rw [hhead] at h
    dsimp only at h
    rw [hres, if_neg (by decide), if_neg (by decide), hof, if_pos hpos, if_pos hlarge] at h
    obtain rfl := Option.some.inj h
    refine ⟨?_, hincoming⟩
    show ¬ Queued (-1)
    decide

/-- The head is all that such a call waits for. -/
theorem recvPacket_large_isSome {head : Packet.Head} (hlarge : MAX_PACKET_BODY < head.bodySize)
    {es : List Event} (hq : Transfer.Quiet es) (rest : Bytes)
    (hes : 24 ≤ Transfer.productive es) :
    ∃ p, recvPacket es (head.bytes ++ rest) = some p := by
  have hsrc : (24 : UInt32).toNat ≤ (head.bytes ++ rest).length := by
    rw [List.length_append, Packet.Head.bytes_length]
    exact Nat.le_add_right 24 _
  obtain ⟨a, hhead, -⟩ := Client.recv_isSome hsrc hq hes
  obtain ⟨hres, hof, -, -, -⟩ := recv_head hq hhead
  have hpos : 0 < head.bodySize := UInt32.lt_trans (by decide) hlarge
  unfold recvPacket
  rw [hhead]
  dsimp only
  rw [hres, if_neg (by decide), if_neg (by decide), hof, if_pos hpos, if_pos hlarge]
  exact ⟨_, rfl⟩

end Receiver

theorem Sender.sendPackets_quiet : ∀ {pkts : List Packet} {es left : List Event} {wire wire' : Bytes},
    (∀ pkt ∈ pkts, pkt.FromWire) → Transfer.Quiet es → sendPackets pkts es wire = some (wire', left) →
    wire' = wire ++ pkts.flatMap Packet.frame
  | [], es, left, wire, wire', _, _, h => by
      obtain ⟨rfl, rfl⟩ := Prod.mk.inj (Option.some.inj h)
      rw [List.flatMap_nil, List.append_nil]
  | pkt :: pkts, es, left, wire, wire', hpkts, hq, h => by
      rw [sendPackets] at h
      cases hpkt : sendPacket pkt es wire with
      | none =>
        rw [hpkt] at h
        exact absurd h (by simp)
      | some r =>
        obtain ⟨hwire, hquiet⟩ := sendPacket_quiet (hpkts _ (List.mem_cons_self ..)) hq hpkt
        rw [hpkt] at h
        have ih := sendPackets_quiet (fun q hm => hpkts q (List.mem_cons_of_mem _ hm)) hquiet h
        rw [ih, hwire, List.flatMap_cons, List.append_assoc]

theorem Sender.sendPackets_isSome : ∀ {pkts : List Packet} {es : List Event} (wire : Bytes),
    (∀ pkt ∈ pkts, pkt.FromWire) → Transfer.Quiet es →
    (pkts.flatMap Packet.frame).length ≤ Transfer.productive es →
    ∃ r, sendPackets pkts es wire = some r
  | [], es, wire, _, _, _ => ⟨_, rfl⟩
  | pkt :: pkts, es, wire, hpkts, hq, hes => by
      have hwf := hpkts _ (List.mem_cons_self ..)
      rw [List.flatMap_cons, List.length_append] at hes
      obtain ⟨r, hpkt, hleft⟩ := sendPacket_isSome hwf hq wire (by omega)
      obtain ⟨-, hquiet⟩ := sendPacket_quiet hwf hq hpkt
      rw [sendPackets, hpkt]
      exact sendPackets_isSome _ (fun q hm => hpkts q (List.mem_cons_of_mem _ hm)) hquiet (by omega)

theorem Receiver.recvPackets_quiet : ∀ {pkts : List Packet} {es : List Event} {rest : Bytes}
    {ps : List RecvPacket}, (∀ pkt ∈ pkts, pkt.FromWire) → Transfer.Quiet es →
    recvPackets pkts.length es (pkts.flatMap Packet.frame ++ rest) = some ps →
    ps.map (·.pkt) = pkts ∧ ∀ p ∈ ps, Queued p.res
  | [], es, rest, ps, _, _, h => by
      obtain rfl := Option.some.inj h
      exact ⟨rfl, fun p hp => absurd hp List.not_mem_nil⟩
  | pkt :: pkts, es, rest, ps, hpkts, hq, h => by
      rw [List.length_cons, recvPackets, List.flatMap_cons, List.append_assoc] at h
      cases hpkt : recvPacket es (pkt.frame ++ (pkts.flatMap Packet.frame ++ rest)) with
      | none =>
        rw [hpkt] at h
        exact absurd h (by simp)
      | some p =>
        obtain ⟨hp, hqueued, hincoming, hquiet⟩ :=
          recvPacket_quiet (hpkts _ (List.mem_cons_self ..)) hq hpkt
        rw [hpkt] at h
        dsimp only at h
        rw [hincoming] at h
        obtain ⟨ps', hps, rfl⟩ := Option.map_eq_some_iff.mp h
        obtain ⟨hmap, hall⟩ :=
          recvPackets_quiet (fun q hm => hpkts q (List.mem_cons_of_mem _ hm)) hquiet hps
        refine ⟨by rw [List.map_cons, hp, hmap], fun q hm => ?_⟩
        rcases List.mem_cons.mp hm with rfl | hm
        · exact hqueued
        · exact hall q hm

theorem Receiver.recvPackets_isSome : ∀ {pkts : List Packet} {es : List Event} (rest : Bytes),
    (∀ pkt ∈ pkts, pkt.FromWire) → Transfer.Quiet es →
    (pkts.flatMap Packet.frame).length ≤ Transfer.productive es →
    ∃ ps, recvPackets pkts.length es (pkts.flatMap Packet.frame ++ rest) = some ps
  | [], es, rest, _, _, _ => ⟨_, rfl⟩
  | pkt :: pkts, es, rest, hpkts, hq, hes => by
      have hwf := hpkts _ (List.mem_cons_self ..)
      rw [List.flatMap_cons, List.length_append] at hes
      obtain ⟨p, hpkt, hleft⟩ := recvPacket_isSome hwf hq (pkts.flatMap Packet.frame ++ rest)
        (by omega)
      obtain ⟨-, -, hincoming, hquiet⟩ := recvPacket_quiet hwf hq hpkt
      obtain ⟨ps, hps⟩ := @recvPackets_isSome _ p.events rest
        (fun q hm => hpkts q (List.mem_cons_of_mem _ hm)) hquiet (by omega)
      rw [List.length_cons, recvPackets, List.flatMap_cons, List.append_assoc, hpkt]
      dsimp only
      rw [hincoming, hps]
      exact ⟨_, rfl⟩

/-- **The packets arrive as they were sent**, however the transport cuts the stream on either side,
and each is queued. Both sides come to an end once as many of their calls moved something as the
stream has bytes. A head that announces more than a packet may have is turned down before a byte of
its body is taken; the call needs no more than the head to come in. -/
theorem packets_received {pkts : List Packet} (hpkts : ∀ pkt ∈ pkts, pkt.FromWire)
    {sent received : List Event} (hsent : Transfer.Quiet sent)
    (hreceived : Transfer.Quiet received) :
    (∀ wire left ps, Sender.sendPackets pkts sent [] = some (wire, left) →
      Receiver.recvPackets pkts.length received wire = some ps →
      ps.map (·.pkt) = pkts ∧ ∀ p ∈ ps, Receiver.Queued p.res) ∧
    ((pkts.flatMap Packet.frame).length ≤ Transfer.productive sent →
      (pkts.flatMap Packet.frame).length ≤ Transfer.productive received →
      ∃ wire left ps, Sender.sendPackets pkts sent [] = some (wire, left) ∧
        Receiver.recvPackets pkts.length received wire = some ps) ∧
    (∀ (head : Packet.Head) rest, MAX_PACKET_BODY < head.bodySize →
      (∀ p, Receiver.recvPacket received (head.bytes ++ rest) = some p →
        ¬ Receiver.Queued p.res ∧ p.incoming = rest) ∧
      (24 ≤ Transfer.productive received →
        ∃ p, Receiver.recvPacket received (head.bytes ++ rest) = some p)) := by
  refine ⟨?_, ?_, fun head rest hlarge =>
    ⟨fun p h => Receiver.recvPacket_large hlarge hreceived h,
      Receiver.recvPacket_large_isSome hlarge hreceived rest⟩⟩
  · intro wire left ps hsend hrecv
    have hwire := Sender.sendPackets_quiet hpkts hsent hsend
    rw [hwire, List.nil_append, ← List.append_nil (pkts.flatMap Packet.frame)] at hrecv
    exact Receiver.recvPackets_quiet hpkts hreceived hrecv
  · intro hes hes'
    obtain ⟨⟨wire, left⟩, hsend⟩ := Sender.sendPackets_isSome [] hpkts hsent hes
    obtain ⟨ps, hrecv⟩ := Receiver.recvPackets_isSome [] hpkts hreceived hes'
    have hwire := Sender.sendPackets_quiet hpkts hsent hsend
    rw [List.append_nil, ← List.nil_append (pkts.flatMap Packet.frame), ← hwire] at hrecv
    exact ⟨wire, left, ps, hsend, hrecv⟩

/-- Two packets, sent three bytes at a time and received five at a time. -/
theorem packets_received_two :
    ∃ wire left ps, Sender.sendPackets
        [⟨⟨1, 7, 1, 1, 1, 2⟩, some (.ofData [0x5A, 0x5A])⟩, ⟨⟨2, 8, 1, 1, 1, 0⟩, none⟩]
        (.idle :: List.replicate 50 (.moved 3)) [] = some (wire, left) ∧
      Receiver.recvPackets 2 (List.replicate 50 (.moved 5)) wire = some ps ∧
      ps.map (·.pkt)
        = [⟨⟨1, 7, 1, 1, 1, 2⟩, some (.ofData [0x5A, 0x5A])⟩, ⟨⟨2, 8, 1, 1, 1, 0⟩, none⟩] := by
  have hpkts : ∀ pkt ∈ [(⟨⟨1, 7, 1, 1, 1, 2⟩, some (.ofData [0x5A, 0x5A])⟩ : Packet),
      ⟨⟨2, 8, 1, 1, 1, 0⟩, none⟩], pkt.FromWire := by
    intro pkt hm
    rcases List.mem_cons.mp hm with rfl | hm
    · exact ⟨by decide, rfl⟩
    · rw [List.mem_singleton.mp hm]
      exact ⟨by decide, rfl⟩
  obtain ⟨hsame, hends, -⟩ := @packets_received _ hpkts (.idle :: List.replicate 50 (.moved 3))
    (List.replicate 50 (.moved 5)) (by decide) (by decide)
  obtain ⟨wire, left, ps, hsend, hrecv⟩ := hends (by decide) (by decide)
  exact ⟨wire, left, ps, hsend, hrecv, (hsame wire left ps hsend hrecv).1⟩

end Zway
