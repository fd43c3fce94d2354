import Zway.Stream.Receiver

/-!
# What a completed stream is made of

A receiver is fed packets until it completes or fails. `StreamReceiver::process`
lets part numbers below two through at any time, compares the part number with the
total of the first packet, while `UbjReceiver::processPacket` compares it with the
total of the packet itself, and counts the bytes apart from where they are put.

Which packets get through is a matter of their heads alone: `Walks`. What is then in
the buffer, and what is decoded, is a fold over them: `feed_walks`. So a completed
stream is intact for every content of its packets exactly when the heads are
`InSequence`.
-/

namespace Zway.UbjReceiver

section

variable (read : Ubj.Value → Bytes → Bool × Ubj.Value) (behind : Nat → UInt8)

/-- What feeding packets to a receiver leads to. -/
structure Fed where
  accepted : List Packet
  accesses : List Access
  receiver : UbjReceiver

/-- Feed packets to a receiver until it completes or fails. -/
def feed (r : UbjReceiver) : List Packet → Fed
  | [] => ⟨[], [], r⟩
  | pkt :: pkts =>
      let p := process read behind r pkt
      if p.ok = false then ⟨[], p.accesses, p.receiver⟩
      else if p.receiver.status = .completed then ⟨[pkt], p.accesses, p.receiver⟩
      else
        let q := feed p.receiver pkts
        ⟨pkt :: q.accepted, p.accesses ++ q.accesses, q.receiver⟩

/-! ## The path through the part numbers -/

/-- The heads get through the order check one after another, and the last of them is the first to
have the part number that completes. -/
def Walks (parts : UInt32) : UInt32 → List Packet.Head → Prop
  | _, [] => False
  | part, h :: hs =>
      ¬ (1 < h.part ∧ h.part ≠ part + 1) ∧
        if h.part = parts then hs = [] else Walks parts h.part hs

/-- Where `BufferReceiver::processPacket` puts a body. -/
def offset (pkt : Packet) : Nat := ((pkt.head.part - 1) * MAX_PACKET_BODY).toNat

/-- The buffer after some packets. -/
def blits (b : MemoryBuffer) (pkts : List Packet) : MemoryBuffer :=
  pkts.foldl (fun b pkt => b.blit pkt.bodyBytes (offset pkt)) b

/-- `m_bytesReceived` after some packets. -/
def counted (n : UInt32) (pkts : List Packet) : UInt32 :=
  pkts.foldl (fun n pkt => n + pkt.head.bodySize) n

theorem blits_size (b : MemoryBuffer) : ∀ pkts : List Packet, (blits b pkts).size = b.size := by
  intro pkts
  induction pkts generalizing b with
  | nil => rfl
  | cons pkt pkts ih => exact (ih _).trans (MemoryBuffer.blit_size ..)

/-- The packet that completes a receiver. -/
theorem feed_done {r : UbjReceiver} {pkt : Packet} (hpart : ¬ r.OutOfOrder pkt)
    (hpos : 0 < r.buffer.size) (hdone : pkt.head.part = r.parts) (pkts : List Packet) :
    feed read behind r (pkt :: pkts) =
      ⟨[pkt], takenAccesses behind r pkt, taken read behind r pkt .completed⟩ := by
  unfold feed
  rw [process_taken read behind hpart hpos, if_pos hdone]
  dsimp only
  rw [if_neg (by decide)]
  exact if_pos rfl

/-- A packet in the middle. -/
theorem feed_more {r : UbjReceiver} {pkt : Packet} (hpart : ¬ r.OutOfOrder pkt)
    (hpos : 0 < r.buffer.size) (hmore : pkt.head.part ≠ r.parts) (hstatus : r.status ≠ .completed)
    (pkts : List Packet) :
    feed read behind r (pkt :: pkts) =
      ⟨pkt :: (feed read behind (taken read behind r pkt r.status) pkts).accepted,
        takenAccesses behind r pkt ++ (feed read behind (taken read behind r pkt r.status) pkts).accesses,
        (feed read behind (taken read behind r pkt r.status) pkts).receiver⟩ := by
  have hstatus' : (taken read behind r pkt r.status).status ≠ .completed := hstatus
  rw [feed, process_taken read behind hpart hpos, if_neg hmore]
  dsimp only
  rw [if_neg (by decide)]
  exact if_neg hstatus'

/-- A packet that is turned down. -/
theorem feed_failed {r : UbjReceiver} {pkt : Packet} (h : r.OutOfOrder pkt ∨ r.buffer.size = 0)
    (pkts : List Packet) : (feed read behind r (pkt :: pkts)).accepted = [] := by
  have hok : (process read behind r pkt).ok = false := by
    by_cases hpart : r.OutOfOrder pkt
    · unfold process
      rw [BufferReceiver.process_outOfOrder hpart]
    · rw [process_empty read behind hpart (h.resolve_left hpart)]
  rw [feed]
  dsimp only
  rw [if_pos hok]

/-- **What a completed feed leaves behind.** -/
theorem feed_walks : ∀ (pkts : List Packet) (last : Packet) {r : UbjReceiver},
    Walks r.parts r.part ((pkts ++ [last]).map (·.head)) → 0 < r.buffer.size →
    r.status ≠ .completed →
    ∃ accesses, feed read behind r (pkts ++ [last]) =
      ⟨pkts ++ [last],
        accesses ++ takenAccesses behind (feed read behind r pkts).receiver last,
        taken read behind (feed read behind r pkts).receiver last .completed⟩
      ∧ (feed read behind r pkts).receiver.parts = r.parts
      ∧ (feed read behind r pkts).receiver.buffer = blits r.buffer pkts
      ∧ (feed read behind r pkts).receiver.bytesReceived = counted r.bytesReceived pkts
  | [], last, r, hw, hpos, hstatus => by
      obtain ⟨hpart, hlast⟩ := hw
      have hdone : last.head.part = r.parts := by
        by_contra hne
        rw [if_neg hne] at hlast
        exact hlast
      exact ⟨[], feed_done read behind hpart hpos hdone [], rfl, rfl, rfl⟩
  | pkt :: pkts, last, r, hw, hpos, hstatus => by
      obtain ⟨hpart, hrest⟩ := hw
      have hmore : pkt.head.part ≠ r.parts := by
        intro heq
        rw [if_pos heq] at hrest
        exact absurd hrest (by simp)
      rw [if_neg hmore] at hrest
      have hfeed := feed_more read behind hpart hpos hmore hstatus
      have hsize : (taken read behind r pkt r.status).buffer.size = r.buffer.size :=
        MemoryBuffer.blit_size ..
      obtain ⟨accesses, hlast, hparts, hbuffer, hcount⟩ := feed_walks pkts last
        (r := taken read behind r pkt r.status) hrest (hsize ▸ hpos) hstatus
      rw [List.cons_append, hfeed, hfeed, hlast]
      refine ⟨takenAccesses behind r pkt ++ accesses, ?_, hparts, hbuffer, hcount⟩
      dsimp only
      rw [List.append_assoc]

/-- Only such packets complete a receiver. -/
theorem walks_of_feed : ∀ (pkts : List Packet) {r : UbjReceiver}, r.status ≠ .completed →
    (feed read behind r pkts).accepted = pkts →
    (feed read behind r pkts).receiver.status = .completed →
    0 < r.buffer.size ∧ Walks r.parts r.part (pkts.map (·.head))
  | [], r, hstatus, _, hdone => absurd hdone hstatus
  | pkt :: pkts, r, hstatus, hacc, hdone => by
      have hpart : ¬ r.OutOfOrder pkt := by
        intro hc
        rw [feed_failed read behind (.inl hc)] at hacc
        cases hacc
      have hpos : 0 < r.buffer.size := by
        rcases Nat.eq_zero_or_pos r.buffer.size with h0 | h0
        · rw [feed_failed read behind (.inr h0)] at hacc
          cases hacc
        · exact h0
      refine ⟨hpos, hpart, ?_⟩
      by_cases hlast : pkt.head.part = r.parts
      · rw [feed_done read behind hpart hpos hlast] at hacc
        have hnil : pkts = [] := (List.cons.inj hacc).2.symm
        rw [if_pos hlast, hnil]
        rfl
      · rw [feed_more read behind hpart hpos hlast hstatus] at hacc hdone
        rw [if_neg hlast]
        exact (walks_of_feed pkts (r := taken read behind r pkt r.status) hstatus (List.cons.inj hacc).2
          hdone).2

/-! ## Integrity -/

/-- The bodies of some packets, one after another. -/
def bodies (pkts : List Packet) : Bytes := pkts.flatMap Packet.bodyBytes

/-- The bytes that a receiver has counted, where it decodes them from. -/
def decoded (b : MemoryBuffer) (pkts : List Packet) : Bytes :=
  bytesAt behind (blits b pkts) (counted 0 pkts).toNat

/-- A receiver made from `p` that was fed `p` and `rest` got them in order, counted their bytes, and
ended with the decoding of their bodies. -/
structure Intact (p : Packet) (rest : List Packet) : Prop where
  order : (p :: rest).map (·.head.part.toNat) = List.range' 1 p.head.parts.toNat
  bytes : (feed read behind (create p) (p :: rest)).receiver.bytesReceived.toNat
    = ((p :: rest).map (·.head.bodySize.toNat)).sum
  /-- The last thing that happened is the decoding of the bodies. -/
  decoding : ∃ size bufferSize, (feed read behind (create p) (p :: rest)).accesses.getLast?
    = some (.valueRead size bufferSize (bodies (p :: rest)))
  value : (feed read behind (create p) (p :: rest)).receiver.sub
    = (read (feed read behind (create p) (p :: rest).dropLast).receiver.sub
        (bodies (p :: rest))).2

/-- A completed feed is intact under four conditions on the packets. -/
theorem intact_iff_decoded {p : Packet} {rest init : List Packet} {last : Packet}
    (hsplit : p :: rest = init ++ [last])
    (hw : Walks p.head.parts p.head.part ((p :: rest).map (·.head)))
    (hpos : 0 < (create p).buffer.size) :
    Intact read behind p rest ↔
      (p :: rest).map (·.head.part.toNat) = List.range' 1 p.head.parts.toNat
      ∧ (counted 0 (p :: rest)).toNat = ((p :: rest).map (·.head.bodySize.toNat)).sum
      ∧ last.head.part = last.head.parts
      ∧ decoded behind (create p).buffer (p :: rest) = bodies (p :: rest) := by
  have hstatus : (create p).status ≠ .completed := fun h => by cases h
  rw [hsplit] at hw
  obtain ⟨accesses, hfeed, -, hbuffer, hcount⟩ := feed_walks read behind init last
    (r := create p) hw hpos hstatus
  rw [← hsplit] at hfeed
  have hinit : (p :: rest).dropLast = init := by
    rw [hsplit, List.dropLast_concat]
  have hstored : storedBytes behind (feed read behind (create p) init).receiver last
      = decoded behind (create p).buffer (p :: rest) := by
    unfold storedBytes BufferReceiver.store decoded blits counted
    rw [hbuffer, hcount, hsplit, List.foldl_append, List.foldl_append]
    rfl
  have hbytes : (feed read behind (create p) (p :: rest)).receiver.bytesReceived
      = counted 0 (p :: rest) := by
    rw [hfeed, hsplit]
    show (feed read behind (create p) init).receiver.bytesReceived + _ = _
    unfold counted
    rw [hcount, List.foldl_append]
    rfl
  have hlast : (feed read behind (create p) (p :: rest)).accesses.getLast?
      = if last.head.part = last.head.parts then
          some (.valueRead (counted 0 (p :: rest)).toNat
            (feed read behind (create p) init).receiver.buffer.size
            (decoded behind (create p).buffer (p :: rest)))
        else some (.bodyData last.body.isSome) := by
    rw [hfeed] at hbytes ⊢
    change (BufferReceiver.store _ last).bytesReceived = _ at hbytes
    dsimp only
    unfold takenAccesses
    rw [hstored, hbytes]
    by_cases heq : last.head.part = last.head.parts
    · rw [if_pos heq, if_pos heq, List.getLast?_append_of_ne_nil _ (by simp)]
      rfl
    · rw [if_neg heq, if_neg heq, List.getLast?_append_of_ne_nil _ (by simp)]
      rfl
  have hvalue : (feed read behind (create p) (p :: rest)).receiver.sub
      = takenValue read behind (feed read behind (create p) init).receiver last := by
    rw [hfeed]
    rfl
  unfold takenValue at hvalue
  rw [hstored] at hvalue
  constructor
  · intro h
    obtain ⟨size, bufferSize, hread⟩ := h.decoding
    rw [hlast] at hread
    by_cases heq : last.head.part = last.head.parts
    · rw [if_pos heq] at hread
      obtain ⟨-, -, hbodies⟩ := Access.valueRead.inj (Option.some.inj hread)
      exact ⟨h.order, hbytes ▸ h.bytes, heq, hbodies⟩
    · rw [if_neg heq] at hread
      cases Option.some.inj hread
  · rintro ⟨horder, hsum, heq, hbodies⟩
    rw [if_pos heq, hbodies] at hlast hvalue
    refine ⟨horder, hbytes ▸ hsum, ⟨_, _, hlast⟩, ?_⟩
    rw [hinit]
    exact hvalue

end

/-- The condition on the heads. -/
structure InSequence (first : Packet.Head) (rest : List Packet.Head) : Prop where
  opens : first.part = 1
  /-- The stream is not started over. -/
  later : ∀ h ∈ rest, 1 < h.part
  /-- The last packet knows that it is the last. -/
  last : ∀ h ∈ (first :: rest).getLast?, h.parts = first.parts
  /-- A body of less would leave a gap. -/
  full : ∀ h ∈ (first :: rest).dropLast, h.bodySize = 65536
  /-- The buffer has room for all parts. -/
  room : first.parts.toNat ≤ 65535

/-! ### In sequence -/

/-- Part numbers above one are in order. -/
theorem Walks.order : ∀ {hs : List Packet.Head} {parts part : UInt32}, Walks parts part hs →
    (∀ h ∈ hs, 1 < h.part) →
    hs.map (·.part.toNat) = List.range' (part.toNat + 1) hs.length
      ∧ parts.toNat = part.toNat + hs.length
  | [], _, _, hw, _ => absurd hw id
  | h :: hs, parts, part, hw, hlater => by
      obtain ⟨hpart, hrest⟩ := hw
      have hgt := hlater h (List.mem_cons_self ..)
      have heq : h.part = part + 1 := by
        by_contra hne
        exact hpart ⟨hgt, hne⟩
      have hnat : h.part.toNat = part.toNat + 1 := by
        have hlt := UInt32.lt_iff_toNat_lt.mp hgt
        have hbound := part.toNat_lt
        change 1 < _ at hlt
        rw [heq, UInt32.toNat_add] at hlt ⊢
        change 1 < (_ + 1) % _ at hlt
        show (_ + 1) % _ = _
        omega
      by_cases hdone : h.part = parts
      · rw [if_pos hdone] at hrest
        subst hrest
        rw [← hdone]
        exact ⟨congrArg (fun n => [n]) hnat, hnat⟩
      · rw [if_neg hdone] at hrest
        obtain ⟨hmap, hlen⟩ := Walks.order hrest
          (fun g hg => hlater g (List.mem_cons_of_mem _ hg))
        rw [List.map_cons, hmap, hnat, List.length_cons, List.range'_succ, hlen, hnat]
        exact ⟨rfl, by omega⟩

/-- The count is the sum of the sizes, as long as that is a `uint32_t`. -/
theorem counted_toNat : ∀ (pkts : List Packet) (n : UInt32),
    n.toNat + (pkts.map (·.head.bodySize.toNat)).sum < 2 ^ 32 →
    (counted n pkts).toNat = n.toNat + (pkts.map (·.head.bodySize.toNat)).sum
  | [], n, _ => rfl
  | pkt :: pkts, n, h => by
      rw [List.map_cons, List.sum_cons] at h ⊢
      have hadd : (n + pkt.head.bodySize).toNat = n.toNat + pkt.head.bodySize.toNat := by
        rw [UInt32.toNat_add]
        omega
      have ih := counted_toNat pkts (n + pkt.head.bodySize) (by omega)
      rw [hadd, Nat.add_assoc] at ih
      exact ih

theorem sum_le {pkts : List Packet} (hwire : ∀ pkt ∈ pkts, pkt.FromWire) :
    (pkts.map (·.head.bodySize.toNat)).sum ≤ pkts.length * 65536 := by
  induction pkts with
  | nil => exact Nat.zero_le _
  | cons pkt pkts ih =>
    have hle := (hwire pkt (List.mem_cons_self ..)).le
    have hrest := ih (fun q hq => hwire q (List.mem_cons_of_mem _ hq))
    rw [List.map_cons, List.sum_cons, List.length_cons, Nat.succ_mul]
    omega

theorem bodies_length {pkts : List Packet} (hwire : ∀ pkt ∈ pkts, pkt.FromWire) :
    (bodies pkts).length = (pkts.map (·.head.bodySize.toNat)).sum := by
  induction pkts with
  | nil => rfl
  | cons pkt pkts ih =>
    have hrest := ih (fun q hq => hwire q (List.mem_cons_of_mem _ hq))
    unfold bodies at hrest ⊢
    rw [List.flatMap_cons, List.length_append, hrest,
      (hwire pkt (List.mem_cons_self ..)).bodyBytes_length]
    rfl

/-- The place of a part, if it does not wrap. -/
theorem offset_eq {pkt : Packet} {j : Nat} (hpart : pkt.head.part.toNat = j + 1) :
    offset pkt = j * 65536 % 2 ^ 32 := by
  have hone : (1 : UInt32) ≤ pkt.head.part := by
    rw [UInt32.le_iff_toNat_le, hpart]
    exact Nat.le_add_left 1 j
  unfold offset
  rw [UInt32.toNat_mul, UInt32.toNat_sub_of_le _ _ hone, hpart, MAX_PACKET_BODY_toNat]
  rfl

/-- Full bodies in order fill the buffer from its beginning. -/
theorem blits_bodies {pkts : List Packet} : ∀ {j : Nat} {b : MemoryBuffer},
    (∀ pkt ∈ pkts, pkt.FromWire) →
    pkts.map (·.head.part.toNat) = List.range' (j + 1) pkts.length →
    (∀ pkt ∈ pkts.dropLast, pkt.head.bodySize = 65536) → j + pkts.length ≤ 65535 →
    (j + pkts.length) * 65536 ≤ b.size →
    (blits b pkts).data.take (j * 65536 + (bodies pkts).length)
      = b.data.take (j * 65536) ++ bodies pkts := by
  induction pkts with
  | nil =>
    intro j b _ _ _ _ _
    show b.data.take (j * 65536 + 0) = b.data.take (j * 65536) ++ []
    rw [Nat.add_zero, List.append_nil]
  | cons pkt pkts ih =>
    intro j b hwire horder hfull hj hroom
    rw [List.map_cons, List.length_cons, List.range'_succ] at horder
    obtain ⟨hpart, horder⟩ := List.cons.inj horder
    rw [List.length_cons] at hj hroom
    have hw := hwire pkt (List.mem_cons_self ..)
    have hle := hw.le
    have hlen := hw.bodyBytes_length
    have hoff : offset pkt = j * 65536 := by
      rw [offset_eq hpart]
      omega
    have hput : (b.blit pkt.bodyBytes (offset pkt)).data.take
        (j * 65536 + pkt.bodyBytes.length) = b.data.take (j * 65536) ++ pkt.bodyBytes := by
      rw [hoff]
      refine take_overwrite ?_
      have hsize : b.data.length = b.size := rfl
      omega
    have hcat : bodies (pkt :: pkts) = pkt.bodyBytes ++ bodies pkts := by
      unfold bodies
      rw [List.flatMap_cons]
    rcases List.eq_nil_or_concat' pkts with rfl | ⟨qs, q, rfl⟩
    · have hnil : bodies [] = [] := rfl
      rw [hcat, hnil, List.append_nil]
      exact hput
    · -- a body before the last one is full
      have hdrop : (pkt :: (qs ++ [q])).dropLast = pkt :: qs := by
        rw [← List.cons_append, List.dropLast_concat]
      rw [hdrop] at hfull
      have hpkt : pkt.bodyBytes.length = 65536 := by
        rw [hlen, hfull pkt (List.mem_cons_self ..)]
        rfl
      have hfull' : ∀ x ∈ (qs ++ [q]).dropLast, x.head.bodySize = 65536 := by
        intro x hx
        rw [List.dropLast_concat] at hx
        exact hfull x (List.mem_cons_of_mem _ hx)
      have hroom' : (j + 1 + (qs ++ [q]).length) * 65536
          ≤ (b.blit pkt.bodyBytes (offset pkt)).size := by
        rw [MemoryBuffer.blit_size, Nat.add_right_comm]
        exact hroom
      have hrest := ih (fun x hx => hwire x (List.mem_cons_of_mem _ hx)) horder hfull' (by omega)
        hroom'
      rw [hpkt] at hput
      rw [Nat.succ_mul, hput] at hrest
      rw [hcat, List.length_append, hpkt, ← Nat.add_assoc, ← List.append_assoc]
      exact hrest

/-- The last part number is the total. -/
theorem Walks.last : ∀ {hs : List Packet.Head} {h : Packet.Head} {parts part : UInt32},
    Walks parts part (hs ++ [h]) → h.part = parts
  | [], h, parts, part, hw => by
      by_contra hne
      have hrest := hw.2
      rw [if_neg hne] at hrest
      exact hrest
  | g :: hs, h, parts, part, hw => by
      have hrest := hw.2
      by_cases hdone : g.part = parts
      · rw [if_pos hdone] at hrest
        exact absurd hrest (by simp)
      · rw [if_neg hdone] at hrest
        exact Walks.last hrest

section

variable {p : Packet} {rest : List Packet}

/-- The buffer of a receiver with room for all parts. -/
theorem create_size (hroom : p.head.parts.toNat ≤ 65535) :
    (create p).buffer.size = p.head.parts.toNat * 65536 := by
  show (MemoryBuffer.create (p.head.parts * MAX_PACKET_BODY)).size = _
  rw [MemoryBuffer.create_size, UInt32.toNat_mul, MAX_PACKET_BODY_toNat]
  omega

/-- Packets in sequence are numbered in order. -/
theorem InSequence.order (h : InSequence p.head (rest.map (·.head)))
    (hw : Walks p.head.parts p.head.part ((p :: rest).map (·.head))) :
    (p :: rest).map (·.head.part.toNat) = List.range' 1 (p :: rest).length
      ∧ p.head.parts.toNat = (p :: rest).length := by
  obtain ⟨-, hrest⟩ := hw
  have hone : p.head.part.toNat = 1 := congrArg UInt32.toNat h.opens
  by_cases hdone : p.head.part = p.head.parts
  · rw [if_pos hdone] at hrest
    have hnil : rest = [] := List.map_eq_nil_iff.mp hrest
    rw [hnil, ← hdone]
    exact ⟨congrArg (fun n => [n]) hone, hone⟩
  · rw [if_neg hdone] at hrest
    obtain ⟨hmap, hlen⟩ := Walks.order hrest h.later
    rw [hone, List.map_map, List.length_map] at hmap
    rw [hone, List.length_map] at hlen
    have hmap' : rest.map (·.head.part.toNat) = List.range' 2 rest.length := hmap
    refine ⟨?_, by rw [hlen, List.length_cons, Nat.add_comm]⟩
    rw [List.map_cons, hmap', hone, List.length_cons, List.range'_succ]

/-- Packets in sequence are intact, whatever is in them. -/
theorem InSequence.intact (read : Ubj.Value → Bytes → Bool × Ubj.Value) (behind : Nat → UInt8)
    (h : InSequence p.head (rest.map (·.head))) (hwire : ∀ pkt ∈ p :: rest, pkt.FromWire)
    (hw : Walks p.head.parts p.head.part ((p :: rest).map (·.head)))
    (hpos : 0 < (create p).buffer.size) : Intact read behind p rest := by
  obtain ⟨horder, hparts⟩ := h.order hw
  obtain ⟨init, last, hsplit⟩ : ∃ init last, p :: rest = init ++ [last] :=
    (List.eq_nil_or_concat' (p :: rest)).resolve_left (by simp)
  have hroom := h.room
  have hsum : ((p :: rest).map (·.head.bodySize.toNat)).sum ≤ (p :: rest).length * 65536 :=
    sum_le hwire
  have hcount : (counted 0 (p :: rest)).toNat = ((p :: rest).map (·.head.bodySize.toNat)).sum := by
    rw [counted_toNat _ _ (by show 0 + _ < _; omega)]
    exact Nat.zero_add _
  have hsize := create_size hroom
  have hheads : (p :: rest).map (·.head) = p.head :: rest.map (·.head) := List.map_cons ..
  refine (intact_iff_decoded read behind hsplit hw hpos).mpr ⟨?_, hcount, ?_, ?_⟩
  · rw [hparts]
    exact horder
  · rw [hsplit, List.map_append] at hw hheads
    have hlast := h.last last.head (by rw [← hheads]; simp)
    rw [hlast]
    exact Walks.last hw
  · have hfull : ∀ pkt ∈ (p :: rest).dropLast, pkt.head.bodySize = 65536 := by
      intro pkt hm
      refine h.full pkt.head ?_
      rw [← hheads, ← List.map_dropLast]
      exact List.mem_map_of_mem hm
    have hblits := blits_bodies (j := 0) (b := (create p).buffer) hwire
      (by rw [Nat.zero_add]; exact horder) hfull (by omega) (by rw [hsize, hparts, Nat.zero_add])
    rw [Nat.zero_mul, Nat.zero_add, List.take_zero, List.nil_append, bodies_length hwire] at hblits
    have hle : (counted 0 (p :: rest)).toNat ≤ (blits (create p).buffer (p :: rest)).size := by
      rw [blits_size, hsize, hcount, hparts]
      exact hsum
    unfold decoded bytesAt
    rw [Nat.sub_eq_zero_of_le hle, List.range_zero, List.map_nil, List.append_nil, hcount, hblits]

end

/-! ### Out of sequence

One byte that is not zero shows where a packet is put: it is decoded at the offset of its packet,
and it belongs behind the bodies of the packets before. -/

/-- The packet with another body. -/
def withBody (pkt : Packet) (bs : Bytes) : Packet := { pkt with body := some (.ofData bs) }

/-- The packet with zeros as its body. -/
def zeroed (pkt : Packet) : Packet := withBody pkt (List.replicate pkt.head.bodySize.toNat 0)

/-- The packet with a one and zeros as its body. -/
def marked (pkt : Packet) : Packet :=
  withBody pkt (1 :: List.replicate (pkt.head.bodySize.toNat - 1) 0)

theorem getD_zeros (n y : Nat) : (List.replicate n (0 : UInt8)).getD y 0 = 0 := by
  rw [List.getD_eq_getElem?_getD, List.getElem?_replicate]
  split <;> rfl

theorem withBody_fromWire {pkt : Packet} {bs : Bytes} (hlen : bs.length = pkt.head.bodySize.toNat)
    (hle : pkt.head.bodySize.toNat ≤ 65536) (hne : pkt.head.bodySize ≠ 0) :
    (withBody pkt bs).FromWire ∧ (withBody pkt bs).bodyBytes = bs := by
  have hdata : (MemoryBuffer.ofData bs).data = bs := MemoryBuffer.ofData_data (by omega)
  refine ⟨⟨hle, ?_⟩, ?_⟩
  · show some (MemoryBuffer.ofData bs).data.length = if pkt.head.bodySize = 0 then none else _
    rw [if_neg hne, hdata, hlen]
    rfl
  · show (MemoryBuffer.ofData bs).data.take pkt.head.bodySize.toNat = bs
    rw [hdata, ← hlen, List.take_length]

/-- Zeros everywhere but at one place stay. -/
theorem blits_zero {o : Nat} : ∀ (pkts : List Packet) {b : MemoryBuffer},
    (∀ pkt ∈ pkts, ∀ y, offset pkt + y ≠ o → pkt.bodyBytes.getD y 0 = 0) →
    (∀ x, x ≠ o → b.data.getD x 0 = 0) →
    ∀ x, x ≠ o → (blits b pkts).data.getD x 0 = 0
  | [], _, _, hb => hb
  | pkt :: pkts, b, hpkts, hb => by
      refine blits_zero pkts (fun q hq => hpkts q (List.mem_cons_of_mem _ hq)) ?_
      intro x hx
      refine getD_overwrite (hb x hx) (fun hle => ?_)
      exact hpkts pkt (List.mem_cons_self ..) (x - offset pkt) (by omega)

theorem bytesAt_zero {b : MemoryBuffer} {o size : Nat} (h : ∀ x, x ≠ o → b.data.getD x 0 = 0) :
    ∀ x, x ≠ o → (bytesAt (fun _ => 0) b size).getD x 0 = 0 := by
  intro x hx
  have hx' := h x hx
  rw [List.getD_eq_getElem?_getD] at hx' ⊢
  unfold bytesAt
  by_cases hlt : x < (b.data.take size).length
  · rw [List.getElem?_append_left hlt, List.getElem?_take_of_lt (by
      rw [List.length_take] at hlt
      omega)]
    exact hx'
  · rw [List.getElem?_append_right (by omega), List.getElem?_map]
    cases (List.range (size - b.size))[x - (b.data.take size).length]? with
    | none => rfl
    | some _ => rfl

/-- The mark of a packet is behind the bodies before it. -/
theorem bodies_marked {before after : List Packet} {pkt : Packet}
    (hbefore : ∀ q ∈ before, q.FromWire) (hpkt : pkt.bodyBytes.getD 0 0 = 1) :
    (bodies (before ++ pkt :: after)).getD (before.map (·.head.bodySize.toNat)).sum 0 = 1 := by
  have hlen := bodies_length hbefore
  have hcat : bodies (before ++ pkt :: after)
      = bodies before ++ (pkt.bodyBytes ++ bodies after) := by
    unfold bodies
    rw [List.flatMap_append, List.flatMap_cons]
  rw [List.getD_eq_getElem?_getD] at hpkt ⊢
  rw [hcat, List.getElem?_append_right (by omega), hlen, Nat.sub_self]
  cases hb : pkt.bodyBytes with
  | nil =>
    rw [hb] at hpkt
    exact absurd hpkt (by decide)
  | cons x xs =>
    rw [hb] at hpkt
    exact hpkt

/-- Sizes that add up to the offsets: there are at most 65536, and all but the last are full. -/
theorem full_of_sums {ss : List Nat} (hpos : ∀ s ∈ ss, 1 ≤ s)
    (h : ∀ before s after, ss = before ++ s :: after →
      before.sum = before.length * 65536 % 2 ^ 32) :
    ss.length ≤ 65536 ∧ ∀ s ∈ ss.dropLast, s = 65536 := by
  have hsum_ge : ∀ (l : List Nat), (∀ s ∈ l, 1 ≤ s) → l.length ≤ l.sum := by
    intro l
    induction l with
    | nil => exact fun _ => Nat.le_refl 0
    | cons s l ih =>
      intro hl
      have hs := hl s (List.mem_cons_self ..)
      have hrest := ih (fun x hx => hl x (List.mem_cons_of_mem _ hx))
      rw [List.length_cons, List.sum_cons]
      omega
  have hlen : ss.length ≤ 65536 := by
    by_contra hgt
    -- the offset of part 65537 is zero again
    have hsplit : ss = ss.take 65536 ++ ss[65536] :: ss.drop (65536 + 1) := by
      rw [← List.drop_eq_getElem_cons (by omega), List.take_append_drop]
    have hs := h _ _ _ hsplit
    have hge := hsum_ge (ss.take 65536) (fun s hm => hpos s (List.mem_of_mem_take hm))
    rw [List.length_take, Nat.min_eq_left (by omega)] at hs hge
    omega
  refine ⟨hlen, fun s hs => ?_⟩
  obtain ⟨before, after, hdrop⟩ := List.append_of_mem hs
  obtain ⟨init, t, hss⟩ : ∃ init t, ss = init ++ [t] :=
    (List.eq_nil_or_concat' ss).resolve_left (by
      rintro rfl
      exact absurd hs List.not_mem_nil)
  rw [hss, List.dropLast_concat] at hdrop
  rw [hdrop] at hss
  have hbefore := h before s (after ++ [t]) (by rw [hss]; simp)
  have hnext : (before ++ [s]).sum = (before ++ [s]).length * 65536 % 2 ^ 32 := by
    cases after with
    | nil => exact h _ t [] hss
    | cons a after => exact h _ a (after ++ [t]) (by rw [hss]; simp)
  rw [hss] at hlen
  rw [List.sum_append, List.sum_singleton, List.length_append, List.length_singleton] at hnext
  rw [List.length_append, List.length_append, List.length_cons, List.length_singleton] at hlen
  omega

section

variable {read : Ubj.Value → Bytes → Bool × Ubj.Value} {p : Packet} {rest : List Packet}

/-- A stream that is intact for every content is numbered in order, its last packet says so, and
every packet is put where its body belongs. -/
theorem placed_of_intact (hle : ∀ pkt ∈ p :: rest, pkt.head.bodySize.toNat ≤ 65536)
    (hne : ∀ pkt ∈ p :: rest, pkt.head.bodySize ≠ 0)
    (hw : Walks p.head.parts p.head.part ((p :: rest).map (·.head)))
    (hpos : 0 < (create p).buffer.size)
    (hintact : ∀ (p' : Packet) (rest' : List Packet),
      (p' :: rest').map (·.head) = (p :: rest).map (·.head) →
      (∀ pkt ∈ p' :: rest', pkt.FromWire) → Intact read (fun _ => 0) p' rest')
    {before after : List Packet} {q : Packet} (hsplit : p :: rest = before ++ q :: after) :
    (p :: rest).map (·.head.part.toNat) = List.range' 1 p.head.parts.toNat
      ∧ (∀ h ∈ ((p :: rest).map (·.head)).getLast?, h.part = h.parts)
      ∧ (before.map (·.head.bodySize.toNat)).sum = offset q := by
  -- the same heads over zeros with one mark
  have hzero : ∀ pkt ∈ p :: rest, (zeroed pkt).FromWire ∧ (zeroed pkt).bodyBytes = _ :=
    fun pkt hm => withBody_fromWire List.length_replicate (hle pkt hm) (hne pkt hm)
  have hq : q ∈ p :: rest := by
    rw [hsplit]
    simp
  have hqpos : 0 < q.head.bodySize.toNat := by
    rcases Nat.eq_zero_or_pos q.head.bodySize.toNat with h0 | h0
    · exact absurd (UInt32.toNat_inj.mp h0) (hne q hq)
    · exact h0
  have hmark : (marked q).FromWire ∧ (marked q).bodyBytes = _ :=
    withBody_fromWire (by rw [List.length_cons, List.length_replicate]; omega) (hle q hq) (hne q hq)
  obtain ⟨p', rest', hlist⟩ : ∃ p' rest',
      before.map zeroed ++ marked q :: after.map zeroed = p' :: rest' := by
    cases before with
    | nil => exact ⟨_, _, rfl⟩
    | cons b before => exact ⟨_, _, rfl⟩
  have hheads : (p' :: rest').map (·.head) = (p :: rest).map (·.head) := by
    rw [← hlist, hsplit, List.map_append, List.map_append, List.map_cons, List.map_cons,
      List.map_map, List.map_map]
    rfl
  have hp' : p'.head = p.head := (List.cons.inj hheads).1
  have hwire : ∀ pkt ∈ p' :: rest', pkt.FromWire := by
    intro pkt hm
    rw [← hlist] at hm
    rcases List.mem_append.mp hm with hm | hm
    · obtain ⟨x, hx, rfl⟩ := List.mem_map.mp hm
      exact (hzero x (by rw [hsplit]; exact List.mem_append_left _ hx)).1
    · rcases List.mem_cons.mp hm with rfl | hm
      · exact hmark.1
      · obtain ⟨x, hx, rfl⟩ := List.mem_map.mp hm
        exact (hzero x (by rw [hsplit]; simp [hx])).1
  have hw' : Walks p'.head.parts p'.head.part ((p' :: rest').map (·.head)) := by
    rw [hheads, hp']
    exact hw
  have hpos' : 0 < (create p').buffer.size := by
    show 0 < (MemoryBuffer.create (p'.head.parts * MAX_PACKET_BODY)).size
    rw [hp']
    exact hpos
  obtain ⟨init, last, hlast⟩ : ∃ init last, p' :: rest' = init ++ [last] :=
    (List.eq_nil_or_concat' (p' :: rest')).resolve_left (by simp)
  obtain ⟨horder, -, heq, hdecoded⟩ := (intact_iff_decoded read (fun _ => 0) hlast hw' hpos').mp
    (hintact p' rest' hheads hwire)
  refine ⟨?_, ?_, ?_⟩
  · have hparts := congrArg (List.map (fun h : Packet.Head => h.part.toNat)) hheads
    rw [List.map_map, List.map_map] at hparts
    rw [← hp', ← horder]
    exact hparts.symm
  · intro h hm
    rw [← hheads, hlast, List.map_append, List.map_singleton, List.getLast?_concat] at hm
    obtain rfl := Option.some.inj hm
    exact heq
  · by_contra hmiss
    -- decoded, the mark is elsewhere
    have hbuffer : ∀ x, x ≠ offset q →
        (blits (create p').buffer (p' :: rest')).data.getD x 0 = 0 := by
      refine blits_zero _ ?_ (fun x _ => ?_)
      · intro pkt hm y hy
        rw [← hlist] at hm
        rcases List.mem_append.mp hm with hm | hm
        · obtain ⟨x, hx, rfl⟩ := List.mem_map.mp hm
          rw [(hzero x (by rw [hsplit]; exact List.mem_append_left _ hx)).2]
          exact getD_zeros _ y
        · rcases List.mem_cons.mp hm with rfl | hm
          · rw [hmark.2]
            cases y with
            | zero => exact absurd rfl hy
            | succ y => exact getD_zeros _ y
          · obtain ⟨x, hx, rfl⟩ := List.mem_map.mp hm
            rw [(hzero x (by rw [hsplit]; simp [hx])).2]
            exact getD_zeros _ y
      · exact getD_zeros _ x
    have hsum : ((before.map zeroed).map (·.head.bodySize.toNat)).sum
        = (before.map (·.head.bodySize.toNat)).sum := by
      rw [List.map_map]
      rfl
    have hone := @bodies_marked (before.map zeroed) (after.map zeroed) (marked q)
      (fun x hx => hwire x (by
        rw [← hlist]
        exact List.mem_append_left _ hx)) (by rw [hmark.2]; rfl)
    rw [hlist, ← hdecoded, hsum] at hone
    unfold decoded at hone
    rw [bytesAt_zero hbuffer _ hmiss] at hone
    exact absurd hone (by decide)

/-- **When a completed stream is intact.** A receiver that takes the packets it is fed until the
last one completes it has them intact, for any content of packets with these heads and whatever is
in memory behind its buffer, exactly when the heads are in sequence. -/
theorem intact_iff {behind : Nat → UInt8} (hwire : ∀ pkt ∈ p :: rest, pkt.FromWire)
    (hne : ∀ pkt ∈ p :: rest, pkt.head.bodySize ≠ 0)
    (haccepted : (feed read behind (create p) (p :: rest)).accepted = p :: rest)
    (hdone : (feed read behind (create p) (p :: rest)).receiver.status = .completed) :
    (∀ (behind' : Nat → UInt8) (p' : Packet) (rest' : List Packet),
      (p' :: rest').map (·.head) = (p :: rest).map (·.head) →
      (∀ pkt ∈ p' :: rest', pkt.FromWire) → Intact read behind' p' rest') ↔
    InSequence p.head (rest.map (·.head)) := by
  obtain ⟨hpos, hw⟩ := walks_of_feed read behind (p :: rest) (r := create p)
    (fun h => by cases h) haccepted hdone
  constructor
  · intro hintact
    have hplaced : ∀ {before after : List Packet} {q : Packet}, p :: rest = before ++ q :: after → _ :=
      fun hsplit => placed_of_intact (fun pkt hm => (hwire pkt hm).le) hne hw hpos
        (hintact (fun _ => 0)) hsplit
    obtain ⟨horder, hlast, -⟩ := @hplaced [] rest p rfl
    have hlen : p.head.parts.toNat = (p :: rest).length := by
      have := congrArg List.length horder
      rw [List.length_map, List.length_range'] at this
      exact this.symm
    -- the part number is the position
    have hpart : ∀ {before after : List Packet} {q : Packet}, p :: rest = before ++ q :: after →
        q.head.part.toNat = before.length + 1 := by
      intro before after q hsplit
      have hat : ((p :: rest).map (·.head.part.toNat))[before.length]?
          = (List.range' 1 p.head.parts.toNat)[before.length]? := congrArg (·[before.length]?) horder
      have hlt : before.length < p.head.parts.toNat := by
        rw [hlen, hsplit, List.length_append, List.length_cons]
        omega
      rw [hsplit, List.map_append, List.map_cons, List.getElem?_append_right (by simp),
        List.length_map, Nat.sub_self, List.getElem?_cons_zero, List.getElem?_range' hlt] at hat
      have := Option.some.inj hat
      omega
    have hsums : ∀ (before : List Nat) (s : Nat) (after : List Nat),
        (p :: rest).map (·.head.bodySize.toNat) = before ++ s :: after →
        before.sum = before.length * 65536 % 2 ^ 32 := by
      intro before s after hss
      obtain ⟨l, l', hl, rfl, hl'⟩ := List.map_eq_append_iff.mp hss
      obtain ⟨q, l'', rfl, -, -⟩ := List.map_eq_cons_iff.mp hl'
      rw [(hplaced hl).2.2, offset_eq (hpart hl), List.length_map]
    have hsizes : ∀ s ∈ (p :: rest).map (·.head.bodySize.toNat), 1 ≤ s := by
      intro s hs
      obtain ⟨q, hq, rfl⟩ := List.mem_map.mp hs
      rcases Nat.eq_zero_or_pos q.head.bodySize.toNat with h0 | h0
      · exact absurd (UInt32.toNat_inj.mp h0) (hne q hq)
      · exact h0
    obtain ⟨hcount, hfull⟩ := full_of_sums hsizes hsums
    rw [List.length_map, ← hlen] at hcount
    have hheads : (p :: rest).map (·.head) = p.head :: rest.map (·.head) := List.map_cons ..
    refine ⟨?_, ?_, ?_, ?_, ?_⟩
    · exact UInt32.toNat_inj.mp (@hpart [] rest _ rfl)
    · intro h hm
      obtain ⟨q, hq, rfl⟩ := List.mem_map.mp hm
      obtain ⟨b, a, rfl⟩ := List.append_of_mem hq
      have hq' := @hpart (p :: b) a q rfl
      rw [UInt32.lt_iff_toNat_lt, hq', List.length_cons]
      show 1 < _
      omega
    · intro h hm
      obtain ⟨init, last, hsplit⟩ : ∃ init last, (p :: rest).map (·.head) = init ++ [last] :=
        (List.eq_nil_or_concat' _).resolve_left (by simp)
      have heq := hlast h (by rw [hheads]; exact hm)
      rw [hsplit] at hw
      rw [← hheads, hsplit, List.getLast?_concat] at hm
      obtain rfl := Option.some.inj hm
      exact heq.symm.trans (Walks.last hw)
    · intro h hm
      rw [← hheads, ← List.map_dropLast] at hm
      obtain ⟨q, hq, rfl⟩ := List.mem_map.mp hm
      rw [← List.map_dropLast] at hfull
      exact UInt32.toNat_inj.mp (hfull _ (List.mem_map_of_mem hq))
    · -- a buffer for 65536 parts has a size of zero
      have hne' : p.head.parts.toNat ≠ 65536 := by
        intro h0
        change 0 < (MemoryBuffer.create (p.head.parts * MAX_PACKET_BODY)).size at hpos
        rw [MemoryBuffer.create_size, UInt32.toNat_mul, MAX_PACKET_BODY_toNat, h0] at hpos
        exact absurd hpos (by decide)
      omega
  · intro h behind' p' rest' hheads hwire'
    have hp' : p'.head = p.head := (List.cons.inj hheads).1
    have hrest' : rest'.map (·.head) = rest.map (·.head) := (List.cons.inj hheads).2
    refine InSequence.intact read behind' (by rw [hp', hrest']; exact h) hwire'
      (by rw [hheads, hp']; exact hw) ?_
    show 0 < (MemoryBuffer.create (p'.head.parts * MAX_PACKET_BODY)).size
    rw [hp']
    exact hpos

end

/-- A document in one packet. -/
theorem intact_single :
    Intact (Ubj.Value.read ⟨0, fun _ => 0⟩ 20) (fun _ => 0)
      ⟨⟨0, 7, Packet.Request, 1, 1, 1⟩, some (.ofData [0x5A])⟩ [] := by
  have hwire : ∀ pkt ∈ [(⟨⟨0, 7, Packet.Request, 1, 1, 1⟩, some (.ofData [0x5A])⟩ : Packet)],
      pkt.FromWire := by
    intro pkt hm
    rw [List.mem_singleton.mp hm]
    exact ⟨by decide, rfl⟩
  have hpart : ¬ (create ⟨⟨0, 7, Packet.Request, 1, 1, 1⟩, some (.ofData [0x5A])⟩).OutOfOrder
      ⟨⟨0, 7, Packet.Request, 1, 1, 1⟩, some (.ofData [0x5A])⟩ := by decide
  have hdone := feed_done (Ubj.Value.read ⟨0, fun _ => 0⟩ 20) (fun _ => 0) hpart
    (by rw [create_size (by decide)]; decide) rfl []
  refine (intact_iff hwire ?_ (by rw [hdone]) (by rw [hdone]; rfl)).mpr ?_ (fun _ => 0) _ [] rfl
    hwire
  · intro pkt hm
    rw [List.mem_singleton.mp hm]
    decide
  · refine ⟨rfl, fun h hm => absurd hm List.not_mem_nil, fun h hm => ?_,
      fun h hm => absurd hm List.not_mem_nil, by decide⟩
    obtain rfl := Option.some.inj hm
    rfl

/-- The first of two packets comes twice, and the receiver completes all the same. -/
theorem restarted_not_intact :
    (feed (Ubj.Value.read ⟨0, fun _ => 0⟩ 20) (fun _ => 0)
        (create ⟨⟨0, 7, Packet.Request, 1, 2, 1⟩, some (.ofData [0x5A])⟩)
        [⟨⟨0, 7, Packet.Request, 1, 2, 1⟩, some (.ofData [0x5A])⟩,
          ⟨⟨0, 7, Packet.Request, 1, 2, 1⟩, some (.ofData [0x5A])⟩,
          ⟨⟨0, 7, Packet.Request, 2, 2, 1⟩, some (.ofData [0x5A])⟩]).receiver.status = .completed
      ∧ ¬ Intact (Ubj.Value.read ⟨0, fun _ => 0⟩ 20) (fun _ => 0)
        ⟨⟨0, 7, Packet.Request, 1, 2, 1⟩, some (.ofData [0x5A])⟩
        [⟨⟨0, 7, Packet.Request, 1, 2, 1⟩, some (.ofData [0x5A])⟩,
          ⟨⟨0, 7, Packet.Request, 2, 2, 1⟩, some (.ofData [0x5A])⟩] := by
  have hfeed := feed_walks (Ubj.Value.read ⟨0, fun _ => 0⟩ 20) (fun _ => 0)
    [⟨⟨0, 7, Packet.Request, 1, 2, 1⟩, some (.ofData [0x5A])⟩,
      ⟨⟨0, 7, Packet.Request, 1, 2, 1⟩, some (.ofData [0x5A])⟩]
    ⟨⟨0, 7, Packet.Request, 2, 2, 1⟩, some (.ofData [0x5A])⟩
    (r := create ⟨⟨0, 7, Packet.Request, 1, 2, 1⟩, some (.ofData [0x5A])⟩)
    ⟨by decide, by decide, by decide, rfl⟩ (by rw [create_size (by decide)]; decide)
    (fun h => by cases h)
  obtain ⟨accesses, hfeed, -⟩ := hfeed
  refine ⟨?_, fun h => ?_⟩
  · rw [List.cons_append, List.cons_append, List.nil_append] at hfeed
    rw [hfeed]
    rfl
  · exact absurd h.order (by decide)

end Zway.UbjReceiver
