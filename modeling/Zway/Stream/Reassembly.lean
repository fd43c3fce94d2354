import Zway.Stream.Sender
import Zway.Stream.Receiver

/-!
# Reassembly

One receiver and the packets of one sender, in order. `Holds s j` says what the
receiver has after `j` parts of the stream of `s`; the next part takes it to
`j + 1`, and the last one completes it.
-/

namespace Zway

/-- The receiver of the stream of `s` after `j` parts. -/
structure BufferReceiver.Holds {δ : Type} (r : BufferReceiver δ) (s : BufferSender) (j : Nat) :
    Prop where
  id : r.id = s.id
  parts : r.parts = s.parts
  /-- Before its first packet the receiver already has that packet's part number. -/
  part : 0 < j → r.part.toNat = j
  size : r.buffer.size = s.parts.toNat * 65536
  bytes : r.bytesReceived.toNat = min (j * 65536) s.sub.size
  filled : r.buffer.data.take r.bytesReceived.toNat = s.sub.data.take (j * 65536)

namespace BufferSender

variable {s : BufferSender} {k j : Nat}

theorem packet_part (h : s.At k) (hj : j < s.parts.toNat) :
    (s.packet j).head.part.toNat = j + 1 := by
  have hp := h.parts_le
  show (UInt32.ofNat (j + 1)).toNat = j + 1
  rw [UInt32.toNat_ofNat']
  omega

theorem packet_bodySize (h : s.At k) :
    (s.packet j).head.bodySize.toNat = (block 65536 j s.sub.data).length := by
  have hle := h.le
  have hlen := block_length 65536 j s.sub.data
  show (UInt32.ofNat (block 65536 j s.sub.data).length).toNat = _
  rw [UInt32.toNat_ofNat']
  omega

theorem packet_bodyBytes (h : s.At k) : (s.packet j).bodyBytes = block 65536 j s.sub.data := by
  have hlen := block_length 65536 j s.sub.data
  have hbody : (MemoryBuffer.create MAX_PACKET_BODY).data.length = 65536 :=
    MemoryBuffer.create_size MAX_PACKET_BODY
  have hroom : 0 + (block 65536 j s.sub.data).length
      ≤ (MemoryBuffer.create MAX_PACKET_BODY).data.length := by omega
  have htake := take_overwrite hroom
  rw [Nat.zero_add, List.take_zero, List.nil_append] at htake
  unfold Packet.bodyBytes
  rw [packet_bodySize h]
  exact htake

/-- The copy of a body is the body. -/
theorem packet_copy (s : BufferSender) (j : Nat) :
    { s.packet j with body := (s.packet j).body.bind MemoryBuffer.copy } = s.packet j := by
  have hpos : 0 < ((MemoryBuffer.create MAX_PACKET_BODY).blit (block 65536 j s.sub.data) 0).size := by
    rw [MemoryBuffer.blit_size, MemoryBuffer.create_size]
    decide
  have hcopy : (s.packet j).body.bind MemoryBuffer.copy = (s.packet j).body := by
    rw [packet, Option.bind_some, MemoryBuffer.copy_eq hpos]
  rw [hcopy]

end BufferSender

namespace BufferReceiver

variable {δ : Type} {s : BufferSender} {k j : Nat}

/-- A new receiver holds nothing. -/
theorem init_holds (h : s.At k) (sub : δ) : (init (s.packet 0) sub).Holds s 0 where
  id := rfl
  parts := rfl
  part := fun hj => absurd hj (by omega)
  size := by
    have hp := h.parts_le
    show (MemoryBuffer.create (s.parts * MAX_PACKET_BODY)).size = _
    rw [MemoryBuffer.create_size, UInt32.toNat_mul, MAX_PACKET_BODY_toNat]
    omega
  bytes := by
    rw [Nat.zero_mul, Nat.zero_min]
    rfl
  filled := by
    rw [Nat.zero_mul, List.take_zero]
    exact List.take_zero

/-- The next part is put behind what is there. -/
theorem Holds.write_eq {r : BufferReceiver δ} (h : s.At k) (hr : r.Holds s j)
    (hj : j < s.parts.toNat) :
    r.processPacket (s.packet j) =
      ⟨true,
        { r with
          buffer := r.buffer.blit (block 65536 j s.sub.data) (j * 65536)
          bytesReceived := r.bytesReceived + (s.packet j).head.bodySize },
        [.bodyData true], false⟩ := by
  have hp := h.parts_le
  have hpos : 0 < r.buffer.size := by
    rw [hr.size]
    omega
  have hoff : (((s.packet j).head.part - 1) * MAX_PACKET_BODY).toNat = j * 65536 := by
    have hpart := BufferSender.packet_part h hj
    have hsub : ((s.packet j).head.part - 1).toNat = j := by
      rw [UInt32.toNat_sub_of_le _ _ (by rw [UInt32.le_iff_toNat_le, hpart]; show 1 ≤ j + 1; omega),
        hpart]
      rfl
    rw [UInt32.toNat_mul, hsub, MAX_PACKET_BODY_toNat]
    omega
  unfold processPacket
  rw [BufferSender.packet_bodyBytes h, MemoryBuffer.write_eq hpos, hoff]
  rfl

theorem Holds.step {r : BufferReceiver δ} (h : s.At k) (hr : r.Holds s j)
    (hj : j < s.parts.toNat) {part : UInt32} (hpart : part.toNat = j + 1) (status : ReceiverStatus)
    (sub : δ) :
    ({ r with
        buffer := r.buffer.blit (block 65536 j s.sub.data) (j * 65536)
        bytesReceived := r.bytesReceived + (s.packet j).head.bodySize
        part := part
        status := status
        sub := sub } : BufferReceiver δ).Holds s (j + 1) := by
  have hp := h.parts_le
  have hle := h.le
  have hoff := h.offset_lt hj
  have hblock : (block 65536 j s.sub.data).length = min 65536 (s.sub.size - j * 65536) :=
    block_length ..
  have hold : r.bytesReceived.toNat = j * 65536 := by
    rw [hr.bytes]
    omega
  have hbytes : (r.bytesReceived + (s.packet j).head.bodySize).toNat
      = j * 65536 + (block 65536 j s.sub.data).length := by
    rw [UInt32.toNat_add, hold, BufferSender.packet_bodySize h]
    omega
  refine ⟨hr.id, hr.parts, fun _ => hpart, ?_, ?_, ?_⟩
  · rw [MemoryBuffer.blit_size]
    exact hr.size
  · rw [hbytes, hblock]
    omega
  · have hfilled := hr.filled
    have hroom : j * 65536 + (block 65536 j s.sub.data).length ≤ r.buffer.data.length := by
      have hsize := hr.size
      unfold MemoryBuffer.size at hsize
      rw [hsize, hblock]
      omega
    rw [hold] at hfilled
    rw [hbytes]
    exact take_overwrite_block hroom hfilled

/-- After the last part the receiver holds the whole stream. -/
theorem Holds.complete {r : BufferReceiver δ} (h : s.At k) (hr : r.Holds s s.parts.toNat) :
    r.bytesReceived.toNat = s.sub.size ∧ r.buffer.data.take s.sub.size = s.sub.data := by
  have hle : s.sub.size ≤ s.parts.toNat * 65536 := by
    rw [h.parts]
    exact le_blockCount_mul (by decide) _
  have hbytes : r.bytesReceived.toNat = s.sub.size := by
    rw [hr.bytes]
    omega
  have hfilled := hr.filled
  rw [hbytes, List.take_of_length_le (l := s.sub.data) hle] at hfilled
  exact ⟨hbytes, hfilled⟩

/-- The part check lets the next part through. -/
theorem Holds.inOrder {r : BufferReceiver δ} (h : s.At k) (hr : r.Holds s j)
    (hj : j < s.parts.toNat) :
    ¬ r.OutOfOrder (s.packet j) := by
  have hpart := BufferSender.packet_part h hj
  intro hc
  rcases Nat.eq_zero_or_pos j with h0 | h0
  · have hlt := UInt32.lt_iff_toNat_lt.mp hc.1
    rw [hpart, h0] at hlt
    exact absurd hlt (by decide)
  · apply hc.2
    have hp := h.parts_le
    rw [← UInt32.toNat_inj, UInt32.toNat_add, hpart, hr.part h0]
    show j + 1 = (j + 1) % 2 ^ 32
    omega

end BufferReceiver

namespace UbjReceiver

variable {read : Ubj.Value → Bytes → Bool × Ubj.Value} {behind : Nat → UInt8}
variable {s : BufferSender} {k j : Nat}

/-- The bytes that are decoded are those of the stream. -/
theorem bytesAt_complete {r : UbjReceiver} (h : s.At k) (hr : r.Holds s s.parts.toNat) :
    bytesAt behind r.buffer r.bytesReceived.toNat = s.sub.data := by
  obtain ⟨hbytes, htake⟩ := hr.complete h
  have hle : r.bytesReceived.toNat ≤ r.buffer.size := by
    rw [hr.bytes, hr.size]
    omega
  unfold bytesAt
  rw [Nat.sub_eq_zero_of_le hle, List.range_zero, List.map_nil, List.append_nil, hbytes, htake]

/-- A part in the middle is stored. -/
theorem process_middle {r : UbjReceiver} (h : s.At k) (hr : r.Holds s j)
    (hj : j + 1 < s.parts.toNat) :
    ∃ r' accesses, process read behind r (s.packet j) = ⟨true, r', accesses, false⟩
      ∧ r'.Holds s (j + 1) ∧ r'.status = r.status ∧ r'.sub = r.sub := by
  have hpart := BufferSender.packet_part h (j := j) (by omega)
  have hne : (s.packet j).head.part ≠ s.parts := by
    intro he
    rw [← UInt32.toNat_inj, hpart] at he
    omega
  have hwrite := processPacket_of_ok read behind (hr.write_eq h (by omega))
  rw [if_neg (show ¬ (s.packet j).head.part = (s.packet j).head.parts from hne)] at hwrite
  have hprocess := BufferReceiver.process_of_ok (hr.inOrder h (by omega)) hwrite
  rw [if_neg (show ¬ (s.packet j).head.part = r.parts by rw [hr.parts]; exact hne)] at hprocess
  exact ⟨_, _, hprocess, hr.step h (by omega) hpart r.status r.sub, rfl, rfl⟩

/-- The last part completes the receiver, with the document decoded. -/
theorem process_last {r : UbjReceiver} (h : s.At k) (hr : r.Holds s j)
    (hj : j + 1 = s.parts.toNat) :
    ∃ r' accesses, process read behind r (s.packet j) = ⟨true, r', accesses, true⟩
      ∧ r'.Holds s (j + 1) ∧ r'.status = .completed ∧ r'.sub = (read r.sub s.sub.data).2 := by
  have hpart := BufferSender.packet_part h (j := j) (by omega)
  have heq : (s.packet j).head.part = s.parts := by
    rw [← UInt32.toNat_inj, hpart]
    exact hj
  have hbytes := hr.step h (by omega) hpart r.status r.sub
  rw [hj] at hbytes
  have hdata : bytesAt behind _ _ = s.sub.data := bytesAt_complete h hbytes
  have hwrite := processPacket_of_ok read behind (hr.write_eq h (by omega))
  rw [if_pos (show (s.packet j).head.part = (s.packet j).head.parts from heq)] at hwrite
  have hprocess := BufferReceiver.process_of_ok (hr.inOrder h (by omega)) hwrite
  rw [if_pos (show (s.packet j).head.part = r.parts by rw [hr.parts]; exact heq)] at hprocess
  refine ⟨_, _, hprocess, hr.step h (by omega) hpart .completed _, rfl, ?_⟩
  exact congrArg (fun bytes => (read r.sub bytes).2) hdata

end UbjReceiver

end Zway
