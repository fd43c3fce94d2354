import Zway.Stream.Calls

/-!
# The sizes of a stream

The number of parts, the place and the length of a part, the size of the receive buffer
and the place of a part in it are five expressions over `uint32_t` in two classes.
`Agrees` is what they owe each other. They agree up to `65535` full parts. A longer stream
has `65536` parts, whose common size is the one that a `uint32_t` wraps to zero.
-/

namespace Zway

namespace StreamSender

/-- A subclass that sends every part, and writes down where it is and how long. -/
def measuring : SenderVirtuals (List (UInt32 × UInt32)) where
  preparePacket := fun s pkt bytesToSend bytesSent =>
    (true, some (s.preparePacket pkt), { s with sub := s.sub ++ [(bytesSent, bytesToSend)] })
  processPacket := fun s pkt => (true, pkt, s)

/-- The sender of a stream of `size` bytes. -/
def ofSize (size : UInt32) : StreamSender (List (UInt32 × UInt32)) := (new 0 0 0 []).init size

/-- The offsets and the lengths of the parts of a stream of `size` bytes. -/
def placed (size : UInt32) : List (UInt32 × UInt32) :=
  ((ofSize size).calls measuring (ofSize size).parts.toNat).sub

end StreamSender

open StreamSender (ofSize placed)

/-- The sender and the receiver of a stream of `size` bytes agree. -/
structure Agrees (size : UInt32) : Prop where
  /-- The parts cover the stream, and no part is too much. -/
  covers : size ≤ (ofSize size).parts * MAX_PACKET_BODY
  tight : ((ofSize size).parts - 1) * MAX_PACKET_BODY < size
  /-- One offset and one length for every part. -/
  count : (placed size).length = (ofSize size).parts.toNat
  inside : ∀ p ∈ placed size, p.1.toNat + p.2.toNat ≤ size.toNat
  total : ((placed size).map fun p => p.2.toNat).sum = size.toNat
  /-- The buffer that is allocated for the parts holds the stream. -/
  room : ∀ pkt : Packet, pkt.head.parts = (ofSize size).parts →
    size.toNat ≤ (BufferReceiver.init pkt ()).buffer.size
  /-- A part is stored at its offset, whole, and nothing else in the buffer changes. -/
  stored : ∀ (first pkt : Packet) (r : BufferReceiver Unit) (k : Nat) (p : UInt32 × UInt32),
    first.head.parts = (ofSize size).parts →
    r.buffer.size = (BufferReceiver.init first ()).buffer.size →
    (placed size)[k]? = some p → pkt.FromWire → pkt.head.part.toNat = k + 1 →
    pkt.head.bodySize = p.2 →
    (r.processPacket pkt).ok = true ∧
      (r.processPacket pkt).receiver.buffer.data
        = r.buffer.data.take p.1.toNat ++ pkt.bodyBytes ++ r.buffer.data.drop (p.1.toNat + p.2.toNat)

namespace StreamSender

/-- The first block offsets with what is left of `n` bytes at each of them. -/
def placesUpTo (n k : Nat) : List (Nat × Nat) :=
  (List.range k).map fun j => (j * 65536, min 65536 (n - j * 65536))

theorem placesUpTo_sum (n : Nat) : ∀ k : Nat,
    ((placesUpTo n k).map fun p => p.2).sum = min n (k * 65536) := by
  intro k
  induction k with
  | zero => rw [Nat.zero_mul, Nat.min_zero]; rfl
  | succ k ih =>
    unfold placesUpTo at ih ⊢
    rw [List.range_succ, List.map_append, List.map_append, List.sum_append, ih]
    simp only [List.map_cons, List.map_nil, List.sum_cons, List.sum_nil]
    omega

/-- A sender that has written down the first `k` parts of its stream. -/
structure Measured (size : UInt32) (s : StreamSender (List (UInt32 × UInt32))) (k : Nat) : Prop where
  of : s.size = size
  parts : s.parts = (ofSize size).parts
  part : s.part.toNat = k
  sub : s.sub.map (fun p => (p.1.toNat, p.2.toNat)) = placesUpTo size.toNat k

theorem ofSize_parts {size : UInt32} (h : 0 < size.toNat) :
    (ofSize size).parts.toNat = blockCount 65536 size.toNat := by
  have hne : size ≠ 0 := by
    intro h0
    rw [h0] at h
    exact Nat.lt_irrefl 0 h
  unfold ofSize init
  rw [if_pos hne]
  exact BufferSender.partCount_toNat h

theorem ofSize_measured {size : UInt32} (h : 0 < size.toNat) : Measured size (ofSize size) 0 := by
  have hne : size ≠ 0 := by
    intro h0
    rw [h0] at h
    exact Nat.lt_irrefl 0 h
  unfold ofSize init
  rw [if_pos hne]
  exact ⟨rfl, by unfold ofSize init; rw [if_pos hne], rfl, rfl⟩

/-- One call writes down the next part. -/
theorem Measured.process {size : UInt32} {s : StreamSender (List (UInt32 × UInt32))} {k : Nat}
    (h : Measured size s k) (hpos : 0 < size.toNat) (hle : size.toNat ≤ 65535 * 65536)
    (hk : k < (ofSize size).parts.toNat) : Measured size (s.process measuring).sender (k + 1) := by
  rw [ofSize_parts hpos] at hk
  have hcount := @blockCount_le 65536 size.toNat 65535 (by decide) hle
  have hoff := @mul_lt_of_lt_blockCount 65536 _ _ (by decide) hk
  have hsent := bytesSent_toNat h.part (by omega)
  have hsend := @bytesToSend_toNat size (s.part * MAX_PACKET_BODY) (by omega)
  have hnext : (s.part + 1).toNat = k + 1 := by
    rw [UInt32.toNat_add, h.part]
    show (k + 1) % 2 ^ 32 = k + 1
    omega
  -- the last call only sets the status
  have hprocess : (s.process measuring).sender.size = s.size ∧
      (s.process measuring).sender.parts = s.parts ∧
      (s.process measuring).sender.part = s.part + 1 ∧
      (s.process measuring).sender.sub = s.sub ++ [(s.part * MAX_PACKET_BODY,
        if 0 < s.size ∧ s.size - s.part * MAX_PACKET_BODY < MAX_PACKET_BODY then
          s.size - s.part * MAX_PACKET_BODY else MAX_PACKET_BODY)] := by
    unfold StreamSender.process measuring finish
    dsimp only
    split <;> exact ⟨rfl, rfl, rfl, rfl⟩
  obtain ⟨hsize, hparts, hpart, hsub⟩ := hprocess
  refine ⟨hsize.trans h.of, hparts.trans h.parts, hpart ▸ hnext, ?_⟩
  rw [hsub, h.of, List.map_append, h.sub]
  unfold placesUpTo
  rw [List.range_succ, List.map_append]
  simp only [List.map_cons, List.map_nil, hsend, hsent]

theorem measured {size : UInt32} (hpos : 0 < size.toNat) (hle : size.toNat ≤ 65535 * 65536) :
    ∀ k, k ≤ (ofSize size).parts.toNat → Measured size ((ofSize size).calls measuring k) k := by
  intro k
  induction k with
  | zero => exact fun _ => ofSize_measured hpos
  | succ k ih => exact fun hk => (ih (by omega)).process hpos hle (by omega)

/-- Where the parts of a stream are. -/
theorem placed_eq {size : UInt32} (hpos : 0 < size.toNat) (hle : size.toNat ≤ 65535 * 65536) :
    (placed size).map (fun p => (p.1.toNat, p.2.toNat))
      = placesUpTo size.toNat (blockCount 65536 size.toNat) := by
  rw [← ofSize_parts hpos]
  exact (measured hpos hle _ (Nat.le_refl _)).sub

/-- The `k`-th of them. -/
theorem placed_getElem {size : UInt32} (hpos : 0 < size.toNat) (hle : size.toNat ≤ 65535 * 65536)
    {k : Nat} {p : UInt32 × UInt32} (hp : (placed size)[k]? = some p) :
    k < blockCount 65536 size.toNat ∧ p.1.toNat = k * 65536 ∧
      p.2.toNat = min 65536 (size.toNat - k * 65536) := by
  have hmap := congrArg (fun l => l[k]?) (placed_eq hpos hle)
  simp only [List.getElem?_map, hp, Option.map_some, placesUpTo] at hmap
  rcases Nat.lt_or_ge k (blockCount 65536 size.toNat) with hk | hk
  · rw [List.getElem?_range hk, Option.map_some] at hmap
    obtain ⟨hoff, hlen⟩ := Prod.mk.inj (Option.some.inj hmap)
    exact ⟨hk, hoff, hlen⟩
  · rw [List.getElem?_eq_none (by rw [List.length_range]; exact hk)] at hmap
    exact absurd hmap (by simp)

end StreamSender

namespace BufferReceiver

/-- The buffer for a number of parts that a `uint32_t` can count in bytes. -/
theorem init_size {pkt : Packet} (h : pkt.head.parts.toNat ≤ 65535) :
    (init pkt ()).buffer.size = pkt.head.parts.toNat * 65536 := by
  show (MemoryBuffer.create _).size = _
  rw [MemoryBuffer.create_size]
  exact StreamSender.bytesSent_toNat rfl h

/-- A body that fits is stored whole. -/
theorem processPacket_stored {r : BufferReceiver Unit} {pkt : Packet} {k : Nat}
    (hwire : pkt.FromWire) (hpart : pkt.head.part.toNat = k + 1) (hk : k ≤ 65535)
    (hpos : 0 < r.buffer.size) (hfit : k * 65536 + pkt.head.bodySize.toNat ≤ r.buffer.size) :
    (r.processPacket pkt).ok = true ∧
      (r.processPacket pkt).receiver.buffer.data
        = r.buffer.data.take (k * 65536) ++ pkt.bodyBytes
          ++ r.buffer.data.drop (k * 65536 + pkt.head.bodySize.toNat) := by
  have hlen := hwire.bodyBytes_length
  have hone : (pkt.head.part - 1).toNat = k := by
    rw [UInt32.toNat_sub_of_le _ _ (by
      rw [UInt32.le_iff_toNat_le, hpart]
      show 1 ≤ k + 1
      omega), hpart]
    rfl
  have hoff := StreamSender.bytesSent_toNat hone hk
  have hfit' : k * 65536 + pkt.bodyBytes.length ≤ r.buffer.data.length := by
    rw [hlen]
    exact hfit
  rw [processPacket_eq hpos]
  refine ⟨rfl, ?_⟩
  show overwrite r.buffer.data _ pkt.bodyBytes = _
  rw [hoff, overwrite, List.take_of_length_le (l := pkt.bodyBytes) (by omega), hlen]

end BufferReceiver

/-- Beyond `65535` full parts there are `65536`, and their size wraps. -/
theorem parts_of_gt {size : UInt32} (h : 65535 * 65536 < size.toNat) :
    (ofSize size).parts * MAX_PACKET_BODY = 0 := by
  have hparts : (ofSize size).parts.toNat = blockCount 65536 size.toNat :=
    StreamSender.ofSize_parts (by omega)
  have hge := @le_blockCount_mul 65536 (by decide) size.toNat
  have hle := @blockCount_le 65536 size.toNat 65536 (by decide)
    (Nat.le_of_lt size.toNat_lt)
  rw [← UInt32.toNat_inj, UInt32.toNat_mul, hparts, MAX_PACKET_BODY_toNat]
  have hcount : blockCount 65536 size.toNat = 65536 := by omega
  rw [hcount]
  rfl

/-- **When the two agree.** -/
theorem agrees_iff {size : UInt32} (hpos : 0 < size.toNat) :
    Agrees size ↔ size.toNat ≤ 65535 * 65536 := by
  constructor
  · intro h
    by_contra hgt
    have hcovers := h.covers
    rw [parts_of_gt (by omega), UInt32.le_iff_toNat_le] at hcovers
    change size.toNat ≤ 0 at hcovers
    omega
  intro hle
  have hcount := @blockCount_le 65536 size.toNat 65535 (by decide) hle
  have hcount0 := @blockCount_pos 65536 size.toNat (by decide) hpos
  have hcover := @le_blockCount_mul 65536 (by decide) size.toNat
  have hlast : (blockCount 65536 size.toNat - 1) * 65536 < size.toNat := by
    have htight := @blockCount_mul_lt 65536 (by decide) size.toNat
    rw [Nat.sub_mul, Nat.one_mul]
    exact Nat.sub_lt_right_of_lt_add (Nat.le_mul_of_pos_left _ hcount0) htight
  have hparts := StreamSender.ofSize_parts hpos
  have hplaced := StreamSender.placed_eq hpos hle
  have hsize : ∀ pkt : Packet, pkt.head.parts = (ofSize size).parts →
      (BufferReceiver.init pkt ()).buffer.size = blockCount 65536 size.toNat * 65536 := by
    intro pkt hpkt
    rw [BufferReceiver.init_size (by rw [hpkt, hparts]; exact hcount), hpkt, hparts]
  refine ⟨?_, ?_, ?_, ?_, ?_, ?_, ?_⟩
  · rw [UInt32.le_iff_toNat_le, StreamSender.bytesSent_toNat hparts hcount]
    exact hcover
  · have hone : ((ofSize size).parts - 1).toNat = blockCount 65536 size.toNat - 1 := by
      have hge : (1 : UInt32) ≤ (ofSize size).parts := by
        rw [UInt32.le_iff_toNat_le, hparts]
        exact hcount0
      rw [UInt32.toNat_sub_of_le _ _ hge, hparts]
      rfl
    rw [UInt32.lt_iff_toNat_lt, StreamSender.bytesSent_toNat hone (Nat.le_trans (Nat.sub_le _ _) hcount)]
    exact hlast
  · have hlen := congrArg List.length hplaced
    rw [List.length_map, StreamSender.placesUpTo, List.length_map, List.length_range] at hlen
    rw [hlen, hparts]
  · intro p hp
    obtain ⟨k, hk⟩ := List.mem_iff_getElem?.mp hp
    obtain ⟨hlt, hoff, hlen⟩ := StreamSender.placed_getElem hpos hle hk
    have := @mul_lt_of_lt_blockCount 65536 _ _ (by decide) hlt
    omega
  · have hsum := StreamSender.placesUpTo_sum size.toNat (blockCount 65536 size.toNat)
    rw [← hplaced, List.map_map] at hsum
    exact hsum.trans (Nat.min_eq_left hcover)
  · intro pkt hpkt
    rw [hsize pkt hpkt]
    exact hcover
  · intro first pkt r k p hfirst hr hp hwire hpart hbody
    obtain ⟨hlt, hoff, hlen⟩ := StreamSender.placed_getElem hpos hle hp
    have hroom := hr.trans (hsize first hfirst)
    have hin := @mul_lt_of_lt_blockCount 65536 _ _ (by decide) hlt
    rw [hoff, ← hbody]
    rw [← hbody] at hlen
    exact BufferReceiver.processPacket_stored hwire hpart (by omega) (by omega) (by omega)

/-- One byte more than a full part. -/
theorem agrees_65537 : Agrees 65537 := (agrees_iff (by decide)).mpr (by decide)

/-- One byte more than `65535` full parts: the receive buffer is empty. -/
theorem not_agrees : ¬ Agrees 4294901761 := by
  intro h
  have hroom := h.room ⟨⟨0, 0, 0, 0, (ofSize 4294901761).parts, 0⟩, none⟩ rfl
  have hsize : (BufferReceiver.init (δ := Unit)
      ⟨⟨0, 0, 0, 0, (ofSize 4294901761).parts, 0⟩, none⟩ ()).buffer.size = 0 := by
    show (MemoryBuffer.create _).size = 0
    rw [MemoryBuffer.create_size]
    decide
  rw [hsize] at hroom
  exact absurd hroom (by decide)

end Zway
