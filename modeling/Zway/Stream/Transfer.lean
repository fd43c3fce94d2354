import Zway.Stream.Resource
import Zway.Stream.Reassembly

/-!
# Encrypted transfer

A resource sender emits exactly the packets that a buffer sender of the ciphertext
would: the same heads, and as bodies the blocks of the ciphertext. A resource
receiver turns each of them back into the packet of the plaintext, and then is a
receiver like any other. So both sides are compared with a `BufferSender`, one over
each text, and what is known of those carries over.

The two contexts never exchange anything. They agree because a packet that is not
the last one has a whole number of cipher blocks: `contextAt` is where both stand
after `k` packets.
-/

namespace Zway

section

variable (aes_encrypt : Bytes → Bytes → Bytes) (key ctr : Bytes)

/-- A context after `k` packets. -/
def contextAt (k : Nat) : AES := { key := key, ctr := Ctr.advance ctr (k * (65536 / 16)) }

/-- The ciphertext of a buffer. -/
def ciphertext (data : MemoryBuffer) : MemoryBuffer where
  data := (Ctr.crypt (aes_encrypt key) ctr data.data).2
  size_lt := by rw [Ctr.crypt_length]; exact data.size_lt

@[simp] theorem ciphertext_size (data : MemoryBuffer) :
    (ciphertext aes_encrypt key ctr data).size = data.size := Ctr.crypt_length ..

/-- In the place of the `k`-th packet, a block becomes the block of the ciphertext. -/
theorem contextAt_crypt (data : MemoryBuffer) (k : Nat) :
    ((contextAt key ctr k).ctr_crypt aes_encrypt (block 65536 k data.data)).2
      = block 65536 k (ciphertext aes_encrypt key ctr data).data :=
  Ctr.crypt_block (aes_encrypt key) (by decide) ctr k data.data

/-- And back. -/
theorem contextAt_decrypt (data : MemoryBuffer) (k : Nat) :
    (contextAt key ctr k).ctr_crypt aes_encrypt
        (block 65536 k (ciphertext aes_encrypt key ctr data).data)
      = (((contextAt key ctr k).ctr_crypt aes_encrypt (block 65536 k data.data)).1,
        block 65536 k data.data) := by
  rw [← contextAt_crypt]
  exact AES.ctr_crypt_ctr_crypt aes_encrypt _ _

theorem contextAt_next {data : MemoryBuffer} {k : Nat} (h : (k + 1) * 65536 ≤ data.size) :
    ((contextAt key ctr k).ctr_crypt aes_encrypt (block 65536 k data.data)).1
      = contextAt key ctr (k + 1) := by
  have hlen : (block 65536 k data.data).length = 65536 := by
    rw [block_length]
    unfold MemoryBuffer.size at h
    omega
  unfold AES.ctr_crypt contextAt
  dsimp only
  rw [Ctr.crypt_block_ctr (aes_encrypt key) (by decide) ctr k hlen]

/-- What happens to a body of `bs`, in place. -/
theorem crypt_body {a : AES} (hctr : a.ctr.length = 16) {b : MemoryBuffer} {bs : Bytes}
    {size : UInt32} (hsize : size.toNat = bs.length) (hle : bs.length ≤ b.size) :
    a.encrypt aes_encrypt AES.noCallback (b.blit bs 0).data size ()
        = (true, (a.ctr_crypt aes_encrypt bs).1, (a.ctr_crypt aes_encrypt bs).2, ())
      ∧ (b.blit bs 0).blit (a.ctr_crypt aes_encrypt bs).2 0
        = b.blit (a.ctr_crypt aes_encrypt bs).2 0 := by
  have hroom : 0 + bs.length ≤ b.data.length := by
    rw [Nat.zero_add]
    exact hle
  have hsrc : size.toNat ≤ (b.blit bs 0).data.length := by
    have hlen : (b.blit bs 0).data.length = b.data.length := overwrite_length ..
    omega
  have htake : (b.blit bs 0).data.take size.toNat = bs := by
    have h := take_overwrite hroom
    rw [Nat.zero_add, List.take_zero, List.nil_append] at h
    rw [hsize]
    exact h
  refine ⟨?_, ?_⟩
  · rw [AES.encrypt_noCallback aes_encrypt hsrc hctr, htake]
  · ext1
    exact overwrite_overwrite hroom (Ctr.crypt_length ..).symm

end

/-- The same sender over another text. -/
def BufferSender.withText (s : BufferSender) (buffer : MemoryBuffer) : BufferSender :=
  { s with sub := buffer }

/-- The packets of two texts of one size differ in their bodies. -/
theorem BufferSender.packet_text {s : BufferSender} {buffer : MemoryBuffer}
    (hsize : buffer.size = s.sub.size) (k : Nat) :
    (s.withText buffer).packet k =
      { head := (s.packet k).head
        body := some ((MemoryBuffer.create MAX_PACKET_BODY).blit (block 65536 k buffer.data) 0) } := by
  have hlen : (block 65536 k buffer.data).length = (block 65536 k s.sub.data).length := by
    rw [block_length, block_length]
    exact congrArg (fun n => min 65536 (n - k * 65536)) hsize
  unfold BufferSender.packet BufferSender.withText
  dsimp only
  rw [hlen]

/-- No packet of a stream is empty. -/
theorem BufferSender.packet_bodySize_ne {s : BufferSender} {k j : Nat} (h : s.At k)
    (hj : j < s.parts.toNat) : (s.packet j).head.bodySize ≠ 0 := by
  have hoff := h.offset_lt hj
  have hlen : (block 65536 j s.sub.data).length = min 65536 (s.sub.size - j * 65536) :=
    block_length ..
  intro h0
  have hsize := packet_bodySize h (j := j)
  rw [h0] at hsize
  change 0 = _ at hsize
  omega

/-! ## Sending -/

namespace ResourceSender

variable {aes_encrypt : Bytes → Bytes → Bytes} {key ctr : Bytes} {data : MemoryBuffer}
variable {s : ResourceSender} {k : Nat}

/-- The buffer sender with the counters of `s`. -/
def asBuffer (s : ResourceSender) (buffer : MemoryBuffer) : BufferSender where
  id := s.id
  type := s.type
  status := s.status
  size := s.size
  part := s.part
  parts := s.parts
  sub := buffer

/-- A sender that has sent the first `k` packets of `data`. -/
structure At (key ctr : Bytes) (data : MemoryBuffer) (s : ResourceSender) (k : Nat) : Prop where
  counters : (s.asBuffer data).At k
  data : s.sub.res.data = some data
  /-- After the last packet the context may stand anywhere. -/
  aes : k < s.parts.toNat → s.sub.aes = contextAt key ctr k
  open_ : s.status ≠ .completed

/-- The counters only depend on the size of the buffer. -/
theorem asBuffer_at {buffer : MemoryBuffer} (h : (s.asBuffer data).At k) (hsize : buffer.size = data.size) :
    (s.asBuffer buffer).At k where
  size := h.size.trans hsize.symm
  pos := Nat.lt_of_lt_of_eq h.pos hsize.symm
  le := le_of_eq_of_le hsize h.le
  parts := h.parts.trans (congrArg _ hsize.symm)
  part := h.part

/-- `ResourceSender::preparePacket` makes the packet of the plaintext. -/
theorem At.preparePacket_eq (h : s.At key ctr data k) (hk : k < s.parts.toNat)
    {bytesToSend bytesSent : UInt32} (hto : bytesToSend.toNat = min 65536 (data.size - k * 65536))
    (hsent : bytesSent.toNat = k * 65536) :
    preparePacket s Packet.create bytesToSend bytesSent
      = (true, some ((s.asBuffer data).packet k), s) := by
  have hpos : 0 < data.size := h.counters.pos
  have hoff : k * 65536 < data.size := h.counters.offset_lt hk
  have hparts : s.parts.toNat ≤ 65535 := h.counters.parts_le
  have hlen : (block 65536 k data.data).length = bytesToSend.toNat := by
    rw [hto]
    exact block_length ..
  have hblock : (data.data.drop bytesSent.toNat).take bytesToSend.toNat
      = block 65536 k data.data := by
    rw [hto, hsent, block, MemoryBuffer.size, ← List.length_drop]
    exact List.take_eq_take_min.symm
  have hne : bytesToSend ≠ 0 := by
    intro h0
    rw [h0] at hto
    change 0 = _ at hto
    omega
  have hbody : (MemoryBuffer.create MAX_PACKET_BODY).size = 65536 := MemoryBuffer.create_size _
  have hread : s.sub.res.read (MemoryBuffer.create MAX_PACKET_BODY) bytesToSend bytesSent
      = some ((MemoryBuffer.create MAX_PACKET_BODY).blit (block 65536 k data.data) 0) := by
    unfold Resource.read
    rw [h.data]
    dsimp only
    rw [if_neg (by omega), if_pos hne, MemoryBuffer.read_eq hpos, hblock]
  have hsize : bytesToSend = UInt32.ofNat (block 65536 k data.data).length := by
    rw [hlen, UInt32.ofNat_toNat]
  have hpart : s.part + 1 = UInt32.ofNat (k + 1) := by
    have hnat : s.part.toNat = k := h.counters.part
    rw [← UInt32.toNat_inj, UInt32.toNat_add, hnat, UInt32.toNat_ofNat']
    rfl
  unfold preparePacket
  rw [hread]
  unfold Packet.setBody StreamSender.preparePacket Packet.create BufferSender.packet asBuffer
  dsimp only
  rw [if_pos hne, hpart, ← hsize]

/-- `ResourceSender::processPacket` puts the ciphertext in its place. -/
theorem At.processPacket_eq (h : s.At key ctr data k) (hk : k < s.parts.toNat) :
    processPacket aes_encrypt s ((s.asBuffer data).packet k) =
      (true, (s.asBuffer (ciphertext aes_encrypt key ctr data)).packet k,
        { s with sub := { s.sub with aes :=
            ((contextAt key ctr k).ctr_crypt aes_encrypt (block 65536 k data.data)).1 } }) := by
  have hsize := BufferSender.packet_bodySize h.counters (j := k)
  change _ = (block 65536 k data.data).length at hsize
  have hroom : (block 65536 k data.data).length ≤ (MemoryBuffer.create MAX_PACKET_BODY).size := by
    rw [MemoryBuffer.create_size, block]
    exact List.length_take_le ..
  obtain ⟨hcrypt, hblit⟩ := crypt_body aes_encrypt (a := contextAt key ctr k)
    (Ctr.advance_length ..) hsize hroom
  rw [contextAt_crypt] at hcrypt hblit
  have hpacket := BufferSender.packet_text (s := s.asBuffer data)
    (ciphertext_size aes_encrypt key ctr data) k
  rw [← hblit] at hpacket
  change (s.asBuffer _).packet k = _ at hpacket
  rw [hpacket]
  exact processPacket_body aes_encrypt rfl (BufferSender.packet_bodySize_ne h.counters hk) ((congrArg (fun a => AES.encrypt aes_encrypt
    AES.noCallback a _ _ ()) (h.aes hk)).trans hcrypt)

/-- The sender after one more packet. -/
def sentOne (s : ResourceSender) (a : AES) : ResourceSender :=
  { s with part := s.part + 1, sub := { s.sub with aes := a } }

/-- **One call emits the next packet of the ciphertext.** -/
theorem At.process_eq (h : s.At key ctr data k) (hk : k < s.parts.toNat) :
    ∃ a, (k + 1 < s.parts.toNat → a = contextAt key ctr (k + 1)) ∧
      s.process (virtuals aes_encrypt) =
        if k + 1 = s.parts.toNat then
          ⟨true, some ((s.asBuffer (ciphertext aes_encrypt key ctr data)).packet k),
            { sentOne s a with status := .completed }, true⟩
        else
          ⟨true, some ((s.asBuffer (ciphertext aes_encrypt key ctr data)).packet k), sentOne s a,
            false⟩ := by
  have hparts : s.parts.toNat ≤ 65535 := h.counters.parts_le
  have hcount : s.part.toNat = k := h.counters.part
  refine ⟨((contextAt key ctr k).ctr_crypt aes_encrypt (block 65536 k data.data)).1, ?_, ?_⟩
  · intro hnext
    have hoff : (k + 1) * 65536 < data.size := h.counters.offset_lt hnext
    exact contextAt_next aes_encrypt key ctr (Nat.le_of_lt hoff)
  · have hnext : (s.part + 1).toNat = k + 1 := by
      rw [UInt32.toNat_add, hcount]
      show (k + 1) % 2 ^ 32 = k + 1
      omega
    have hpos : 0 < s.parts := by
      rw [UInt32.lt_iff_toNat_lt]
      show 0 < s.parts.toNat
      omega
    have hdone : (s.part + 1 = s.parts) ↔ k + 1 = s.parts.toNat := by
      rw [← UInt32.toNat_inj, hnext]
    have hprep : (virtuals aes_encrypt).preparePacket s Packet.create
        (if 0 < s.size ∧ s.size - s.part * MAX_PACKET_BODY < MAX_PACKET_BODY then
          s.size - s.part * MAX_PACKET_BODY
        else MAX_PACKET_BODY) (s.part * MAX_PACKET_BODY)
        = (true, some ((s.asBuffer data).packet k), s) :=
      h.preparePacket_eq hk (h.counters.bytesToSend hk) (h.counters.bytesSent hk)
    have hproc : (virtuals aes_encrypt).processPacket s ((s.asBuffer data).packet k) = _ :=
      h.processPacket_eq hk
    unfold StreamSender.process
    dsimp only
    rw [hprep]
    dsimp only
    rw [hproc]
    dsimp only
    unfold StreamSender.finish sentOne
    by_cases hlast : k + 1 = s.parts.toNat
    · rw [if_pos hlast, if_pos ⟨hpos, hdone.mpr hlast⟩]
    · rw [if_neg hlast, if_neg (fun hc => hlast (hdone.mp hc.2))]

theorem At.next (h : s.At key ctr data k) (hk : k + 1 < s.parts.toNat) {a : AES}
    (ha : a = contextAt key ctr (k + 1)) : (sentOne s a).At key ctr data (k + 1) where
  counters :=
    { size := h.counters.size
      pos := h.counters.pos
      le := h.counters.le
      parts := h.counters.parts
      part := by
        have hparts : s.parts.toNat ≤ 65535 := h.counters.parts_le
        have hcount : s.part.toNat = k := h.counters.part
        show (s.part + 1).toNat = k + 1
        rw [UInt32.toNat_add, hcount]
        show (k + 1) % 2 ^ 32 = k + 1
        omega }
  data := h.data
  aes := fun _ => ha
  open_ := h.open_

variable (aes_encrypt) in
/-- **All calls together emit the packets of the ciphertext**, and leave the sender completed. -/
theorem At.sendAll : ∀ (m : Nat) {s : ResourceSender} {k : Nat}, s.At key ctr data k →
    k < s.parts.toNat → s.parts.toNat - k = m →
    ∃ s', s'.status = .completed ∧ ∀ n, m ≤ n → StreamSender.sendAll (virtuals aes_encrypt) n s =
      ((List.range' k m).map (s.asBuffer (ciphertext aes_encrypt key ctr data)).packet, s')
  | 0, s, k, h, hk, hm => absurd hm (by omega)
  | m + 1, s, k, h, hk, hm => by
      obtain ⟨a, ha, hprocess⟩ := h.process_eq hk
      by_cases hlast : k + 1 = s.parts.toNat
      · have hone : m = 0 := by omega
        rw [if_pos hlast] at hprocess
        refine ⟨{ sentOne s a with status := .completed }, rfl, fun n hn => ?_⟩
        obtain ⟨n, rfl⟩ : ∃ n', n = n' + 1 := ⟨n - 1, by omega⟩
        rw [StreamSender.sendAll, hprocess, hone]
        exact if_neg (fun hc => hc.2 rfl)
      · have hnext : k + 1 < s.parts.toNat := by omega
        obtain ⟨s', hstatus, hrest⟩ := At.sendAll m (h.next hnext (ha hnext)) hnext
          (show s.parts.toNat - (k + 1) = m by omega)
        rw [if_neg hlast] at hprocess
        refine ⟨s', hstatus, fun n hn => ?_⟩
        obtain ⟨n, rfl⟩ : ∃ n', n = n' + 1 := ⟨n - 1, by omega⟩
        rw [StreamSender.sendAll, hprocess]
        dsimp only
        rw [if_pos ⟨rfl, h.open_⟩, hrest n (by omega), List.range'_succ, List.map_cons]
        rfl

end ResourceSender

/-! ## Receiving -/

namespace ResourceReceiver

variable {aes_encrypt : Bytes → Bytes → Bytes} {key ctr : Bytes}
variable {s : BufferSender} {k j : Nat}

/-- The receiver after `j` packets: it holds the plaintext, and its context is where that of the
sender was. -/
structure At (key ctr : Bytes) (s : BufferSender) (r : ResourceReceiver) (j : Nat) : Prop where
  holds : r.Holds s j
  aes : j < s.parts.toNat → r.sub = contextAt key ctr j

/-- The next packet is decrypted and put behind what is there. -/
theorem At.processPacket_eq {r : ResourceReceiver} (h : s.At k) (hr : At key ctr s r j)
    (hj : j < s.parts.toNat) :
    processPacket aes_encrypt r ((s.withText (ciphertext aes_encrypt key ctr s.sub)).packet j) =
      ⟨true,
        { r with
          buffer := r.buffer.blit (block 65536 j s.sub.data) (j * 65536)
          bytesReceived := r.bytesReceived + (s.packet j).head.bodySize
          sub := ((contextAt key ctr j).ctr_crypt aes_encrypt (block 65536 j s.sub.data)).1 },
        [.bodyData true], false⟩ := by
  have hpacket := BufferSender.packet_text (ciphertext_size aes_encrypt key ctr s.sub) j
  have hlen : (block 65536 j (ciphertext aes_encrypt key ctr s.sub).data).length
      = (block 65536 j s.sub.data).length := by
    rw [← contextAt_crypt]
    exact Ctr.crypt_length ..
  have hsize : (s.packet j).head.bodySize.toNat
      = (block 65536 j (ciphertext aes_encrypt key ctr s.sub).data).length :=
    (BufferSender.packet_bodySize h).trans hlen.symm
  have hroom : (block 65536 j (ciphertext aes_encrypt key ctr s.sub).data).length
      ≤ (MemoryBuffer.create MAX_PACKET_BODY).size := by
    rw [MemoryBuffer.create_size, block]
    exact List.length_take_le ..
  obtain ⟨hcrypt, hblit⟩ := crypt_body aes_encrypt (a := contextAt key ctr j)
    (Ctr.advance_length ..) hsize hroom
  rw [contextAt_decrypt] at hcrypt hblit
  generalize ((contextAt key ctr j).ctr_crypt aes_encrypt (block 65536 j s.sub.data)).1 = a
    at hcrypt hblit ⊢
  generalize (MemoryBuffer.create MAX_PACKET_BODY).blit
    (block 65536 j (ciphertext aes_encrypt key ctr s.sub).data) 0 = body at hcrypt hblit hpacket
  have hplain : (⟨(s.packet j).head, some (body.blit (block 65536 j s.sub.data) 0)⟩ : Packet)
      = s.packet j := by
    rw [hblit]
    rfl
  have hdecrypt : r.sub.decrypt aes_encrypt AES.noCallback body.data (s.packet j).head.bodySize ()
      = (true, a, block 65536 j s.sub.data, ()) := by
    rw [hr.aes hj]
    exact hcrypt
  have hheld : BufferReceiver.Holds ({ r with sub := a } : ResourceReceiver) s j :=
    ⟨hr.holds.id, hr.holds.parts, hr.holds.part, hr.holds.size, hr.holds.bytes, hr.holds.filled⟩
  have hstore := hheld.write_eq h hj
  have hne : (s.packet j).head.bodySize ≠ 0 := BufferSender.packet_bodySize_ne h hj
  generalize s.packet j = pkt at *
  have hprocess :=
    @processPacket_body aes_encrypt _ ⟨pkt.head, some body⟩ body rfl hne _ _ hdecrypt
  dsimp only at hprocess
  rw [hpacket, hprocess, hplain, hstore]

/-- One packet takes the receiver to the next, and the last one completes it. -/
theorem At.process_eq {r : ResourceReceiver} (h : s.At k) (hr : At key ctr s r j)
    (hj : j < s.parts.toNat) :
    ∃ r' accesses, process aes_encrypt r
        ((s.withText (ciphertext aes_encrypt key ctr s.sub)).packet j)
          = ⟨true, r', accesses, decide (j + 1 = s.parts.toNat)⟩
      ∧ At key ctr s r' (j + 1)
      ∧ r'.status = if j + 1 = s.parts.toNat then .completed else r.status := by
  have hpart : ((s.withText (ciphertext aes_encrypt key ctr s.sub)).packet j).head.part.toNat
      = j + 1 := (BufferSender.packet_part h hj : (s.packet j).head.part.toNat = j + 1)
  have horder : ¬ r.OutOfOrder ((s.withText (ciphertext aes_encrypt key ctr s.sub)).packet j) :=
    (hr.holds.inOrder h hj : ¬ r.OutOfOrder (s.packet j))
  have hprocess := BufferReceiver.process_of_ok horder (hr.processPacket_eq h hj)
  generalize (s.withText (ciphertext aes_encrypt key ctr s.sub)).packet j = pkt at *
  have hlast : pkt.head.part = r.parts ↔ j + 1 = s.parts.toNat := by
    rw [hr.holds.parts, ← UInt32.toNat_inj, hpart]
  have haes : j + 1 < s.parts.toNat →
      ((contextAt key ctr j).ctr_crypt aes_encrypt (block 65536 j s.sub.data)).1
        = contextAt key ctr (j + 1) :=
    fun hnext => contextAt_next aes_encrypt key ctr (Nat.le_of_lt (h.offset_lt hnext))
  by_cases hdone : j + 1 = s.parts.toNat
  · rw [if_pos (hlast.mpr hdone)] at hprocess
    rw [if_pos hdone, decide_eq_true hdone]
    exact ⟨_, _, hprocess, ⟨hr.holds.step h hj hpart .completed _, haes⟩, rfl⟩
  · rw [if_neg (fun he => hdone (hlast.mp he))] at hprocess
    rw [if_neg hdone, decide_eq_false hdone]
    exact ⟨_, _, hprocess, ⟨hr.holds.step h hj hpart r.status _, haes⟩, rfl⟩

variable (aes_encrypt) in
/-- **All packets together complete the receiver**, and it holds the plaintext. -/
theorem At.receiveAll (h : s.At k) : ∀ (n : Nat) {r : ResourceReceiver} {j : Nat},
    At key ctr s r j → j < s.parts.toNat → s.parts.toNat - j = n →
    ∃ r', r'.status = .completed ∧ r'.Holds s s.parts.toNat ∧
      BufferReceiver.receiveAll (process aes_encrypt) r ((List.range' j n).map
        (s.withText (ciphertext aes_encrypt key ctr s.sub)).packet) = (true, r')
  | 0, r, j, hr, hj, hn => absurd hn (by omega)
  | n + 1, r, j, hr, hj, hn => by
      obtain ⟨r', accesses, hprocess, hr', hstatus⟩ := hr.process_eq h hj
      rw [List.range'_succ, List.map_cons, BufferReceiver.receiveAll, hprocess, if_pos rfl]
      by_cases hlast : j + 1 = s.parts.toNat
      · have hnone : n = 0 := by omega
        rw [hnone]
        exact ⟨r', hstatus.trans (if_pos hlast), hlast ▸ hr'.holds, rfl⟩
      · exact At.receiveAll h n hr' (by omega) (by omega)

end ResourceReceiver

/-! ## A transfer -/

/-- The salt of a resource: eight bytes of that of the message, the id, and four zeros. -/
theorem resourceSalt_eq {salt : MemoryBuffer} (hsalt : salt.size = 16) (id : UInt32) :
    ∃ s, resourceSalt (some salt) id = some s
      ∧ s.data = salt.data.take 8 ++ leBytes 4 id.toNat ++ [0, 0, 0, 0] := by
  have hlen : salt.data.length = 16 := hsalt
  have hpos : 0 < salt.size := by omega
  refine ⟨(salt.blit (leBytes 4 id.toNat) 8).blit (leBytes 4 0) 12, ?_, ?_⟩
  · unfold resourceSalt
    dsimp only
    rw [MemoryBuffer.copy_eq hpos]
  · have hfirst := @take_overwrite _ salt.data (leBytes 4 id.toNat) 8
      (by rw [leBytes_length]; omega)
    have hsecond := @take_overwrite _ (overwrite salt.data 8 (leBytes 4 id.toNat)) (leBytes 4 0) 12
      (by rw [leBytes_length, overwrite_length]; omega)
    rw [leBytes_length] at hfirst hsecond
    rw [show 8 + 4 = 12 from rfl] at hfirst
    rw [hfirst] at hsecond
    rw [List.take_of_length_le (by rw [overwrite_length, overwrite_length]; omega)] at hsecond
    exact hsecond

/-- The context that both sides start with. -/
theorem contextAt_zero {key salt : MemoryBuffer} (hkey : key.size = 32) (hsalt : salt.size = 16) :
    (AES.new.setKey (some key)).setCtr (some salt) = contextAt key.data salt.data 0 := by
  have hk : key.data.take AES.AES_KEY_SIZE = key.data :=
    List.take_of_length_le (Nat.le_of_eq hkey)
  have hs : salt.data.take AES.AES_BLOCK_SIZE = salt.data :=
    List.take_of_length_le (Nat.le_of_eq hsalt)
  unfold AES.setCtr AES.setKey contextAt
  dsimp only
  rw [hk, hs, Nat.zero_mul, Ctr.advance_zero hsalt]

/-- The sender of a resource with content. -/
theorem ResourceSender.create_at {key salt data : MemoryBuffer} (id : UInt32)
    (hkey : key.size = 32) (hsalt : salt.size = 16) (hpos : 0 < data.size)
    (hle : data.size ≤ 65535 * 65536) :
    ∃ s, ResourceSender.create (some ⟨id, some data⟩) (some key) (some salt) = some s
      ∧ s.At key.data salt.data data 0 := by
  refine ⟨_, rfl, ?_⟩
  have hcounters := @BufferSender.create_at id Packet.Resource _ hpos hle
  obtain ⟨-, -, hstatus, -⟩ := BufferSender.create_fields id Packet.Resource data
  rw [contextAt_zero hkey hsalt]
  unfold BufferSender.create StreamSender.init Resource.size at *
  dsimp only at *
  by_cases hsize : UInt32.ofNat data.size ≠ 0
  · rw [if_pos hsize] at hcounters ⊢
    exact ⟨hcounters, rfl, fun _ => rfl, fun h => by cases h⟩
  · rw [if_neg hsize] at hcounters ⊢
    exact ⟨hcounters, rfl, fun _ => rfl, fun h => by cases h⟩

/-- **A resource arrives as it is.** Whatever the cipher, the sender emits its packets and is
completed; their bodies make up the content in counter mode; and a receiver with the same key and
salt ends up completed with the content. -/
theorem resource_transfer (aes_encrypt : Bytes → Bytes → Bytes) {key salt data : MemoryBuffer}
    (id : UInt32) (hkey : key.size = 32) (hsalt : salt.size = 16) (hpos : 1 ≤ data.size)
    (hle : data.size ≤ 65535 * 65536) :
    ∃ s s' pkt pkts r r',
      ResourceSender.create (some ⟨id, some data⟩) (some key) (resourceSalt (some salt) id) = some s
      ∧ (∀ n, s.parts.toNat ≤ n →
          StreamSender.sendAll (ResourceSender.virtuals aes_encrypt) n s = (pkt :: pkts, s'))
      ∧ s'.status = .completed
      ∧ (pkt :: pkts).flatMap Packet.bodyBytes =
          (Ctr.crypt (aes_encrypt key.data)
            (salt.data.take 8 ++ leBytes 4 id.toNat ++ [0, 0, 0, 0]) data.data).2
      ∧ ResourceReceiver.create pkt (some key) (resourceSalt (some salt) id) = some r
      ∧ BufferReceiver.receiveAll (ResourceReceiver.process aes_encrypt) r (pkt :: pkts) = (true, r')
      ∧ r'.status = .completed ∧ r'.bytesReceived.toNat = data.size
      ∧ r'.buffer.data.take data.size = data.data := by
  obtain ⟨ctr, hctr, hbytes⟩ := resourceSalt_eq hsalt id
  have hctrsize : ctr.size = 16 := by
    have hlen : salt.data.length = 16 := hsalt
    unfold MemoryBuffer.size
    rw [hbytes, List.length_append, List.length_append, List.length_take, leBytes_length]
    simp [hlen]
  obtain ⟨s, hcreate, hs⟩ := ResourceSender.create_at id hkey hctrsize hpos hle
  have hplain : (s.asBuffer data).At 0 := hs.counters
  have hcipher := ResourceSender.asBuffer_at hplain (ciphertext_size aes_encrypt key.data ctr.data data)
  have hparts : s.parts.toNat = blockCount 65536 data.size := hplain.parts
  have hpartspos : 0 < s.parts.toNat := by
    rw [hparts]
    exact blockCount_pos (by decide) hpos
  obtain ⟨m, hm⟩ : ∃ m, s.parts.toNat = m + 1 := ⟨s.parts.toNat - 1, by omega⟩
  -- the first packet, which the receiver is made from, and the others
  have hpackets : (List.range' 0 s.parts.toNat).map
      (s.asBuffer (ciphertext aes_encrypt key.data ctr.data data)).packet
        = (s.asBuffer (ciphertext aes_encrypt key.data ctr.data data)).packet 0 ::
          (List.range' 1 m).map
            (s.asBuffer (ciphertext aes_encrypt key.data ctr.data data)).packet := by
    rw [hm, List.range'_succ, List.map_cons]
  obtain ⟨s', hs', hsend⟩ :=
    ResourceSender.At.sendAll aes_encrypt s.parts.toNat hs hpartspos (Nat.sub_zero _)
  have hr : ResourceReceiver.At key.data ctr.data (s.asBuffer data)
      (BufferReceiver.init ((s.asBuffer (ciphertext aes_encrypt key.data ctr.data data)).packet 0)
        (contextAt key.data ctr.data 0)) 0 :=
    ⟨(BufferReceiver.init_holds hplain _ : BufferReceiver.Holds
      (BufferReceiver.init ((s.asBuffer data).packet 0) _) _ 0), fun _ => rfl⟩
  obtain ⟨r', hr', hholds, hreceive⟩ :=
    ResourceReceiver.At.receiveAll aes_encrypt hplain s.parts.toNat hr hpartspos (Nat.sub_zero _)
  obtain ⟨hcount, htake⟩ := hholds.complete hplain
  have hbodies : ((List.range' 0 s.parts.toNat).map
      (s.asBuffer (ciphertext aes_encrypt key.data ctr.data data)).packet).flatMap Packet.bodyBytes
        = (Ctr.crypt (aes_encrypt key.data) ctr.data data.data).2 := by
    rw [List.flatMap_map, ← List.range_eq_range']
    rw [show (fun j => ((s.asBuffer (ciphertext aes_encrypt key.data ctr.data data)).packet j).bodyBytes)
      = _ from funext fun j => BufferSender.packet_bodyBytes hcipher]
    refine (flatMap_block ..).trans (List.take_of_length_le ?_)
    have hle := le_blockCount_mul (c := 65536) (by decide) data.size
    rw [← hparts, ← ciphertext_size aes_encrypt key.data ctr.data data] at hle
    exact hle
  rw [hctr, ← hbytes]
  change BufferReceiver.receiveAll _ _ ((List.range' 0 s.parts.toNat).map
    (s.asBuffer (ciphertext aes_encrypt key.data ctr.data data)).packet) = _ at hreceive
  rw [hpackets] at hsend hreceive hbodies
  refine ⟨s, s', _, _, _, r', hcreate, hsend, hs', hbodies, ?_, hreceive, hr', hcount, htake⟩
  unfold ResourceReceiver.create
  dsimp only
  rw [contextAt_zero hkey hctrsize]

/-- Three bytes, with key and salt zero. The cipher has the value of AES on the only counter of this
transfer. -/
theorem resource_transfer_bytes :
    ∃ pkt pkts r r',
      (pkt :: pkts).flatMap Packet.bodyBytes = [0x8A, 0x8B, 0x31]
      ∧ ResourceReceiver.create pkt (some (.create 32)) (resourceSalt (some (.create 16)) 7) = some r
      ∧ BufferReceiver.receiveAll (ResourceReceiver.process (fun _ _ =>
          [0x8B, 0x89, 0x32, 0xD6, 0xAF, 0xA7, 0xAC, 0x45,
            0x4F, 0x23, 0x38, 0x83, 0xC8, 0x6E, 0xB4, 0x79])) r (pkt :: pkts) = (true, r')
      ∧ r'.status = .completed ∧ r'.buffer.data.take 3 = [1, 2, 3] := by
  obtain ⟨_, _, pkt, pkts, r, r', _, _, _, hbodies, hcreate, hreceive, hstatus, _, htake⟩ :=
    @resource_transfer (fun _ _ =>
        [0x8B, 0x89, 0x32, 0xD6, 0xAF, 0xA7, 0xAC, 0x45,
          0x4F, 0x23, 0x38, 0x83, 0xC8, 0x6E, 0xB4, 0x79])
      (.create 32) (.create 16) (.ofData [1, 2, 3]) 7
      (by decide) (by decide) (by decide) (by decide)
  exact ⟨pkt, pkts, r, r', hbodies.trans (by decide), hcreate, hreceive, hstatus, htake⟩

end Zway
