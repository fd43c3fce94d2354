import Zway.Client.Outgoing
import Zway.Stream.Refusal

/-!
# The senders of an engine

An engine keeps its senders in one list, those of buffers and those of resources side by
side. Every sender that `BufferSender::create` or `ResourceSender::create` makes has a packet
for each of its parts, so that what is known about refused packets holds for any mix of them.
-/

namespace Zway

/-! ## One call of a subclass -/

/-- A call of `preparePacket` fails and leaves the sender alone, or makes a packet of its own
header. -/
structure Prepared {δ : Type} (s : StreamSender δ) (p : Bool × Option Packet × StreamSender δ) :
    Prop where
  sender : p.2.2 = s
  head : ∀ pkt, p.2.1 = some pkt → pkt.head.streamId = s.id ∧ pkt.head.part = s.part + 1

theorem BufferSender.prepared (s : BufferSender) (bytesToSend bytesSent : UInt32) :
    Prepared s (BufferSender.preparePacket s Packet.create bytesToSend bytesSent) := by
  unfold BufferSender.preparePacket
  cases s.sub.read bytesToSend bytesSent with
  | none =>
    refine ⟨rfl, ?_⟩
    rintro pkt ⟨⟩
    exact ⟨rfl, rfl⟩
  | some bytes =>
    dsimp only
    cases (MemoryBuffer.create MAX_PACKET_BODY).write bytes 0 with
    | none =>
      refine ⟨rfl, ?_⟩
      rintro pkt ⟨⟩
      exact ⟨rfl, rfl⟩
    | some body =>
      dsimp only
      split
      · refine ⟨rfl, ?_⟩
        rintro pkt ⟨⟩
        exact ⟨rfl, rfl⟩
      · refine ⟨rfl, ?_⟩
        rintro pkt ⟨⟩

theorem ResourceSender.prepared (s : ResourceSender) (bytesToSend bytesSent : UInt32) :
    Prepared s (ResourceSender.preparePacket s Packet.create bytesToSend bytesSent) := by
  unfold ResourceSender.preparePacket
  cases s.sub.res.read (MemoryBuffer.create MAX_PACKET_BODY) bytesToSend bytesSent with
  | none =>
    refine ⟨rfl, ?_⟩
    rintro pkt ⟨⟩
    exact ⟨rfl, rfl⟩
  | some body =>
    refine ⟨rfl, ?_⟩
    rintro pkt ⟨⟩
    exact ⟨rfl, rfl⟩

theorem body_size_pos : 0 < (MemoryBuffer.create MAX_PACKET_BODY).size := by
  rw [MemoryBuffer.create_size, MAX_PACKET_BODY_toNat]
  omega

/-- Inside its buffer a sender finds a block. -/
theorem BufferSender.prepare_some (s : BufferSender) {bytesToSend bytesSent : UInt32}
    (hoffset : bytesSent.toNat < s.sub.size) (hpos : 0 < bytesToSend.toNat) :
    ∃ pkt, BufferSender.preparePacket s Packet.create bytesToSend bytesSent = (true, some pkt, s) := by
  have hbytes : ((s.sub.data.drop bytesSent.toNat).take bytesToSend.toNat).length ≠ 0 := by
    rw [List.length_take, List.length_drop]
    change _ < s.sub.data.length at hoffset
    omega
  unfold BufferSender.preparePacket
  rw [MemoryBuffer.read_eq (Nat.zero_lt_of_lt hoffset)]
  dsimp only
  rw [MemoryBuffer.write_eq body_size_pos]
  dsimp only
  rw [if_pos hbytes]
  exact ⟨_, rfl⟩

/-- Behind its buffer it finds none, -/
theorem BufferSender.prepare_done {s : BufferSender} (hpos : 0 < s.sub.size)
    (bytesToSend : UInt32) {bytesSent : UInt32} (hoffset : s.sub.size ≤ bytesSent.toNat) :
    BufferSender.preparePacket s Packet.create bytesToSend bytesSent = (true, none, s) := by
  unfold BufferSender.preparePacket
  rw [MemoryBuffer.read_eq hpos, List.drop_eq_nil_of_le hoffset, List.take_nil]
  dsimp only
  rw [MemoryBuffer.write_eq body_size_pos]
  dsimp only
  rw [if_neg (fun h => h rfl)]

/-- and only looks whether it is done. -/
theorem BufferSender.process_done {s : BufferSender} (hpos : 0 < s.sub.size)
    (hoffset : s.sub.size ≤ (s.part * MAX_PACKET_BODY).toNat) :
    s.process BufferSender.virtuals = s.finish none := by
  have hprepare : ∀ n, BufferSender.virtuals.preparePacket s Packet.create n
      (s.part * MAX_PACKET_BODY) = (true, none, s) :=
    fun n => BufferSender.prepare_done hpos n hoffset
  unfold StreamSender.process
  dsimp only
  rw [hprepare]

theorem BufferSender.prepare_none (s : BufferSender) (bytesToSend bytesSent : UInt32)
    (hsize : s.sub.size = 0) :
    (BufferSender.preparePacket s Packet.create bytesToSend bytesSent).1 = false := by
  have hempty : s.sub.empty = true := List.isEmpty_iff.mpr (List.length_eq_zero_iff.mp hsize)
  unfold BufferSender.preparePacket MemoryBuffer.read
  rw [if_pos hempty]

/-- What is read of a resource: a block, which need not be as long as it was asked for. -/
theorem Resource.read_some {res : Resource} {data : MemoryBuffer} (hdata : res.data = some data)
    (hpos : 0 < data.size) {buf : MemoryBuffer} {size : UInt32} (hroom : size.toNat ≤ buf.size)
    (offset : UInt32) : ∃ body, res.read buf size offset = some body := by
  unfold Resource.read
  rw [hdata]
  dsimp only
  rw [if_neg (Nat.not_lt_of_le hroom), MemoryBuffer.read_eq hpos]
  exact ⟨_, rfl⟩

theorem Resource.read_none {res : Resource} (hsize : (res.data.map MemoryBuffer.size).getD 0 = 0)
    (buf : MemoryBuffer) (size offset : UInt32) : res.read buf size offset = none := by
  unfold Resource.read
  cases hdata : res.data with
  | none => rfl
  | some data =>
    rw [hdata] at hsize
    have hempty : data.empty = true := List.isEmpty_iff.mpr (List.length_eq_zero_iff.mp hsize)
    have hread : ∀ size, data.read size offset = none := fun size => by
      unfold MemoryBuffer.read
      rw [if_pos hempty]
    dsimp only
    rw [hread]
    dsimp only
    rw [ite_self]

theorem ResourceSender.prepare_some (s : ResourceSender) {data : MemoryBuffer}
    (hdata : s.sub.res.data = some data) {bytesToSend bytesSent : UInt32}
    (hoffset : bytesSent.toNat < data.size) (hle : bytesToSend.toNat ≤ 65536) :
    ∃ pkt, ResourceSender.preparePacket s Packet.create bytesToSend bytesSent
      = (true, some pkt, s) := by
  have hroom : bytesToSend.toNat ≤ (MemoryBuffer.create MAX_PACKET_BODY).size := by
    rw [MemoryBuffer.create_size, MAX_PACKET_BODY_toNat]
    exact hle
  obtain ⟨body, hread⟩ :=
    Resource.read_some hdata (Nat.zero_lt_of_lt hoffset) hroom bytesSent
  unfold ResourceSender.preparePacket
  rw [hread]
  exact ⟨_, rfl⟩

theorem ResourceSender.prepare_none (s : ResourceSender) (bytesToSend bytesSent : UInt32)
    (hsize : (s.sub.res.data.map MemoryBuffer.size).getD 0 = 0) :
    (ResourceSender.preparePacket s Packet.create bytesToSend bytesSent).1 = false := by
  unfold ResourceSender.preparePacket
  rw [Resource.read_none hsize]

section

variable (aes_encrypt : Bytes → Bytes → Bytes)

/-- Without a callback the encryption does not fail. -/
theorem encrypt_ok (a : AES) (src : Bytes) (size bytesDone : UInt32) :
    (AES.cryptLoop aes_encrypt AES.noCallback src size a bytesDone ()).1 = true := by
  fun_induction AES.cryptLoop aes_encrypt AES.noCallback src size a bytesDone () with
  | case1 a bytesDone st h bytesToDo c st' hcallback => cases hcallback
  | case2 a bytesDone st h bytesToDo c st' hcallback rest ih => exact ih
  | case3 a bytesDone st h => rfl

theorem ResourceSender.processed (s : ResourceSender) (pkt : Packet) :
    (ResourceSender.processPacket aes_encrypt s pkt).1 = true ∧
      (ResourceSender.processPacket aes_encrypt s pkt).2.1.head = pkt.head ∧
      ∃ aes, (ResourceSender.processPacket aes_encrypt s pkt).2.2
        = { s with sub := { s.sub with aes := aes } } := by
  unfold ResourceSender.processPacket
  cases pkt.body with
  | none => exact ⟨rfl, rfl, s.sub.aes, rfl⟩
  | some body =>
    dsimp only
    split
    · exact ⟨encrypt_ok aes_encrypt _ _ _ _, rfl, _, rfl⟩
    · exact ⟨rfl, rfl, s.sub.aes, rfl⟩

end

/-! ## Senders as they are created -/

namespace Client

open ClientStream (virtuals)

/-- A sender of either class. -/
abbrev ClientSender := StreamSender ClientStream

namespace ClientSender

variable (aes_encrypt : Bytes → Bytes → Bytes)

/-- What `BufferSender::create` and `ResourceSender::create` make. -/
inductive Created : ClientSender → Prop where
  | buffer (id type : UInt32) (buffer : MemoryBuffer) :
      Created ((BufferSender.create id type buffer).withSub (.request buffer))
  | resource (res : Option Resource) (key salt : Option MemoryBuffer) (s : ResourceSender) :
      ResourceSender.create res key salt = some s → Created (s.withSub (.resource s.sub))

/-- What is to be sent. -/
def content : ClientStream → Option MemoryBuffer
  | .request buffer => some buffer
  | .resource stream => stream.res.data

/-- The counters fit the content. -/
structure Sized (s : ClientSender) : Prop where
  size : s.size.toNat = ((content s.sub).map MemoryBuffer.size).getD 0
  parts : s.parts.toNat = blockCount 65536 s.size.toNat

theorem sized_init {δ : Type} (id type size : UInt32) (sub : δ) :
    ((StreamSender.new id type 0 sub).init size).size = size ∧
      ((StreamSender.new id type 0 sub).init size).parts.toNat = blockCount 65536 size.toNat ∧
      ((StreamSender.new id type 0 sub).init size).part = 0 ∧
      ((StreamSender.new id type 0 sub).init size).status = .idle ∧
      ((StreamSender.new id type 0 sub).init size).sub = sub := by
  unfold StreamSender.init
  by_cases hzero : size = 0
  · subst hzero
    exact ⟨rfl, rfl, rfl, rfl, rfl⟩
  · have hpos : 0 < size.toNat := by
      refine Nat.pos_of_ne_zero ?_
      intro hnat
      exact hzero (UInt32.toNat_inj.mp hnat)
    rw [if_pos hzero]
    exact ⟨rfl, BufferSender.partCount_toNat hpos, rfl, rfl, rfl⟩

theorem ofNat_size (b : MemoryBuffer) : (UInt32.ofNat b.size).toNat = b.size := by
  rw [UInt32.toNat_ofNat']
  exact Nat.mod_eq_of_lt b.size_lt

theorem Created.sized {s : ClientSender} (h : Created s) : Fresh s ∧ Sized s := by
  cases h with
  | buffer id type buffer =>
    obtain ⟨hsize, hparts, hpart, hstatus, -⟩ :=
      sized_init id type (UInt32.ofNat buffer.size) buffer
    refine ⟨⟨hpart, hstatus⟩, ?_, ?_⟩
    · show ((StreamSender.new id type 0 buffer).init _).size.toNat = buffer.size
      rw [hsize, ofNat_size]
    · show ((StreamSender.new id type 0 buffer).init _).parts.toNat
        = blockCount 65536 ((StreamSender.new id type 0 buffer).init _).size.toNat
      rw [hparts, hsize]
  | resource res key salt s hs =>
    unfold ResourceSender.create at hs
    cases res with
    | none => cases hs
    | some res =>
      cases key with
      | none => cases hs
      | some key =>
        cases salt with
        | none => cases hs
        | some salt =>
          obtain rfl := Option.some.inj hs
          generalize (AES.new.setKey (some key)).setCtr (some salt) = aes
          obtain ⟨hsize, hparts, hpart, hstatus, hsub⟩ :=
            sized_init 0 Packet.Resource res.size (ResourceStream.mk res aes)
          have hres : res.size.toNat = (res.data.map MemoryBuffer.size).getD 0 := by
            unfold Resource.size
            cases res.data with
            | none => rfl
            | some data => exact ofNat_size data
          generalize (StreamSender.new 0 Packet.Resource 0 (ResourceStream.mk res aes)).init res.size
            = t at hsize hparts hpart hstatus hsub ⊢
          refine ⟨⟨hpart, hstatus⟩, ?_, ?_⟩
          · show t.size.toNat = (t.sub.res.data.map _).getD 0
            rw [hsize, hsub, hres]
          · show t.parts.toNat = blockCount 65536 t.size.toNat
            rw [hparts, hsize]

/-! ### One call -/

/-- As long as there are parts left, the next block begins inside the content and is not empty. -/
theorem Sized.block {s : ClientSender} (h : Sized s) (hpart : s.part.toNat < s.parts.toNat) :
    (s.part * MAX_PACKET_BODY).toNat < s.size.toNat ∧ 0 < (StreamSender.bytesToSend s.size s.part).toNat ∧
      (StreamSender.bytesToSend s.size s.part).toNat ≤ 65536 := by
  rw [h.parts] at hpart
  have hlt := mul_lt_of_lt_blockCount (by omega) hpart
  have hsize := s.size.toNat_lt
  have hoffset : (s.part * MAX_PACKET_BODY).toNat = s.part.toNat * 65536 := by
    rw [UInt32.toNat_mul, MAX_PACKET_BODY_toNat]
    omega
  have hsub : (s.size - s.part * MAX_PACKET_BODY).toNat
      = s.size.toNat - s.part.toNat * 65536 := by
    rw [UInt32.toNat_sub_of_le _ _ (by rw [UInt32.le_iff_toNat_le, hoffset]; omega), hoffset]
  refine ⟨by omega, ?_⟩
  unfold StreamSender.bytesToSend
  split
  · rename_i hlast
    have hlast' := UInt32.lt_iff_toNat_lt.mp hlast.2
    rw [MAX_PACKET_BODY_toNat] at hlast'
    omega
  · rw [MAX_PACKET_BODY_toNat]
    omega

theorem prepared_head (s : ClientSender) (bytesToSend bytesSent : UInt32) :
    Prepared s ((virtuals aes_encrypt).preparePacket s Packet.create bytesToSend bytesSent) := by
  obtain ⟨id, type, status, size, part, parts, sub⟩ := s
  cases sub with
  | request buffer =>
    obtain ⟨hsender, hhead⟩ := BufferSender.prepared ⟨id, type, status, size, part, parts, buffer⟩
      bytesToSend bytesSent
    exact ⟨congrArg (fun s : BufferSender => s.withSub (ClientStream.request s.sub)) hsender, hhead⟩
  | resource stream =>
    obtain ⟨hsender, hhead⟩ := ResourceSender.prepared
      ⟨id, type, status, size, part, parts, stream⟩ bytesToSend bytesSent
    exact ⟨congrArg (fun s : ResourceSender => s.withSub (ClientStream.resource s.sub)) hsender,
      hhead⟩

/-- A call of `preparePacket` makes a packet as long as there are parts left. -/
theorem Sized.prepared {s : ClientSender} (h : Sized s) (hpart : s.part.toNat < s.parts.toNat) :
    ∃ pkt, (virtuals aes_encrypt).preparePacket s Packet.create (StreamSender.bytesToSend s.size s.part)
      (s.part * MAX_PACKET_BODY) = (true, some pkt, s) := by
  obtain ⟨hoffset, hpos, hle⟩ := h.block hpart
  rw [h.size] at hoffset
  generalize StreamSender.bytesToSend s.size s.part = n at hpos hle ⊢
  generalize s.part * MAX_PACKET_BODY = offset at hoffset ⊢
  obtain ⟨id, type, status, size, part, parts, sub⟩ := s
  cases sub with
  | request buffer =>
    obtain ⟨pkt, hprepare⟩ := BufferSender.prepare_some
      ⟨id, type, status, size, part, parts, buffer⟩ hoffset hpos
    exact ⟨pkt, congrArg (fun p : Bool × Option Packet × BufferSender =>
      (p.1, p.2.1, p.2.2.withSub (ClientStream.request p.2.2.sub))) hprepare⟩
  | resource stream =>
    cases hdata : stream.res.data with
    | none =>
      replace hoffset : offset.toNat < (stream.res.data.map MemoryBuffer.size).getD 0 := hoffset
      rw [hdata] at hoffset
      exact absurd hoffset (Nat.not_lt_zero _)
    | some data =>
      replace hoffset : offset.toNat < (stream.res.data.map MemoryBuffer.size).getD 0 := hoffset
      rw [hdata] at hoffset
      obtain ⟨pkt, hprepare⟩ := ResourceSender.prepare_some
        ⟨id, type, status, size, part, parts, stream⟩ hdata hoffset hle
      exact ⟨pkt, congrArg (fun p : Bool × Option Packet × ResourceSender =>
        (p.1, p.2.1, p.2.2.withSub (ClientStream.resource p.2.2.sub))) hprepare⟩

/-- It fails if there is nothing to send. -/
theorem Sized.prepared_empty {s : ClientSender} (h : Sized s) (hparts : s.parts = 0)
    (bytesToSend bytesSent : UInt32) :
    ((virtuals aes_encrypt).preparePacket s Packet.create bytesToSend bytesSent).1 = false := by
  have hzero : s.size.toNat = 0 := by
    by_contra hne
    have hpos := blockCount_pos (c := 65536) (by omega) (Nat.pos_of_ne_zero hne)
    rw [← h.parts, hparts] at hpos
    exact absurd hpos (Nat.lt_irrefl 0)
  rw [h.size] at hzero
  obtain ⟨id, type, status, size, part, parts, sub⟩ := s
  cases sub with
  | request buffer =>
    exact BufferSender.prepare_none ⟨id, type, status, size, part, parts, buffer⟩ _ _ hzero
  | resource stream =>
    exact ResourceSender.prepare_none ⟨id, type, status, size, part, parts, stream⟩ _ _ hzero

/-- `processPacket` does not fail, and changes nothing but the cipher state. -/
structure Processes (s : ClientSender) (pkt : Packet) (p : Bool × Packet × ClientSender) : Prop where
  ok : p.1 = true
  head : p.2.1.head = pkt.head
  same : s.Same p.2.2
  size : p.2.2.size = s.size
  content : content p.2.2.sub = content s.sub

theorem processed (s : ClientSender) (pkt : Packet) :
    Processes s pkt ((virtuals aes_encrypt).processPacket s pkt) := by
  obtain ⟨id, type, status, size, part, parts, sub⟩ := s
  cases sub with
  | request buffer => exact ⟨rfl, rfl, ⟨rfl, rfl, rfl, rfl⟩, rfl, rfl⟩
  | resource stream =>
    obtain ⟨hok, hhead, aes, hs⟩ := ResourceSender.processed aes_encrypt
      ⟨id, type, status, size, part, parts, stream⟩ pkt
    have hsame : (virtuals aes_encrypt).processPacket
          ⟨id, type, status, size, part, parts, .resource stream⟩ pkt
        = ((ResourceSender.processPacket aes_encrypt
            ⟨id, type, status, size, part, parts, stream⟩ pkt).1,
          (ResourceSender.processPacket aes_encrypt
            ⟨id, type, status, size, part, parts, stream⟩ pkt).2.1,
          ⟨id, type, status, size, part, parts, .resource { stream with aes := aes }⟩) :=
      congrArg (fun s : ResourceSender => (_, _, s.withSub (ClientStream.resource s.sub))) hs
    rw [hsame]
    exact ⟨hok, hhead, ⟨rfl, rfl, rfl, rfl⟩, rfl, rfl⟩

theorem counting : Counting (virtuals aes_encrypt) where
  prepared := by
    intro s size offset
    rw [(prepared_head aes_encrypt s size offset).sender]
    exact ⟨rfl, rfl, rfl, rfl⟩
  numbered := fun s size offset pkt hpkt => (prepared_head aes_encrypt s size offset).head pkt hpkt
  processed := fun s pkt => (processed aes_encrypt s pkt).same
  kept := fun s pkt => (processed aes_encrypt s pkt).head

/-- **What one call does** to a sender whose counters fit its content. -/
theorem Sized.process {s : ClientSender} (h : Sized s) :
    Sized (s.process (virtuals aes_encrypt)).sender ∧
      (s.part.toNat < s.parts.toNat → ∀ copyBody,
        ∃ pkt, (s.process (virtuals aes_encrypt)).offered copyBody = some pkt) ∧
      (s.parts = 0 → (s.process (virtuals aes_encrypt)).ok = false) := by
  have hsender := (prepared_head aes_encrypt s (StreamSender.bytesToSend s.size s.part)
    (s.part * MAX_PACKET_BODY)).sender
  have hprepared := h.prepared aes_encrypt
  have hempty := fun hparts => h.prepared_empty aes_encrypt hparts (StreamSender.bytesToSend s.size s.part)
    (s.part * MAX_PACKET_BODY)
  have hprocessed := processed aes_encrypt s
  have hfinish : ∀ (s' : ClientSender) pkt, Sized s' → Sized (s'.finish pkt).sender := by
    intro s' pkt hs'
    unfold StreamSender.finish
    split
    · exact ⟨hs'.size, hs'.parts⟩
    · exact hs'
  rw [StreamSender.process_eq]
  generalize (virtuals aes_encrypt).preparePacket s Packet.create _ (s.part * MAX_PACKET_BODY)
    = prepared at hsender hprepared hempty ⊢
  obtain ⟨ok, pkt, s'⟩ := prepared
  obtain rfl : s' = s := hsender
  cases ok with
  | false =>
    refine ⟨⟨h.size, h.parts⟩, ?_, fun _ => rfl⟩
    intro hpart
    obtain ⟨pkt', hpkt⟩ := hprepared hpart
    cases hpkt
  | true =>
    have hparts : s'.parts ≠ 0 := fun hzero => Bool.noConfusion (hempty hzero)
    cases pkt with
    | none =>
      refine ⟨hfinish s' none h, ?_, fun hzero => absurd hzero hparts⟩
      intro hpart
      obtain ⟨pkt', hpkt⟩ := hprepared hpart
      cases hpkt
    | some pkt =>
      obtain ⟨hok, -, ⟨-, -, hnparts, -⟩, hsize, hcontent⟩ := hprocessed pkt
      dsimp only
      generalize (virtuals aes_encrypt).processPacket s' pkt = processed
        at hok hsize hnparts hcontent
      obtain ⟨ok, pkt', s''⟩ := processed
      obtain rfl : ok = true := hok
      dsimp only at hsize hnparts hcontent ⊢
      refine ⟨hfinish _ _ ⟨?_, ?_⟩, ?_, fun hzero => absurd hzero hparts⟩
      · show s''.size.toNat = ((content s''.sub).map _).getD 0
        rw [hsize, hcontent, h.size]
      · show s''.parts.toNat = blockCount 65536 s''.size.toNat
        rw [hsize, hnparts, h.parts]
      · intro _ copyBody
        obtain ⟨hok', hpkt', -⟩ :=
          StreamSender.finish_eq { s'' with part := s''.part + 1 } (some pkt')
        unfold Sent.offered
        rw [hok', hpkt']
        exact ⟨_, rfl⟩

theorem Sized.calls {s : ClientSender} (h : Sized s) :
    ∀ k, Sized (s.calls (virtuals aes_encrypt) k)
  | 0 => h
  | k + 1 => ((h.calls k).process aes_encrypt).1

/-- **A sender as it is created** has a packet for each of its parts. -/
theorem Created.sound {s : ClientSender} (h : Created s) (copyBody : Bool) :
    Sound (virtuals aes_encrypt) copyBody s := by
  obtain ⟨hfresh, hsized⟩ := h.sized
  refine ⟨hfresh, ?_, (hsized.process aes_encrypt).2.2⟩
  intro k hk
  have hnumbers := (counting aes_encrypt).offers_numbers hfresh copyBody k
  refine ((hsized.calls aes_encrypt k).process aes_encrypt).2.1 ?_ copyBody
  have hlt := s.parts.toNat_lt
  rw [hnumbers.2.1, ((counting aes_encrypt).calls_ids s k).2, UInt32.toNat_ofNat',
    Nat.mod_eq_of_lt (by omega)]
  exact hk

/-! ## Rounds with any answers -/

open Answered

/-- **A refused packet is lost, and nothing else is.** Whatever the answers were, a sender has
offered its parts one after another, each of them once. What was accepted of it is all it has
offered, and its callback tells the truth, exactly if none of its packets was refused. If nothing
was refused at all, further rounds get through with every sender. -/
theorem served_iff_neverRefused (copyBody : Bool) {l : Answered ClientStream}
    (h : Reachable (virtuals aes_encrypt) copyBody Created l) :
    (∀ i, i < l.table.objects.length → ∃ s, Created s ∧
      (∃ k, l.table.objects[i]? = some (s.calls (virtuals aes_encrypt) k)) ∧
      (ofSender l.log i).map (·.1.head.part)
        = (List.range' 1 (ofSender l.log i).length).map UInt32.ofNat ∧
      (Served (virtuals aes_encrypt) copyBody l i s ↔ NeverRefused l i)) ∧
    (AllAccepted l → ∃ m,
      (rounds (virtuals aes_encrypt) copyBody m l).table.streamSenders = [] ∧
      (rounds (virtuals aes_encrypt) copyBody m l).table.objects.length = l.table.objects.length ∧
      ∀ i, i < l.table.objects.length → ∃ s, Created s ∧
        (∃ k, (rounds (virtuals aes_encrypt) copyBody m l).table.objects[i]?
          = some (s.calls (virtuals aes_encrypt) k)) ∧
        Served (virtuals aes_encrypt) copyBody (rounds (virtuals aes_encrypt) copyBody m l) i s) := by
  have hn := counting aes_encrypt
  have hP : ∀ s, Created s → Sound (virtuals aes_encrypt) copyBody s :=
    fun s hs => hs.sound aes_encrypt copyBody
  have hinv := inv_reachable hn h
  constructor
  · intro i hi
    obtain ⟨s, k, hs⟩ := hinv.sender i hi
    exact ⟨s, hs.allowed, ⟨k, hs.object⟩, hs.parts hn hP, hs.served_iff hn hP⟩
  · intro haccepted
    obtain ⟨m, hempty, hinv', haccepted', hlength⟩ := hinv.finish hn hP haccepted
    refine ⟨m, hempty, hlength, ?_⟩
    intro i hi
    rw [← hlength] at hi
    obtain ⟨s, k, hs⟩ := hinv'.sender i hi
    exact ⟨s, hs.allowed, ⟨k, hs.object⟩, hs.served hn hP (haccepted'.neverRefused i)⟩

/-! ### A sender of one byte -/

/-- A sender of a buffer does what its class does. -/
theorem process_request (s : BufferSender) :
    (s.withSub (ClientStream.request s.sub)).process (virtuals aes_encrypt) =
      { ok := (s.process BufferSender.virtuals).ok
        pkt := (s.process BufferSender.virtuals).pkt
        sender := (s.process BufferSender.virtuals).sender.withSub
          (.request (s.process BufferSender.virtuals).sender.sub)
        invoked := (s.process BufferSender.virtuals).invoked } := by
  have hfinish : ∀ (s : BufferSender) (pkt : Option Packet),
      (s.withSub (ClientStream.request s.sub)).finish pkt =
        { ok := (s.finish pkt).ok
          pkt := (s.finish pkt).pkt
          sender := (s.finish pkt).sender.withSub (.request (s.finish pkt).sender.sub)
          invoked := (s.finish pkt).invoked } := by
    intro s pkt
    unfold StreamSender.finish StreamSender.withSub
    dsimp only
    split
    · rfl
    · rfl
  obtain ⟨id, type, status, size, part, parts, sub⟩ := s
  rw [StreamSender.process_eq, StreamSender.process_eq]
  unfold virtuals
  dsimp only [StreamSender.withSub]
  generalize BufferSender.virtuals.preparePacket _ Packet.create _ _ = prepared
  obtain ⟨ok, pkt, s₁⟩ := prepared
  cases ok with
  | false => rfl
  | true =>
    cases pkt with
    | none => exact hfinish s₁ none
    | some pkt => exact hfinish { s₁ with part := s₁.part + 1 } (some pkt)

/-- The sender of a buffer with one byte. -/
def byteSender : BufferSender := BufferSender.create 1 Packet.Request (MemoryBuffer.ofData [7])

/-- The engine after it was added. -/
def byteAdded : Answered ClientStream where
  table := SenderTable.empty.addStreamSender (byteSender.withSub (.request byteSender.sub))
  log := []

theorem byteSender_at : byteSender.At 0 := BufferSender.create_at (by decide) (by decide)

/-- Its first call offers its packet and completes it. -/
theorem byteSender_first :
    (byteSender.withSub (ClientStream.request byteSender.sub)).outcome (virtuals aes_encrypt) 0
      = ⟨true, some (byteSender.packet 0),
          { byteSender.withSub (ClientStream.request byteSender.sub) with part := 1, status := .completed },
          true⟩ := by
  have hprocess := byteSender_at.process_eq (by decide)
  rw [if_pos (by decide)] at hprocess
  have hrequest := process_request aes_encrypt byteSender
  rw [hprocess] at hrequest
  exact hrequest

/-- Its second call finds nothing, and completes it once more. -/
theorem byteSender_second :
    (byteSender.withSub (ClientStream.request byteSender.sub)).outcome (virtuals aes_encrypt) 1
      = ⟨true, none,
          { byteSender.withSub (ClientStream.request byteSender.sub) with part := 1, status := .completed },
          true⟩ := by
  have hcalls : (byteSender.withSub (ClientStream.request byteSender.sub)).calls (virtuals aes_encrypt) 1
      = StreamSender.withSub { byteSender with part := 1, status := .completed }
          (ClientStream.request byteSender.sub) :=
    congrArg Sent.sender (byteSender_first aes_encrypt)
  have hprocess := @BufferSender.process_done
    { byteSender with part := 1, status := .completed } (by decide) (by decide)
  have hrequest := process_request aes_encrypt { byteSender with part := 1, status := .completed }
  rw [hprocess] at hrequest
  unfold StreamSender.outcome
  rw [hcalls]
  exact hrequest

theorem byteAdded_reachable (copyBody : Bool) :
    Reachable (virtuals aes_encrypt) copyBody Created byteAdded :=
  .tail .init (.add _ _ (.buffer 1 Packet.Request (MemoryBuffer.ofData [7])))

/-- The packet is refused; in the next round everything is accepted. -/
def byteLost : Answered ClientStream :=
  (byteAdded.round (virtuals aes_encrypt) true (fun _ => []) fun _ _ => false).round
    (virtuals aes_encrypt) true (fun _ => []) fun _ _ => true

/-- A refused packet is gone for good, and the callback reports twice that it is through. -/
theorem byte_lost :
    Reachable (virtuals fun _ block => block) true Created (byteLost fun _ block => block) ∧
      (byteLost fun _ block => block).table.streamSenders = [] ∧
      byteSender.parts = 1 ∧ accepted (byteLost fun _ block => block) 0 = [] ∧
      reportsOf (byteLost fun _ block => block).table 0 = [.completed, .completed] := by
  have hnone : ∀ i : Nat, ∀ s ∈ (fun _ => [] : Nat → List ClientSender) i, Created s :=
    fun _ _ hs => absurd hs List.not_mem_nil
  have hadded : SendInv (virtuals fun _ block => block) true Created byteAdded 0
      (byteSender.withSub (.request byteSender.sub)) 0 := by
    refine ⟨.buffer 1 Packet.Request (MemoryBuffer.ofData [7]), rfl, rfl, rfl, ?_, ?_⟩
    · intro j hj
      exact absurd hj (Nat.not_lt_zero j)
    · intro hgone
      exact absurd (List.mem_singleton_self 0) hgone
  have hfirst := round_single (fun _ _ => false) hadded rfl
  have hrefused := hadded.turn (List.mem_singleton_self 0) (fun _ _ => false)
  rw [byteSender_first] at hfirst hrefused
  have hsecond := round_single (fun _ _ => true) hrefused rfl
  rw [byteSender_second] at hsecond
  refine ⟨?_, ?_⟩
  · exact .tail (.tail (byteAdded_reachable _ true) (.round _ _ _ hnone)) (.round _ _ _ hnone)
  · unfold byteLost
    rw [hfirst, hsecond]
    exact ⟨rfl, rfl, rfl, rfl⟩

/-- The sender before anything was refused. -/
theorem served_iff_neverRefused_byte :
    (∀ i, i < byteAdded.table.objects.length → ∃ s, Created s ∧
      (∃ k, byteAdded.table.objects[i]? = some (s.calls (virtuals fun _ block => block) k)) ∧
      (ofSender byteAdded.log i).map (·.1.head.part)
        = (List.range' 1 (ofSender byteAdded.log i).length).map UInt32.ofNat ∧
      (Served (virtuals fun _ block => block) true byteAdded i s ↔ NeverRefused byteAdded i)) ∧
    (AllAccepted byteAdded → ∃ m,
      (rounds (virtuals fun _ block => block) true m byteAdded).table.streamSenders = [] ∧
      (rounds (virtuals fun _ block => block) true m byteAdded).table.objects.length
        = byteAdded.table.objects.length ∧
      ∀ i, i < byteAdded.table.objects.length → ∃ s, Created s ∧
        (∃ k, (rounds (virtuals fun _ block => block) true m byteAdded).table.objects[i]?
          = some (s.calls (virtuals fun _ block => block) k)) ∧
        Served (virtuals fun _ block => block) true
          (rounds (virtuals fun _ block => block) true m byteAdded) i s) :=
  served_iff_neverRefused (fun _ block => block) true (byteAdded_reachable _ true)

end ClientSender

end Client

end Zway
