import Zway.Client.Received
import Zway.Store.BlobRoundTrip

/-!
# What is stored for a resource

When a resource has come in, the callback of its receiver puts the buffer of the receiver
into a new blob and the id of the blob into the row. It is told how many bytes have come in,
and does not look at that: the buffer holds a whole number of packets, so that what is read
back is the content with zeros behind it. `stored_iff` says when there are none.
-/

namespace Zway.Client

open Sql Ubj.Store

/-- The receiver of a resource that a push lists, after all of its packets. -/
def Push.received (aes_encrypt : Bytes → Bytes → Bytes) (p : Push) (id : UInt32) (content : Content) :
    Option ResourceReceiver :=
  match p.packets aes_encrypt id content with
  | [] => none
  | pkt :: pkts =>
      match ResourceReceiver.create pkt (some p.key) (resourceSalt (some p.salt) id) with
      | none => none
      | some r =>
          let res := BufferReceiver.receiveAll (ResourceReceiver.process aes_encrypt) r (pkt :: pkts)
          if res.1 then some res.2 else none

/-- A row of `resources`. -/
structure StoredRow where
  id : UInt32
  status : ResourceStatus
  /-- The id of a blob, or zero. -/
  data : BitVec 64

structure ResourceStore where
  /-- Where the table `blob3` is. -/
  db : Db
  resources : List StoredRow

namespace ResourceStore

/-- The first row with an id. -/
def resource (s : ResourceStore) (id : UInt32) : Option StoredRow := s.resources.find? (·.id = id)

/-- `Store::queryInt` of `data`. -/
def blobId (s : ResourceStore) (id : UInt32) : BitVec 64 :=
  match s.resource id with
  | some row => row.data
  | none => 0

section

variable (sqlite : Behaviour) (behind : BitVec 32) (aes_encrypt : Bytes → Bytes → Bytes)
  (key : MemoryBuffer)

/-- The old blob is removed. -/
def withoutBlob (s : ResourceStore) (id : UInt32) : Db :=
  if s.blobId id ≠ 0 then (removeBlob sqlite behind s.db (lit "blob3") (s.blobId id)).2 else s.db

/-- What the callback of a completed receiver does with its buffer. -/
def received (s : ResourceStore) (random : Option SaltBytes) (id : UInt32) (buffer : MemoryBuffer) :
    ResourceStore :=
  let c := createBlob sqlite behind aes_encrypt key random (s.withoutBlob sqlite behind id)
    (lit "blob3") (some buffer) true
  { db := c.2
    resources := s.resources.map (fun row =>
      if row.id = id then { row with status := .received, data := c.1 } else row) }

end

end ResourceStore

section

variable {aes_encrypt : Bytes → Bytes → Bytes}

/-- **All packets together** leave the content in a buffer of whole packets. -/
theorem Push.received_eq (p : Push) (id : UInt32) (content : Content) :
    ∃ r, p.received aes_encrypt id content = some r ∧ r.status = .completed ∧ r.id = id
      ∧ r.buffer.size = content.parts id * 65536
      ∧ r.buffer.data.take content.data.size = content.data.data := by
  obtain ⟨ctr, hctr, hbytes⟩ := resourceSalt_eq p.salt_size id
  have hsize : ctr.size = 16 := (congrArg List.length hbytes).trans (p.ctr_length id)
  have hat := content.sender_at id
  have hfirst : ResourceReceiver.At p.key.data (p.ctr id) (content.sender id)
      (BufferReceiver.init (p.packet aes_encrypt id content 0) (contextAt p.key.data (p.ctr id) 0)) 0 :=
    ⟨(BufferReceiver.init_holds hat _ : BufferReceiver.Holds
      (BufferReceiver.init ((content.sender id).packet 0) _) _ 0), fun _ => rfl⟩
  obtain ⟨r, hstatus, hholds, hreceive⟩ := ResourceReceiver.At.receiveAll aes_encrypt hat
    (content.sender id).parts.toNat hfirst (content.parts_pos id) (Nat.sub_zero _)
  obtain ⟨n, hn⟩ : ∃ n, content.parts id = n + 1 :=
    ⟨content.parts id - 1, (Nat.succ_pred_eq_of_pos (content.parts_pos id)).symm⟩
  have hpackets : p.packets aes_encrypt id content
      = p.packet aes_encrypt id content 0 :: (List.range' 1 n).map (p.packet aes_encrypt id content) := by
    rw [Push.packets_eq, hn, List.range'_succ, List.map_cons]
  have hreceive' : BufferReceiver.receiveAll (ResourceReceiver.process aes_encrypt)
      (BufferReceiver.init (p.packet aes_encrypt id content 0) (contextAt p.key.data (p.ctr id) 0))
      (p.packets aes_encrypt id content) = (true, r) := by
    rw [Push.packets_eq]
    unfold Push.packet
    rw [← content.sender_sub id]
    exact hreceive
  have htake := (hholds.complete hat).2
  rw [content.sender_sub] at htake
  refine ⟨r, ?_, hstatus, hholds.id.trans (content.sender_id id), hholds.size, htake⟩
  have hctr' : contextAt p.key.data ctr.data 0 = contextAt p.key.data (p.ctr id) 0 :=
    congrArg (fun bytes => contextAt p.key.data bytes 0) hbytes
  rw [hpackets] at hreceive'
  unfold Push.received ResourceReceiver.create
  rw [hpackets, hctr]
  dsimp only
  rw [contextAt_zero p.key_size hsize, hctr', hreceive', if_pos rfl]

end

namespace ResourceStore

variable {sqlite : Behaviour} {behind : BitVec 32} {aes_encrypt : Bytes → Bytes → Bytes}
  {key : MemoryBuffer} {s : ResourceStore} {id : UInt32}

/-- The row after the callback. -/
theorem resource_received (hrow : ∃ row ∈ s.resources, row.id = id) (random : Option SaltBytes)
    (buffer : MemoryBuffer) :
    ∃ row, (s.received sqlite behind aes_encrypt key random id buffer).resource id = some row
      ∧ row.status = .received
      ∧ row.data = (createBlob sqlite behind aes_encrypt key random (s.withoutBlob sqlite behind id)
        (lit "blob3") (some buffer) true).1 := by
  obtain ⟨row, hmem, hid⟩ := hrow
  cases hfind : (s.received sqlite behind aes_encrypt key random id buffer).resource id with
  | none =>
    have hnone := List.find?_eq_none.mp hfind _ (List.mem_map.mpr ⟨row, hmem, rfl⟩)
    rw [if_pos hid] at hnone
    exact absurd (decide_eq_true hid) hnone
  | some row' =>
    have hid' : row'.id = id := by simpa using List.find?_some hfind
    obtain ⟨row₀, -, rfl⟩ := List.mem_map.mp (List.mem_of_find?_eq_some hfind)
    refine ⟨_, rfl, ?_⟩
    by_cases hrow₀ : row₀.id = id
    · rw [if_pos hrow₀]
      exact ⟨rfl, rfl⟩
    · rw [if_neg hrow₀] at hid'
      exact absurd hid' hrow₀

/-- Whatever the row had before, the table of the blobs is one. -/
theorem withoutBlob_table (htable : HasBlobTable s.db (lit "blob3"))
    (hok : ∀ n, s.db.succeeds n = true) (id : UInt32) :
    HasBlobTable (s.withoutBlob sqlite behind id) (lit "blob3")
      ∧ ∀ n, (s.withoutBlob sqlite behind id).succeeds n = true := by
  unfold withoutBlob
  by_cases hold : s.blobId id ≠ 0
  · rw [if_pos hold]
    have hset := removeBlob_eq sqlite behind htable hok (s.blobId id)
    exact ⟨hset.blobTable, fun n => hset.succeeds ▸ hok n⟩
  · rw [if_neg hold]
    exact ⟨htable, hok⟩

/-- What is read back is the buffer. -/
theorem getBlobData_received (htable : HasBlobTable s.db (lit "blob3"))
    (hok : ∀ n, s.db.succeeds n = true) (hrow : ∃ row ∈ s.resources, row.id = id)
    {buffer : MemoryBuffer} (hpos : 0 < buffer.size) (hmax : buffer.size ≤ sqlite.maxLength)
    (random : SaltBytes)
    (hcreated : (s.received sqlite behind aes_encrypt key (some random) id buffer).blobId id ≠ 0) :
    ∃ row, (s.received sqlite behind aes_encrypt key (some random) id buffer).resource id = some row
      ∧ row.status = .received
      ∧ (getBlobData sqlite behind aes_encrypt key
          (s.received sqlite behind aes_encrypt key (some random) id buffer).db (lit "blob3")
            row.data).1 = some buffer := by
  obtain ⟨row, hfind, hstatus, hdata⟩ := @resource_received sqlite behind aes_encrypt key s id hrow
    (some random) buffer
  obtain ⟨htable', hok'⟩ := @withoutBlob_table sqlite behind s htable hok id
  unfold blobId at hcreated
  rw [hfind] at hcreated
  refine ⟨row, hfind, hstatus, ?_⟩
  have hroundtrip := (blob_roundtrip sqlite behind aes_encrypt key hok' htable' hpos hmax random true).1
    _ _ (Prod.mk.eta.symm) (hdata ▸ hcreated)
  rw [hdata]
  exact hroundtrip.1

/-- **When the content is stored as it is.** -/
theorem stored_iff (p : Push) (content : Content) (htable : HasBlobTable s.db (lit "blob3"))
    (hok : ∀ n, s.db.succeeds n = true) (hrow : ∃ row ∈ s.resources, row.id = id)
    (hmax : content.parts id * 65536 ≤ sqlite.maxLength) (random : SaltBytes) :
    ∃ r, p.received aes_encrypt id content = some r ∧ r.status = .completed
      ∧ ((s.received sqlite behind aes_encrypt key (some random) r.id r.buffer).blobId id ≠ 0 →
        ∃ row, (s.received sqlite behind aes_encrypt key (some random) r.id r.buffer).resource id = some row
          ∧ row.status = .received
          ∧ ((getBlobData sqlite behind aes_encrypt key
              (s.received sqlite behind aes_encrypt key (some random) r.id r.buffer).db (lit "blob3")
                row.data).1 = some content.data
            ↔ 65536 ∣ content.data.size)) := by
  obtain ⟨r, hreceived, hstatus, hid, hsize, htake⟩ := @Push.received_eq aes_encrypt p id content
  have hpos : 0 < r.buffer.size := by
    rw [hsize]
    exact Nat.mul_pos (content.parts_pos id) (by decide)
  refine ⟨r, hreceived, hstatus, fun hcreated => ?_⟩
  rw [hid] at hcreated ⊢
  obtain ⟨row, hfind, hrowStatus, hdata⟩ :=
    getBlobData_received htable hok hrow hpos (hsize ▸ hmax) random hcreated
  refine ⟨row, hfind, hrowStatus, ?_⟩
  rw [hdata]
  constructor
  · intro heq
    have hbuffer : r.buffer = content.data := Option.some.inj heq
    rw [← hbuffer, hsize]
    exact Nat.dvd_mul_left ..
  · intro hdvd
    have hfull : r.buffer.size = content.data.size := by
      rw [hsize, content.parts_eq]
      exact blockCount_mul_of_dvd hdvd
    have hbytes : r.buffer.data = content.data.data := by
      rw [← htake, ← hfull]
      exact (List.take_length ..).symm
    exact congrArg some (MemoryBuffer.ext hbytes)

/-- A store with one resource, and without blobs. -/
def one (id : UInt32) : ResourceStore where
  db :=
    { tables := fun table =>
        if table = lit "blob3" then
          some ⟨lit "id", [lit "mode", lit "size", lit "salt", lit "data"], []⟩
        else none
      succeeds := fun _ => true
      calls := 0 }
  resources := [⟨id, .incoming, 0⟩]

theorem one_hasBlobTable (id : UInt32) : HasBlobTable (one id).db (lit "blob3") :=
  ⟨by decide, _, rfl, rfl, rfl⟩

theorem one_created (aes_encrypt : Bytes → Bytes → Bytes) (id : UInt32) (buffer : MemoryBuffer)
    (random : SaltBytes) :
    ((one id).received Behaviour.plain 0 aes_encrypt (.create 32) (some random) id buffer).blobId id
      ≠ 0 := by
  obtain ⟨row, hfind, -, hdata⟩ := @resource_received Behaviour.plain 0 aes_encrypt (.create 32)
    (one id) id ⟨_, List.mem_singleton.mpr rfl, rfl⟩ (some random) buffer
  have hold : (one id).withoutBlob Behaviour.plain 0 id = (one id).db := by
    have hzero : (one id).blobId id = 0 := by simp [blobId, resource, one]
    unfold withoutBlob
    rw [if_neg (fun hne => hne hzero)]
  have hcreated := @createBlob_id Behaviour.plain 0 aes_encrypt (.create 32) (one id).db (lit "blob3")
    buffer random 1 rfl (by decide)
  unfold blobId
  rw [hfind]
  dsimp only
  rw [hdata, hold, hcreated]
  decide

/-- A packet that is full. -/
def fullPacket : Content where
  data := .create 65536
  pos := by rw [MemoryBuffer.create_size]; decide
  le := by rw [MemoryBuffer.create_size]; decide

theorem stored_fullPacket :
    ∃ r row, Receiving.firstPush.received Receiving.zeroCipher 7 fullPacket = some r
      ∧ ((one 7).received Behaviour.plain 0 Receiving.zeroCipher (.create 32)
          (some ⟨List.replicate 12 7, rfl⟩) r.id r.buffer).resource 7 = some row
      ∧ (getBlobData Behaviour.plain 0 Receiving.zeroCipher (.create 32)
          ((one 7).received Behaviour.plain 0 Receiving.zeroCipher (.create 32)
            (some ⟨List.replicate 12 7, rfl⟩) r.id r.buffer).db (lit "blob3") row.data).1
        = some fullPacket.data := by
  have hsize : fullPacket.data.size = 65536 := MemoryBuffer.create_size 65536
  obtain ⟨r, hr, -, hstored⟩ := @stored_iff Behaviour.plain 0 Receiving.zeroCipher (.create 32) (one 7) 7
    Receiving.firstPush fullPacket (one_hasBlobTable 7) (fun _ => rfl)
    ⟨_, List.mem_singleton.mpr rfl, rfl⟩
    (by
      rw [Content.parts_eq, hsize]
      decide)
    ⟨List.replicate 12 7, rfl⟩
  have hid : r.id = 7 := by
    obtain ⟨r', hr', -, hid, -⟩ := @Push.received_eq Receiving.zeroCipher Receiving.firstPush 7 fullPacket
    obtain rfl := Option.some.inj (hr.symm.trans hr')
    exact hid
  rw [hid] at hstored
  obtain ⟨row, hrow, -, hiff⟩ := hstored (one_created _ 7 _ _)
  refine ⟨r, row, hr, ?_⟩
  rw [hid]
  exact ⟨hrow, hiff.mpr (by rw [hsize])⟩

/-- Of one byte there are 65535 too many. -/
theorem not_stored_oneByte :
    ∃ r row, Receiving.firstPush.received Receiving.zeroCipher 7 Receiving.oneByte = some r
      ∧ ((one 7).received Behaviour.plain 0 Receiving.zeroCipher (.create 32)
          (some ⟨List.replicate 12 7, rfl⟩) r.id r.buffer).resource 7 = some row
      ∧ row.status = .received
      ∧ (getBlobData Behaviour.plain 0 Receiving.zeroCipher (.create 32)
          ((one 7).received Behaviour.plain 0 Receiving.zeroCipher (.create 32)
            (some ⟨List.replicate 12 7, rfl⟩) r.id r.buffer).db (lit "blob3") row.data).1
        ≠ some Receiving.oneByte.data := by
  obtain ⟨r, hr, -, hid, hsize, -⟩ :=
    @Push.received_eq Receiving.zeroCipher Receiving.firstPush 7 Receiving.oneByte
  have hone : r.buffer.size = 65536 := by
    rw [hsize, Content.parts_eq]
    decide
  obtain ⟨row, hrow, hstatus, hdata⟩ := @getBlobData_received Behaviour.plain 0 Receiving.zeroCipher
    (.create 32) (one 7) 7 (one_hasBlobTable 7) (fun _ => rfl) ⟨_, List.mem_singleton.mpr rfl, rfl⟩
    r.buffer (by omega) (by
      rw [hone]
      decide) ⟨List.replicate 12 7, rfl⟩ (one_created _ 7 _ _)
  refine ⟨r, row, hr, ?_⟩
  rw [hid]
  refine ⟨hrow, hstatus, fun heq => ?_⟩
  rw [hdata] at heq
  rw [Option.some.inj heq] at hone
  exact absurd hone (by decide)

end ResourceStore

end Zway.Client
