import Zway.Store.BlobUpdate

/-!
# Reading anywhere in a blob

`Blob::open` sets the counter of the cipher, and every `Blob::read` of an encrypted blob
moves it on by the blocks that it starts, wherever in the blob it reads. So what a read
delivers depends on the reads before it: `InStep`.
-/

namespace Zway.Ubj.Store

open Sql

section

variable (aes_encrypt : Bytes → Bytes → Bytes) (key : MemoryBuffer)

/-- Reads of some size at some offset, one after the other on one handle. -/
def Blob.reads : List (UInt32 × UInt32) → Blob → Db → List (Bool × Bytes)
  | [], _, _ => []
  | (size, offset) :: requests, b, db =>
      let r := b.read aes_encrypt db size offset
      r.1 :: Blob.reads requests r.2.1 r.2.2

/-- If the read succeeds, it delivers what lies at its offset. -/
def Delivers (content : Bytes) (request : UInt32 × UInt32) (result : Bool × Bytes) : Prop :=
  result.1 = true → result.2 = (content.drop request.2.toNat).take request.1.toNat

/-- The content of a row. -/
def contentOf (row : Row) : Option Bytes := (dataOf row).map (crypt aes_encrypt key row)

/-- The key stream of a row, from the counter that `Blob::open` sets. -/
def rowStream (row : Row) : Nat → UInt8 :=
  Ctr.keyStream (aes_encrypt (blobOf key [] 0 row).aes.key) (blobOf key [] 0 row).aes.ctr

/-- Every read that succeeds finds, after the blocks that are used up, the part of the key stream that
belongs to its offset. -/
def InStep (ks : Nat → UInt8) (succeeds : Nat → Bool) : List (UInt32 × UInt32) →
    (calls blocks : Nat) → Prop
  | [], _, _ => True
  | (size, offset) :: requests, calls, blocks =>
      if succeeds calls = true ∧ size.toNat < 2 ^ 31 then
        (∀ i < size.toNat, ks (16 * blocks + i) = ks (offset.toNat + i))
          ∧ InStep ks succeeds requests (calls + 1) (blocks + blockCount 16 size.toNat)
      else InStep ks succeeds requests (calls + 1) blocks

/-- Reads in whole blocks from the beginning, without gaps. -/
def Sequential : List (UInt32 × UInt32) → (blocks : Nat) → Prop
  | [], _ => True
  | (size, offset) :: requests, blocks =>
      offset.toNat = 16 * blocks ∧ Sequential requests (blocks + blockCount 16 size.toNat)

/-- Such reads are in step, whatever the key stream is, if none of them fails. -/
theorem Sequential.inStep (ks : Nat → UInt8) : ∀ {requests : List (UInt32 × UInt32)} {calls blocks : Nat},
    Sequential requests blocks → (∀ r ∈ requests, r.1.toNat < 2 ^ 31) →
    InStep ks (fun _ => true) requests calls blocks
  | [], _, _, _, _ => trivial
  | (size, offset) :: requests, calls, blocks, h, hsize => by
      obtain ⟨hoffset, hrest⟩ := h
      have hok : (fun _ : Nat => true) calls = true ∧ size.toNat < 2 ^ 31 :=
        ⟨rfl, hsize (size, offset) List.mem_cons_self⟩
      rw [InStep, if_pos hok]
      refine ⟨fun i _ => by rw [hoffset], ?_⟩
      exact hrest.inStep ks (fun r hr => hsize r (List.mem_cons_of_mem _ hr))

end

section

variable (aes_encrypt : Bytes → Bytes → Bytes) (key : MemoryBuffer) {db : Db} {table : Bytes}
  {id : BitVec 64} {row : Row} {data : Bytes}

/-- The handle after some blocks. -/
def handleAt (table : Bytes) (id : BitVec 64) (row : Row) (blocks : Nat) : Blob :=
  { blobOf key table id row with
    aes := { (blobOf key table id row).aes with
      ctr := Ctr.advance (blobOf key table id row).aes.ctr blocks } }

theorem handleAt_zero (hctr : (blobOf key table id row).aes.ctr.length = 16) :
    handleAt key table id row 0 = blobOf key table id row := by
  unfold handleAt
  rw [Ctr.advance_zero hctr]

/-- What SQLite delivers for a read that stays within the data. -/
theorem blobRead_within (hrow : db.row table id = some row) (hdata : dataOf row = some data)
    (calls : Nat) {size offset : UInt32} (hwithin : offset.toNat + size.toNat ≤ data.length) :
    (db.after calls).blobRead table (lit "data") id size offset =
      (if db.succeeds calls = true ∧ size.toNat < 2 ^ 31 then
        some ((data.drop offset.toNat).take size.toNat) else none, db.after (calls + 1)) := by
  have hbytes : ((db.after calls).value table (lit "data") id).bind Val.bytes = some data := by
    rw [Db.value_eq, Db.row_after, hrow]
    exact hdata
  have hsucceeds : (db.after calls).ok = db.succeeds calls := rfl
  unfold Db.blobRead
  rw [hbytes, Option.bind_some, hsucceeds]
  refine Prod.ext ?_ rfl
  by_cases hok : db.succeeds calls = true
  · by_cases hsize : size.toNat < 2 ^ 31
    · simp only [hok, hsize, hwithin, and_self, if_true]
    · simp only [hok, hsize, false_and, and_false, if_false, if_true]
  · simp only [hok, false_and, if_false, Bool.false_eq_true]

/-- A read of a plain blob. -/
theorem read_plain (hplain : modeOf row = false) (hrow : db.row table id = some row)
    (hdata : dataOf row = some data) (calls : Nat) {size offset : UInt32}
    (hwithin : offset.toNat + size.toNat ≤ data.length) :
    ∃ res, (blobOf key table id row).read aes_encrypt (db.after calls) size offset
        = (res, blobOf key table id row, db.after (calls + 1))
      ∧ Delivers data (size, offset) res := by
  have hread := blobRead_within hrow hdata calls hwithin
  by_cases hok : db.succeeds calls = true ∧ size.toNat < 2 ^ 31
  · rw [if_pos hok] at hread
    have hmode : ¬ (blobOf key table id row).mode = true := by
      show ¬ modeOf row = true
      rw [hplain]
      decide
    refine ⟨_, (Blob.read_some aes_encrypt (blobOf key table id row) hread).trans (if_neg hmode), ?_⟩
    exact fun _ => rfl
  · rw [if_neg hok] at hread
    refine ⟨_, Blob.read_none aes_encrypt (blobOf key table id row) hread, ?_⟩
    intro h
    cases h

/-- A read of an encrypted blob: it delivers what it should exactly if the key streams agree. -/
theorem read_encrypted (hmode : modeOf row = true) (hrow : db.row table id = some row)
    (hdata : dataOf row = some data) (calls blocks : Nat) {size offset : UInt32}
    (hwithin : offset.toNat + size.toNat ≤ data.length) :
    ∃ res, (handleAt key table id row blocks).read aes_encrypt (db.after calls) size offset
        = (res, handleAt key table id row
            (if db.succeeds calls = true ∧ size.toNat < 2 ^ 31 then
              blocks + blockCount 16 size.toNat else blocks), db.after (calls + 1))
      ∧ (Delivers (crypt aes_encrypt key row data) (size, offset) res
        ↔ (db.succeeds calls = true ∧ size.toNat < 2 ^ 31 →
          ∀ i < size.toNat, rowStream aes_encrypt key row (16 * blocks + i)
            = rowStream aes_encrypt key row (offset.toNat + i))) := by
  have hread := blobRead_within hrow hdata calls hwithin
  by_cases hok : db.succeeds calls = true ∧ size.toNat < 2 ^ 31
  · rw [if_pos hok] at hread
    -- what SQLite delivers, and the same part of the content
    generalize hd : (data.drop offset.toNat).take size.toNat = d at hread
    have hlen : d.length = size.toNat := by
      rw [← hd, List.length_take, List.length_drop]
      omega
    have hslice : ((crypt aes_encrypt key row data).drop offset.toNat).take size.toNat
        = Ctr.xorFrom (rowStream aes_encrypt key row) offset.toNat d := by
      unfold crypt
      rw [if_pos hmode]
      show ((Ctr.xorFrom (rowStream aes_encrypt key row) 0 data).drop offset.toNat).take size.toNat = _
      rw [Ctr.drop_xorFrom, Ctr.take_xorFrom, hd, Nat.zero_add]
    have hctr' : (handleAt key table id row blocks).aes.ctr.length = 16 := Ctr.advance_length ..
    have hdecrypt := AES.encrypt_noCallback aes_encrypt (Nat.le_of_eq hlen.symm) hctr'
    rw [List.take_of_length_le (Nat.le_of_eq hlen)] at hdecrypt
    have hctrypt : ((handleAt key table id row blocks).aes.ctr_crypt aes_encrypt d).2
        = Ctr.xorFrom (rowStream aes_encrypt key row) (16 * blocks) d := by
      have hshift : ∀ i, Ctr.keyStream (aes_encrypt (blobOf key table id row).aes.key)
          (Ctr.advance (blobOf key table id row).aes.ctr blocks) i
            = rowStream aes_encrypt key row (16 * blocks + i) := by
        intro i
        rw [Ctr.keyStream_advance, Nat.mul_comm blocks]
        rfl
      exact Ctr.xorFrom_shift hshift 0 d
    have hnext : ((handleAt key table id row blocks).aes.ctr_crypt aes_encrypt d).1
        = (handleAt key table id row (blocks + blockCount 16 size.toNat)).aes := by
      show ({ (blobOf key table id row).aes with
        ctr := Ctr.advance (Ctr.advance (blobOf key table id row).aes.ctr blocks)
          (blockCount 16 d.length) } : AES) = _
      rw [Ctr.advance_advance, hlen]
      rfl
    have hrun := (Blob.read_some aes_encrypt (handleAt key table id row blocks) hread).trans
      (if_pos (show (handleAt key table id row blocks).mode = true from hmode))
    rw [show (handleAt key table id row blocks).aes.decrypt aes_encrypt AES.noCallback d size () = _
      from hdecrypt, hctrypt, hnext] at hrun
    rw [if_pos hok]
    refine ⟨_, hrun, ?_⟩
    have hall : overwrite d 0 (Ctr.xorFrom (rowStream aes_encrypt key row) (16 * blocks) d)
        = Ctr.xorFrom (rowStream aes_encrypt key row) (16 * blocks) d :=
      overwrite_all (Ctr.xorFrom_length ..)
    have hiff := Ctr.xorFrom_xorFrom_at_iff (rowStream aes_encrypt key row) (16 * blocks) offset.toNat
      (Ctr.xorFrom (rowStream aes_encrypt key row) offset.toNat d)
    rw [Ctr.xorFrom_xorFrom, Ctr.xorFrom_length, hlen] at hiff
    unfold Delivers
    dsimp only
    rw [hslice, hall, hiff]
    exact ⟨fun h _ => h rfl, fun h _ => h hok⟩
  · rw [if_neg hok] at hread
    refine ⟨_, (Blob.read_none aes_encrypt _ hread).trans (by rw [if_neg hok]), ?_⟩
    constructor
    · intro _ h
      exact absurd h hok
    · intro _ h
      cases h

/-- Any reads of a plain blob. -/
theorem reads_plain (hplain : modeOf row = false) (hrow : db.row table id = some row)
    (hdata : dataOf row = some data) : ∀ (requests : List (UInt32 × UInt32)) (calls : Nat),
    (∀ r ∈ requests, r.2.toNat + r.1.toNat ≤ data.length) →
    List.Forall₂ (Delivers data) requests
      (Blob.reads aes_encrypt requests (blobOf key table id row) (db.after calls)) := by
  intro requests
  induction requests with
  | nil => exact fun _ _ => .nil
  | cons r requests ih =>
    intro calls hwithin
    obtain ⟨size, offset⟩ := r
    obtain ⟨res, hread, hres⟩ := read_plain aes_encrypt key hplain hrow hdata calls (hwithin (size, offset) List.mem_cons_self)
    rw [Blob.reads, hread]
    exact .cons hres (ih (calls + 1) (fun r hr => hwithin r (List.mem_cons_of_mem _ hr)))

/-- Any reads of an encrypted one. -/
theorem reads_encrypted (hmode : modeOf row = true) (hrow : db.row table id = some row)
    (hdata : dataOf row = some data) : ∀ (requests : List (UInt32 × UInt32)) (calls blocks : Nat),
    (∀ r ∈ requests, r.2.toNat + r.1.toNat ≤ data.length) →
    (List.Forall₂ (Delivers (crypt aes_encrypt key row data)) requests
        (Blob.reads aes_encrypt requests (handleAt key table id row blocks) (db.after calls))
      ↔ InStep (rowStream aes_encrypt key row) db.succeeds requests calls blocks) := by
  intro requests
  induction requests with
  | nil => exact fun _ _ _ => ⟨fun _ => trivial, fun _ => .nil⟩
  | cons r requests ih =>
    intro calls blocks hwithin
    obtain ⟨size, offset⟩ := r
    obtain ⟨res, hread, hres⟩ := read_encrypted aes_encrypt key hmode hrow hdata calls blocks (hwithin (size, offset) List.mem_cons_self)
    have hrest := fun blocks' => ih (calls + 1) blocks'
      (fun r hr => hwithin r (List.mem_cons_of_mem _ hr))
    rw [Blob.reads, hread, InStep]
    dsimp only
    rw [List.forall₂_cons, hres, hrest]
    by_cases hok : db.succeeds calls = true ∧ size.toNat < 2 ^ 31
    · rw [if_pos hok, if_pos hok]
      exact ⟨fun h => ⟨h.1 hok, h.2⟩, fun h => ⟨fun _ => h.1, h.2⟩⟩
    · rw [if_neg hok, if_neg hok]
      exact ⟨fun h => h.2, fun h => ⟨fun h' => absurd h' hok, h⟩⟩

/-- What is opened is the blob of the row. -/
theorem openBlob_eq_some (sqlite : Behaviour) (behind : BitVec 32) (htable : HasBlobTable db table)
    (hrow : db.row table id = some row) {b : Blob} {db' : Db}
    (hopen : openBlob sqlite behind key db table id = (some b, db')) :
    b = blobOf key table id row ∧ db' = db.after (db.calls + 3) := by
  by_cases hsome : opens db = true ∧ ∃ data, dataOf row = some data
  · obtain ⟨hopens, data, hdata⟩ := hsome
    rw [openBlob_some sqlite behind key htable hopens hrow hdata] at hopen
    obtain ⟨hb, hdb⟩ := Prod.mk.inj hopen
    exact ⟨(Option.some.inj hb).symm, hdb.symm⟩
  · obtain ⟨calls, hnone⟩ : ∃ calls, openBlob sqlite behind key db table id
        = (none, db.after calls) := openBlob_none sqlite behind key htable (by
      intro hopens
      rw [hrow, Option.bind_some]
      cases hdata : dataOf row with
      | none => rfl
      | some data => exact absurd ⟨hopens, data, hdata⟩ hsome)
    rw [hnone] at hopen
    cases congrArg Prod.fst hopen

/-- **What the reads on one handle deliver.** Those of a plain blob deliver its content from anywhere.
Those of an encrypted blob do exactly as long as they are in step with the key stream. -/
theorem delivers_iff (sqlite : Behaviour) (behind : BitVec 32) (htable : HasBlobTable db table)
    (hrow : db.row table id = some row)
    (hsalt : modeOf row = true → ∃ salt, saltOf row = some salt ∧ salt.size = 16) {b : Blob} {db' : Db}
    (hopen : openBlob sqlite behind key db table id = (some b, db')) {p : Bytes}
    (hp : contentOf aes_encrypt key row = some p) (requests : List (UInt32 × UInt32))
    (hwithin : ∀ r ∈ requests, r.2.toNat + r.1.toNat ≤ p.length) :
    List.Forall₂ (Delivers p) requests (Blob.reads aes_encrypt requests b db')
      ↔ (modeOf row = true →
        InStep (rowStream aes_encrypt key row) db.succeeds requests (db.calls + 3) 0) := by
  obtain ⟨rfl, rfl⟩ := openBlob_eq_some key sqlite behind htable hrow hopen
  obtain ⟨data, hdata, rfl⟩ := Option.map_eq_some_iff.mp hp
  rw [crypt_length] at hwithin
  cases hmode : modeOf row with
  | false =>
    have hcontent : crypt aes_encrypt key row data = data := by
      unfold crypt
      rw [hmode]
      rfl
    rw [hcontent]
    refine ⟨fun _ h => absurd h (by decide), fun _ => ?_⟩
    exact reads_plain aes_encrypt key hmode hrow hdata requests _ hwithin
  | true =>
    obtain ⟨salt, hsalt, hsize⟩ := hsalt hmode
    have hctr : (blobOf key table id row).aes.ctr.length = 16 := by
      show ((AES.new.setCtr (saltOf row)).setKey (some key)).ctr.length = 16
      rw [hsalt]
      show (salt.data.take 16).length = 16
      rw [List.length_take]
      exact Nat.min_eq_left (Nat.le_of_eq hsize.symm)
    rw [← handleAt_zero key hctr, reads_encrypted aes_encrypt key hmode hrow hdata requests _ 0 hwithin]
    exact ⟨fun h _ => h, fun h => h rfl⟩

end

/-! ## A small blob -/

/-- An encrypted row of 32 bytes, with a salt of zeros. -/
def encryptedBlob : Row :=
  Row.assign (fun _ => .null) [(lit "data", .blob (List.replicate 32 0)), (lit "mode", .integer 1),
    (lit "salt", .blob (List.replicate 16 0)), (lit "size", .integer 32)]

/-- A blob table with only this row. -/
def encryptedDb : Db where
  tables := fun table =>
    if table = lit "blobs" then
      some ⟨lit "id", [lit "mode", lit "size", lit "salt", lit "data"], [(1, encryptedBlob)]⟩
    else none
  succeeds := fun _ => true
  calls := 0

theorem encryptedDb_hasBlobTable : HasBlobTable encryptedDb (lit "blobs") :=
  ⟨by decide, _, rfl, rfl, rfl⟩

theorem encryptedDb_open : openBlob Behaviour.plain 0 (MemoryBuffer.create 32) encryptedDb
    (lit "blobs") 1
      = (some (blobOf (MemoryBuffer.create 32) (lit "blobs") 1 encryptedBlob), encryptedDb.after 3) :=
  openBlob_some Behaviour.plain 0 (MemoryBuffer.create 32) encryptedDb_hasBlobTable rfl rfl rfl

/-- The first block, and then the second one. -/
theorem delivers_iff_blocks :
    List.Forall₂ (Delivers (crypt (fun _ block => block) (MemoryBuffer.create 32) encryptedBlob
        (List.replicate 32 0))) [(16, 0), (16, 16)]
        (Blob.reads (fun _ block => block) [(16, 0), (16, 16)]
          (blobOf (MemoryBuffer.create 32) (lit "blobs") 1 encryptedBlob) (encryptedDb.after 3))
      ↔ (modeOf encryptedBlob = true →
        InStep (rowStream (fun _ block => block) (MemoryBuffer.create 32) encryptedBlob)
          encryptedDb.succeeds [(16, 0), (16, 16)] 3 0) :=
  delivers_iff (fun _ block => block) (MemoryBuffer.create 32) Behaviour.plain 0
    encryptedDb_hasBlobTable rfl
    (fun _ => ⟨MemoryBuffer.ofData (List.replicate 16 0), rfl, by decide⟩) encryptedDb_open rfl
    [(16, 0), (16, 16)] (by
      intro r hr
      rw [crypt_length]
      simp only [List.mem_cons, List.not_mem_nil, or_false] at hr
      rcases hr with rfl | rfl
      · decide
      · decide)

/-- The last byte alone is deciphered as if it were the first. -/
theorem not_delivers_last :
    ¬ List.Forall₂ (Delivers (crypt (fun _ block => block) (MemoryBuffer.create 32) encryptedBlob
        (List.replicate 32 0))) [(1, 31)]
        (Blob.reads (fun _ block => block) [(1, 31)]
          (blobOf (MemoryBuffer.create 32) (lit "blobs") 1 encryptedBlob) (encryptedDb.after 3)) := by
  have hstart : handleAt (MemoryBuffer.create 32) (lit "blobs") 1 encryptedBlob 0
      = blobOf (MemoryBuffer.create 32) (lit "blobs") 1 encryptedBlob := handleAt_zero _ (by decide)
  have hwithin : ∀ r ∈ [((1 : UInt32), (31 : UInt32))],
      r.2.toNat + r.1.toNat ≤ (List.replicate 32 (0 : UInt8)).length := by
    intro r hr
    obtain rfl := List.mem_singleton.mp hr
    rw [List.length_replicate]
    exact Nat.le_refl 32
  rw [← hstart, reads_encrypted (fun _ block => block) (MemoryBuffer.create 32) (by decide)
    (show encryptedDb.row (lit "blobs") 1 = some encryptedBlob from rfl) rfl [(1, 31)] 3 0 hwithin]
  intro h
  rw [InStep, if_pos (by decide)] at h
  exact absurd (h.1 0 (by decide)) (by decide)

end Zway.Ubj.Store
