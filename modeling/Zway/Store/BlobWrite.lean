import Zway.Store.BlobProof

/-!
# Writing blobs

`Store::writeBlob` may stop at any call. Whatever it gets done, only one row changes, and
of that row only the beginning of the data: `writeBlob_readBack`.
-/

namespace Zway.Ubj.Store

open Sql

/-! ## Only one row changes -/

/-- `db'` is `db` with another row in one place. -/
structure RowSet (db : Db) (table : Bytes) (id : BitVec 64) (row : Option Row) (db' : Db) :
    Prop where
  /-- The same calls will fail. -/
  succeeds : db'.succeeds = db.succeeds
  blobTable : HasBlobTable db' table
  row : db'.row table id = row
  others : ∀ id', id' ≠ id → db'.row table id' = db.row table id'

section

variable {db db' db'' : Db} {table : Bytes} {id : BitVec 64} {row row' : Option Row}

theorem RowSet.trans (h : RowSet db table id row db') (h' : RowSet db' table id row' db'') :
    RowSet db table id row' db'' where
  succeeds := h'.succeeds.trans h.succeeds
  blobTable := h'.blobTable
  row := h'.row
  others := fun id' hne => (h'.others id' hne).trans (h.others id' hne)

theorem RowSet.after (htable : HasBlobTable db table) (id : BitVec 64) (calls : Nat) :
    RowSet db table id (db.row table id) (db.after calls) where
  succeeds := rfl
  blobTable := htable.after calls
  row := rfl
  others := fun _ _ => rfl

theorem RowSet.modified (htable : HasBlobTable db table) (id : BitVec 64) (f : Row → Row)
    (calls : Nat) :
    RowSet db table id ((db.row table id).map f) (db.modified table id f calls) where
  succeeds := rfl
  blobTable := htable.modified id f calls
  row := Db.row_modified ..
  others := fun _ hne => Db.row_modified_of_ne db table hne f calls

end

/-! ## The data column -/

/-- The row with other data. -/
def setData (row : Row) (data : Bytes) : Row :=
  Function.update row (lit "data") ((row (lit "data")).setBytes data)

section

variable {row : Row} {data : Bytes}

theorem dataOf_setData {old : Bytes} (h : dataOf row = some old) (data : Bytes) :
    dataOf (setData row data) = some data := by
  unfold dataOf setData at *
  rw [Function.update_self]
  cases hv : row (lit "data") with
  | text s => rfl
  | blob d => rfl
  | null => rw [hv] at h; cases h
  | integer i => rw [hv] at h; cases h
  | real bits => rw [hv] at h; cases h

theorem setData_of_ne (row : Row) (data : Bytes) {column : Bytes} (h : column ≠ lit "data") :
    setData row data column = row column := Function.update_of_ne h ..

theorem setData_setData (row : Row) (data data' : Bytes) :
    setData (setData row data) data' = setData row data' := by
  have hbytes : ((row (lit "data")).setBytes data).setBytes data'
      = (row (lit "data")).setBytes data' := by
    cases row (lit "data") <;> rfl
  unfold setData
  rw [Function.update_self, Function.update_idem, hbytes]

/-- The same data again. -/
theorem setData_dataOf (h : dataOf row = some data) : setData row data = row := by
  have hbytes : (row (lit "data")).setBytes data = row (lit "data") := by
    unfold dataOf at h
    cases hv : row (lit "data") with
    | text s => rw [hv] at h; exact congrArg Val.text (Option.some.inj h).symm
    | blob d => rw [hv] at h; exact congrArg Val.blob (Option.some.inj h).symm
    | null => rw [hv] at h; cases h
    | integer i => rw [hv] at h; cases h
    | real bits => rw [hv] at h; cases h
  unfold setData
  rw [hbytes, Function.update_eq_self]

/-- The other columns say how the data are to be read. -/
theorem info_setData (row : Row) (data : Bytes) : info (setData row data) = info row := by
  unfold info
  rw [setData_of_ne row data (by decide), setData_of_ne row data (by decide),
    setData_of_ne row data (by decide)]

theorem overwriteRow_eq (h : dataOf row = some data) (offset : Nat) (bs : Bytes) :
    Db.overwriteRow (lit "data") offset bs row = setData row (overwrite data offset bs) := by
  unfold Db.overwriteRow setData
  rw [show (row (lit "data")).bytes = some data from h]
  rfl

end

section

variable (sqlite : Behaviour) (behind : BitVec 32) (aes_encrypt : Bytes → Bytes → Bytes)
  (key : MemoryBuffer)

/-! ## What a row reads as -/

/-- The size of a row is no more than there is. -/
def Fits (row : Row) (data : Bytes) : Prop :=
  (sizeOf row).toNat < 2 ^ 31 ∧ (sizeOf row).toNat ≤ data.length

instance (row : Row) (data : Bytes) : Decidable (Fits row data) :=
  inferInstanceAs (Decidable (_ ∧ _))

/-- The cipher of a row, which is its own inverse. -/
def crypt (row : Row) (bs : Bytes) : Bytes :=
  if modeOf row then ((blobOf key [] 0 row).aes.ctr_crypt aes_encrypt bs).2 else bs

theorem crypt_length (row : Row) (bs : Bytes) : (crypt aes_encrypt key row bs).length = bs.length := by
  unfold crypt
  by_cases h : modeOf row = true
  · rw [if_pos h]
    exact Ctr.crypt_length ..
  · rw [if_neg h]

theorem crypt_crypt (row : Row) (bs : Bytes) :
    crypt aes_encrypt key row (crypt aes_encrypt key row bs) = bs := by
  unfold crypt
  by_cases h : modeOf row = true
  · rw [if_pos h, if_pos h, AES.ctr_crypt_ctr_crypt]
  · rw [if_neg h, if_neg h]

/-- Byte by byte. -/
theorem crypt_take (row : Row) (bs : Bytes) (k : Nat) :
    crypt aes_encrypt key row (bs.take k) = (crypt aes_encrypt key row bs).take k := by
  unfold crypt
  by_cases h : modeOf row = true
  · rw [if_pos h, if_pos h]
    exact (Ctr.take_xorFrom ..).symm
  · rw [if_neg h, if_neg h]

theorem crypt_overwrite (row : Row) (bs cs : Bytes) :
    crypt aes_encrypt key row (overwrite bs 0 cs)
      = overwrite (crypt aes_encrypt key row bs) 0 (crypt aes_encrypt key row cs) := by
  unfold crypt
  by_cases h : modeOf row = true
  · rw [if_pos h, if_pos h, if_pos h]
    exact Ctr.xorFrom_overwrite ..
  · rw [if_neg h, if_neg h, if_neg h]

/-- **What is read from a row whose size fits.** -/
theorem contents_of_fits {row : Row} {data : Bytes} (hdata : dataOf row = some data)
    (hfits : Fits row data) :
    (contents aes_encrypt key row).map (·.data)
      = some (crypt aes_encrypt key row (data.take (sizeOf row).toNat)) := by
  have hlen : (data.take (sizeOf row).toNat).length = (sizeOf row).toNat := by
    rw [List.length_take]
    exact Nat.min_eq_left hfits.2
  have hcrypt := crypt_length aes_encrypt key row (data.take (sizeOf row).toNat)
  unfold contents
  rw [hdata]
  dsimp only [Option.map_some]
  rw [if_pos (show _ ∧ _ from hfits)]
  by_cases hmode : modeOf row = true
  · have hdec := AES.decrypt_noCallback aes_encrypt (Nat.le_of_eq hlen.symm) (blobOf key [] 0 row).aes
    rw [List.take_of_length_le (Nat.le_of_eq hlen)] at hdec
    unfold crypt at hcrypt ⊢
    rw [if_pos hmode] at hcrypt ⊢
    rw [if_pos hmode, hdec]
    rw [overwrite_all hcrypt, MemoryBuffer.create_blit_data (hcrypt.trans hlen)]
  · unfold crypt
    rw [if_neg hmode, if_neg hmode, MemoryBuffer.create_blit_data hlen]

/-- Otherwise there are zeros. -/
theorem contents_of_not_fits {row : Row} {data : Bytes} (hdata : dataOf row = some data)
    (hfits : ¬ Fits row data) :
    (contents aes_encrypt key row).map (·.data)
      = some (MemoryBuffer.create (sizeOf row)).data := by
  unfold contents
  rw [hdata]
  dsimp only [Option.map_some]
  rw [if_neg (show ¬ (_ ∧ _) from hfits)]
  exact congrArg some (overwrite_nil ..)

/-- The cipher does not look at the data. -/
theorem crypt_setData (row : Row) (data bs : Bytes) :
    crypt aes_encrypt key (setData row data) bs = crypt aes_encrypt key row bs := by
  unfold crypt
  have hmode : modeOf (setData row data) = modeOf row :=
    congrArg (fun i => (field i (lit "mode")).toInt != 0) (info_setData row data)
  have hblob : blobOf key [] 0 (setData row data) = blobOf key [] 0 row := by
    unfold blobOf modeOf sizeOf saltOf
    rw [info_setData]
  rw [hmode, hblob]

theorem sizeOf_setData (row : Row) (data : Bytes) : sizeOf (setData row data) = sizeOf row := by
  unfold sizeOf
  rw [info_setData]

theorem Fits.setData {row : Row} {old data : Bytes} (h : Fits row old)
    (hlen : data.length = old.length) : Fits (setData row data) data := by
  unfold Fits at *
  rw [sizeOf_setData, hlen]
  exact h

/-- **After a write to the beginning of the data** the first bytes are read as those that were
written, and the others as before. -/
theorem contents_setData {row : Row} {old : Bytes} (hdata : dataOf row = some old)
    (hfits : Fits row old) (bs : Bytes) :
    (contents aes_encrypt key
        (setData row (overwrite old 0 (crypt aes_encrypt key row bs)))).map (·.data)
      = ((contents aes_encrypt key row).map (·.data)).map (overwrite · 0 bs) := by
  have hnew := dataOf_setData hdata
    (overwrite old 0 (crypt aes_encrypt key row bs))
  have hfits' := hfits.setData (overwrite_length old 0 (crypt aes_encrypt key row bs))
  rw [contents_of_fits aes_encrypt key hnew hfits', contents_of_fits aes_encrypt key hdata hfits, sizeOf_setData, crypt_setData,
    take_overwrite_zero _ hfits.2, crypt_overwrite, crypt_crypt]
  rfl

/-- What `Store::getBlobData` reads from a row, if there is one. -/
def readBack (row : Option Row) : Option Bytes := (row.bind (contents aes_encrypt key)).map (·.data)

end

/-! ## A write -/

section

variable {db : Db} {table : Bytes} {id : BitVec 64} {row : Row} {old : Bytes}

/-- One write into the data of a row. -/
theorem blobWrite_eq (hrow : db.row table id = some row) (hdata : dataOf row = some old)
    (bs : Bytes) (offset : UInt32) :
    db.blobWrite table (lit "data") id bs offset =
      if db.ok ∧ bs.length < 2 ^ 31 ∧ offset.toNat + bs.length ≤ old.length then
        (true, db.modified table id (Db.overwriteRow (lit "data") offset.toNat bs) (db.calls + 1))
      else (false, db.after (db.calls + 1)) := by
  obtain ⟨t, ht, -⟩ := Option.bind_eq_some_iff.mp hrow
  have hvalue : (db.value table (lit "data") id).bind Val.bytes = some old := by
    rw [Db.value_eq, hrow]
    exact hdata
  unfold Db.blobWrite
  rw [ht, hvalue]
  dsimp only
  by_cases hok : db.ok ∧ bs.length < 2 ^ 31 ∧ offset.toNat + bs.length ≤ old.length
  · rw [if_pos hok, if_pos hok]
    unfold Db.modified
    rw [ht]
    rfl
  · rw [if_neg hok, if_neg hok]
    rfl

/-- What a write that succeeds leaves, if it goes on where the last one stopped. -/
theorem RowSet.write {db' : Db} {text : Bytes} {n k : Nat}
    (hold : dataOf row = some old)
    (h : RowSet db table id (some (setData row (overwrite old 0 (text.take n)))) db')
    (hn : n ≤ text.length) (hk : n + k ≤ text.length) (hroom : n + k ≤ old.length) :
    RowSet db table id (some (setData row (overwrite old 0 (text.take (n + k)))))
      (db'.modified table id (Db.overwriteRow (lit "data") n ((text.drop n).take k))
        (db'.calls + 1)) := by
  have hlen : (text.take n).length = n := by
    rw [List.length_take]
    exact Nat.min_eq_left hn
  have hpiece : ((text.drop n).take k).length = k := by
    rw [List.length_take, List.length_drop]
    omega
  have hcur := dataOf_setData hold (overwrite old 0 (text.take n))
  have hjoin := @overwrite_append _ old (text.take n) ((text.drop n).take k) 0 (by
    rw [hlen, hpiece]
    omega)
  rw [hlen, Nat.zero_add, ← List.take_add] at hjoin
  have hset := h.trans (RowSet.modified h.blobTable id
    (Db.overwriteRow (lit "data") n ((text.drop n).take k)) (db'.calls + 1))
  rw [h.row] at hset
  simp only [Option.map_some] at hset
  rw [overwriteRow_eq hcur, setData_setData, hjoin] at hset
  exact hset

end

/-- How many of `size` bytes `Blob::write` writes piece by piece, after `done` of them, until a call
fails or there is no more room. -/
def writtenPieces (succeeds : Nat → Bool) (room : Nat) (size done : UInt32) (calls : Nat) : Nat :=
  if done < size then
    if succeeds calls ∧ (done + AES.chunkSize size done).toNat ≤ room then
      writtenPieces succeeds room size (done + AES.chunkSize size done) (calls + 1)
    else done.toNat
  else size.toNat
termination_by size.toNat - done.toNat
decreasing_by
  have h : done < size := ‹_›
  have hlt := UInt32.lt_iff_toNat_lt.mp h
  rw [AES.add_chunkSize_toNat h]
  omega

/-- How many bytes `Blob::write` writes into a row. -/
def written (db : Db) (row : Row) (size : UInt32) : Nat :=
  let room := ((dataOf row).getD []).length
  if modeOf row then writtenPieces db.succeeds room size 0 db.calls
  else if db.ok ∧ size.toNat < 2 ^ 31 ∧ size.toNat ≤ room then size.toNat else 0

section

variable {db : Db} {table : Bytes} {id : BitVec 64} {row : Row} {old : Bytes}

/-- The callback of `Blob::write`, on the pieces of a text. -/
theorem shown_writeChunk (hold : dataOf row = some old) {b : Blob} (htable : b.table = table)
    (hid : b.id = id) {text : Bytes} {size n : UInt32} (hsize : size.toNat = text.length)
    (hn : n ≤ size) {db' : Db}
    (h : RowSet db table id (some (setData row (overwrite old 0 (text.take n.toNat)))) db') :
    RowSet db table id (some (setData row (overwrite old 0
        (text.take (writtenPieces db.succeeds old.length size n db'.calls)))))
      (AES.shown (b.writeChunk 0) text size n db').2 := by
  generalize hm : size.toNat - n.toNat = m
  induction m using Nat.strong_induction_on generalizing n db' with
  | _ m ih =>
    have hle := UInt32.le_iff_toNat_le.mp hn
    rw [writtenPieces, AES.shown]
    by_cases hlt : n < size
    · have hnat := UInt32.lt_iff_toNat_lt.mp hlt
      have hk := AES.chunkSize_toNat hlt
      have hnk := AES.add_chunkSize_toNat hlt
      have hcur := dataOf_setData hold
        (overwrite old 0 (text.take n.toNat))
      -- the piece, and where it goes
      generalize hpiece : (text.drop n.toNat).take (AES.chunkSize size n).toNat = piece
      have hlen : piece.length = (AES.chunkSize size n).toNat := by
        rw [← hpiece, List.length_take, List.length_drop]
        omega
      have hoffset : 0 + (n + AES.chunkSize size n) - AES.chunkSize size n = n := by
        rw [UInt32.zero_add, UInt32.add_sub_cancel]
      have hwrite : b.writeChunk 0 piece (AES.chunkSize size n) (n + AES.chunkSize size n) size db'
          = db'.blobWrite table (lit "data") id piece n := by
        unfold Blob.writeChunk
        rw [hoffset, List.take_of_length_le (Nat.le_of_eq hlen), htable, hid]
      rw [if_pos hlt, if_pos hlt]
      dsimp only
      rw [hpiece, hwrite, blobWrite_eq h.row hcur, overwrite_length, hlen]
      by_cases hok : db.succeeds db'.calls = true ∧ (n + AES.chunkSize size n).toNat ≤ old.length
      · have hroom : n.toNat + (AES.chunkSize size n).toNat ≤ old.length := by
          have := hok.2
          omega
        have hall : db'.ok = true ∧ (AES.chunkSize size n).toNat < 2 ^ 31
            ∧ n.toNat + (AES.chunkSize size n).toNat ≤ old.length := by
          refine ⟨?_, by omega, hroom⟩
          unfold Db.ok
          rw [h.succeeds]
          exact hok.1
        have hnext := h.write hold (k := (AES.chunkSize size n).toNat) (by omega) (by omega) hroom
        rw [show n.toNat + (AES.chunkSize size n).toNat = (n + AES.chunkSize size n).toNat by omega,
          hpiece] at hnext
        rw [if_pos hok, if_pos hall]
        exact ih _ (by omega) (by rw [UInt32.le_iff_toNat_le]; omega) hnext rfl
      · have hnot : ¬ (db'.ok = true ∧ (AES.chunkSize size n).toNat < 2 ^ 31
            ∧ n.toNat + (AES.chunkSize size n).toNat ≤ old.length) := by
          rintro ⟨hcall, -, hroom⟩
          refine hok ⟨?_, by omega⟩
          rw [← h.succeeds]
          exact hcall
        rw [if_neg hok, if_neg hnot]
        have hafter := h.trans (RowSet.after h.blobTable id (db'.calls + 1))
        rw [h.row] at hafter
        exact hafter
    · have heq : n = size := UInt32.le_antisymm hn (UInt32.not_lt.mp hlt)
      rw [if_neg hlt, if_neg hlt]
      rw [heq] at h
      exact h

end

section

variable (sqlite : Behaviour) (behind : BitVec 32) (aes_encrypt : Bytes → Bytes → Bytes)
  (key : MemoryBuffer) {db : Db} {table : Bytes} {id : BitVec 64} {row : Row} {old : Bytes}

theorem size_toNat (data : MemoryBuffer) : (UInt32.ofNat data.size).toNat = data.size :=
  UInt32.toNat_ofNat_of_lt' data.size_lt

/-- `Blob::write` of a whole buffer. -/
theorem RowSet.blobWrite (htable : HasBlobTable db table) (hrow : db.row table id = some row)
    (hold : dataOf row = some old) (data : MemoryBuffer) :
    RowSet db table id (some (setData row (overwrite old 0
        ((crypt aes_encrypt key row data.data).take (written db row (UInt32.ofNat data.size))))))
      ((blobOf key table id row).write aes_encrypt db data.data (UInt32.ofNat data.size) 0).2.2 := by
  have hsize := size_toNat data
  have hsame := RowSet.after htable id db.calls
  rw [hrow] at hsame
  unfold Blob.write written
  rw [hold]
  by_cases hmode : modeOf row = true
  · have htext : (crypt aes_encrypt key row data.data).length = data.size := crypt_length ..
    have hall : data.data.take (UInt32.ofNat data.size).toNat = data.data := by
      rw [hsize]
      exact List.take_length ..
    have hcrypt : ((blobOf key table id row).aes.ctr_crypt aes_encrypt data.data).2
        = crypt aes_encrypt key row data.data := by
      unfold crypt
      rw [if_pos hmode]
      rfl
    obtain ⟨a', out, hrun, -⟩ := AES.encrypt_shown aes_encrypt
      ((blobOf key table id row).writeChunk 0) (Nat.le_of_eq hsize) (blobOf key table id row).aes db
    rw [hall, hcrypt] at hrun
    have hstart : RowSet db table id
        (some (setData row (overwrite old 0
          ((crypt aes_encrypt key row data.data).take (0 : UInt32).toNat)))) db := by
      rw [show (0 : UInt32).toNat = 0 from rfl, List.take_zero, overwrite_nil, setData_dataOf hold]
      exact hsame
    rw [if_pos hmode, if_pos (show (blobOf key table id row).mode = true from hmode), hrun]
    exact shown_writeChunk hold (b := blobOf key table id row) rfl rfl (hsize.trans htext.symm) (UInt32.zero_le ..) hstart
  · have hcrypt : crypt aes_encrypt key row data.data = data.data := if_neg hmode
    have hwrite : db.blobWrite table (lit "data") id data.data 0 =
        if db.ok = true ∧ data.size < 2 ^ 31 ∧ data.size ≤ old.length then
          (true, db.modified table id (Db.overwriteRow (lit "data") 0 data.data) (db.calls + 1))
        else (false, db.after (db.calls + 1)) := by
      have h := blobWrite_eq hrow hold data.data 0
      rw [show (0 : UInt32).toNat = 0 from rfl, Nat.zero_add] at h
      exact h
    have hall : data.data.take (UInt32.ofNat data.size).toNat = data.data := by
      rw [hsize]
      exact List.take_length ..
    rw [if_neg hmode, if_neg (show ¬ (blobOf key table id row).mode = true from hmode), hcrypt]
    show RowSet db table id _ (db.blobWrite table (lit "data") id _ 0).2
    rw [hall, hwrite, Option.getD_some, hsize]
    by_cases hok : db.ok = true ∧ data.size < 2 ^ 31 ∧ data.size ≤ old.length
    · have hset := RowSet.modified htable id (Db.overwriteRow (lit "data") 0 data.data)
        (db.calls + 1)
      rw [hrow] at hset
      simp only [Option.map_some] at hset
      rw [overwriteRow_eq hold] at hset
      rw [if_pos hok, if_pos hok, show data.data.take data.size = data.data from List.take_length ..]
      exact hset
    · rw [if_neg hok, if_neg hok, List.take_zero, overwrite_nil, setData_dataOf hold, ← hrow]
      exact RowSet.after htable id _

/-- How many of the bytes that `Store::writeBlob` is given are read from a row afterwards. -/
def reaching (db : Db) (row : Option Row) (size : UInt32) : Nat :=
  match row with
  | none => 0
  | some row =>
      if opens db ∧ Fits row ((dataOf row).getD []) then
        written (db.after (db.calls + 3)) row size
      else 0

/-- It depends on which calls fail, and on no other row. -/
theorem reaching_congr {db db' : Db} (hsucceeds : db'.succeeds = db.succeeds)
    (hcalls : db'.calls = db.calls) (row : Option Row) (size : UInt32) :
    reaching db' row size = reaching db row size := by
  obtain ⟨tables, succeeds, calls⟩ := db
  obtain ⟨tables', succeeds', calls'⟩ := db'
  subst hsucceeds hcalls
  rfl

/-- **What comes of `Store::writeBlob`.** As many bytes are read as written as reach the row, and
behind them what was there before. -/
theorem writeBlob_readBack (htable : HasBlobTable db table) (id : BitVec 64)
    (data : MemoryBuffer) :
    ∃ row', RowSet db table id row' (writeBlob sqlite behind aes_encrypt key db table id data)
      ∧ readBack aes_encrypt key row' = (readBack aes_encrypt key (db.row table id)).map
          (overwrite · 0 (data.data.take
            (reaching db (db.row table id) (UInt32.ofNat data.size)))) := by
  unfold writeBlob reaching
  by_cases hopen : opens db = true ∧ ((db.row table id).bind dataOf).isSome = true
  · obtain ⟨hopens, hsome⟩ := hopen
    obtain ⟨old, hdata⟩ := Option.isSome_iff_exists.mp hsome
    obtain ⟨row, hrow, hold⟩ := Option.bind_eq_some_iff.mp hdata
    rw [openBlob_some sqlite behind key htable hopens hrow hold, hrow]
    have hset := RowSet.blobWrite aes_encrypt key (htable.after (db.calls + 3)) hrow hold data
    refine ⟨_, RowSet.trans (RowSet.after htable id _) hset, ?_⟩
    dsimp only
    rw [hold, Option.getD_some]
    unfold readBack
    rw [Option.bind_some, Option.bind_some]
    generalize written (db.after (db.calls + 3)) row (UInt32.ofNat data.size) = k
    by_cases hfits : Fits row old
    · rw [if_pos ⟨hopens, hfits⟩, ← crypt_take]
      exact contents_setData aes_encrypt key hold hfits _
    · have hnew := dataOf_setData hold
        (overwrite old 0 ((crypt aes_encrypt key row data.data).take k))
      have hnot : ¬ Fits (setData row (overwrite old 0
          ((crypt aes_encrypt key row data.data).take k)))
          (overwrite old 0 ((crypt aes_encrypt key row data.data).take k)) := by
        unfold Fits
        rw [sizeOf_setData, overwrite_length]
        exact hfits
      rw [if_neg (fun h => hfits h.2), contents_of_not_fits aes_encrypt key hnew hnot,
        contents_of_not_fits aes_encrypt key hold hfits, sizeOf_setData, List.take_zero,
        Option.map_some, overwrite_nil]
  · have hnone : opens db = true → (db.row table id).bind dataOf = none := by
      intro hopens
      by_contra hne
      exact hopen ⟨hopens, Option.isSome_iff_ne_none.mpr hne⟩
    obtain ⟨calls, hopenBlob⟩ := openBlob_none sqlite behind key htable hnone
    rw [hopenBlob]
    refine ⟨_, RowSet.after htable id calls, ?_⟩
    cases hrow : db.row table id with
    | none => rfl
    | some row =>
      rw [hrow] at hopen
      dsimp only
      by_cases hread : opens db = true ∧ Fits row ((dataOf row).getD [])
      · -- nothing is read from a row without data
        have hdata : dataOf row = none := by
          by_contra hne
          exact hopen ⟨hread.1, Option.isSome_iff_ne_none.mpr hne⟩
        have hcontents : contents aes_encrypt key row = none := by
          unfold contents
          rw [hdata]
          rfl
        unfold readBack
        rw [Option.bind_some, hcontents]
        rfl
      · rw [if_neg hread, List.take_zero]
        simp only [overwrite_nil]
        rw [Option.map_id']

end

end Zway.Ubj.Store
