import Zway.Store.Creation

/-!
# What a call on a blob table leaves alone

Every statement is about one table, and incremental I/O is too. So whatever a call on a
blob does, and whichever of its calls fails, the other tables are what they were. And
opening a file adds to it only what is missing: `openFile_kept`.
-/

namespace Zway

namespace AES

variable {σ : Type} (callback : Bytes → (bytes total size : UInt32) → σ → Bool × σ)

/-- What a callback keeps, showing it a text keeps. -/
theorem shown_keeps (Keeps : σ → Prop) {size : UInt32}
    (hcallback : ∀ data bytes total st, Keeps st → Keeps (callback data bytes total size st).2)
    (text : Bytes) {n : UInt32} {st : σ} (h : Keeps st) :
    Keeps (shown callback text size n st).2 := by
  generalize hm : size.toNat - n.toNat = m
  induction m using Nat.strong_induction_on generalizing n st with
  | _ m ih =>
    rw [shown]
    by_cases hlt : n < size
    · have hnat := UInt32.lt_iff_toNat_lt.mp hlt
      have hadd := add_chunkSize_toNat hlt
      have hstep := hcallback ((text.drop n.toNat).take (chunkSize size n).toNat) (chunkSize size n)
        (n + chunkSize size n) st h
      rw [if_pos hlt]
      dsimp only
      generalize callback ((text.drop n.toNat).take (chunkSize size n).toNat) (chunkSize size n)
        (n + chunkSize size n) size st = r at hstep
      obtain ⟨_ | _, st'⟩ := r
      · exact hstep
      · exact ih _ (by omega) hstep rfl
    · rw [if_neg hlt]
      exact h

end AES

namespace Ubj.Store

open Sql

/-- `db'` is `db` but for one table. -/
structure Elsewhere (db : Db) (table : Bytes) (db' : Db) : Prop where
  succeeds : db'.succeeds = db.succeeds
  tables : ∀ other, other ≠ table → db'.tables other = db.tables other

section

variable {db db' db'' : Db} {table : Bytes}

theorem Elsewhere.refl (db : Db) (table : Bytes) : Elsewhere db table db := ⟨rfl, fun _ _ => rfl⟩

theorem Elsewhere.trans (h : Elsewhere db table db') (h' : Elsewhere db' table db'') :
    Elsewhere db table db'' where
  succeeds := h'.succeeds.trans h.succeeds
  tables := fun other hne => (h'.tables other hne).trans (h.tables other hne)

/-- A call that changes nothing. -/
theorem Elsewhere.called (db : Db) (table : Bytes) : Elsewhere db table (db.called db.tables) :=
  ⟨rfl, fun _ _ => rfl⟩

end

/-! ## Statements -/

section

variable (sqlite : Behaviour) (behind : BitVec 32) (db : Db) {table : Bytes}

/-- A statement changes its own table. -/
theorem exec_others {tables : Tables} {stmt : Stmt} {vals : List Val} {o : Outcome}
    (h : exec sqlite tables stmt vals = some o) {other : Bytes} (hne : other ≠ stmt.table) :
    o.tables other = tables other := by
  cases stmt with
  | insert table columns =>
    obtain ⟨t, -, hnew⟩ := Option.bind_eq_some_iff.mp h
    obtain ⟨id, -, rfl⟩ := Option.map_eq_some_iff.mp hnew
    exact Function.update_of_ne hne ..
  | update table columns cond =>
    obtain ⟨t, -, rfl⟩ := Option.map_eq_some_iff.mp h
    exact Function.update_of_ne hne ..
  | delete table cond =>
    obtain ⟨t, -, rfl⟩ := Option.map_eq_some_iff.mp h
    exact Function.update_of_ne hne ..
  | select columns table cond =>
    obtain ⟨t, -, rfl⟩ := Option.map_eq_some_iff.mp h
    rfl
  | count table cond =>
    obtain ⟨t, -, rfl⟩ := Option.map_eq_some_iff.mp h
    rfl

theorem step_elsewhere (stmt : Stmt) (params : List Param) :
    Elsewhere db stmt.table (db.step sqlite stmt params).2 := by
  unfold Db.step
  cases hexec : (if db.ok then (params.mapM (Param.val sqlite)).bind (exec sqlite db.tables stmt)
      else none) with
  | none => exact .called db _
  | some o =>
    refine ⟨rfl, fun other hne => ?_⟩
    by_cases hok : db.ok = true
    · rw [if_pos hok] at hexec
      obtain ⟨vals, -, hrun⟩ := Option.bind_eq_some_iff.mp hexec
      exact exec_others sqlite hrun hne
    · rw [if_neg hok] at hexec
      cases hexec

/-- An action whose text is a statement about a table. -/
theorem runAction_elsewhere {sql : Part} {stmt : Stmt} (hparse : parse (tokens sql.1) = some stmt)
    (htable : stmt.table = table) (vtab : Bool) :
    Elsewhere db table (runAction sqlite behind vtab db sql).2 := by
  unfold runAction Db.prepare
  rw [hparse]
  cases hstmt : (if db.ok then (some stmt).bind (Stmt.resolve db.tables) else none) with
  | none => exact .called db table
  | some stmt' =>
    have hsame : stmt'.table = table := by
      by_cases hok : db.ok = true
      · rw [if_pos hok] at hstmt
        exact (Stmt.resolve_table hstmt).trans htable
      · rw [if_neg hok] at hstmt
        cases hstmt
    subst hsame
    exact (Elsewhere.called db _).trans (step_elsewhere sqlite _ stmt' _)

variable (hname : isName table = true)
include hname

theorem insert_elsewhere {obj : Object} (h : Named obj) (hne : obj ≠ []) :
    Elsewhere db table (insert sqlite behind db table obj).2 := by
  have hrun := runAction_elsewhere sqlite behind db (parse_insert hname h hne) rfl false
  unfold insert
  generalize runAction sqlite behind false db (InsertAction.sql table obj) = r at hrun
  obtain ⟨_ | o, db'⟩ := r
  · exact hrun
  · exact hrun

theorem update_elsewhere {obj : Object} (h : Named obj) (hne : obj ≠ []) (id : BitVec 64) :
    Elsewhere db table (update sqlite behind db table obj [(lit "rowid", .int64 id)]).2 := by
  have hrun := runAction_elsewhere sqlite behind db
    (parse_update hname h hne (parseWhere_rowid id obj.length)) rfl false
  unfold update
  generalize runAction sqlite behind false db (UpdateAction.sql table obj
    [(lit "rowid", .int64 id)]) = r at hrun
  obtain ⟨_ | o, db'⟩ := r
  · exact hrun
  · exact hrun

theorem removeBlob_elsewhere (id : BitVec 64) :
    Elsewhere db table (removeBlob sqlite behind db table id).2 := by
  have hrun := runAction_elsewhere sqlite behind db (parse_remove hname (parseWhere_rowid id 0)) rfl
    false
  unfold removeBlob remove
  generalize runAction sqlite behind false db (RemoveAction.sql table [(lit "rowid", .int64 id)])
    = r at hrun
  obtain ⟨_ | o, db'⟩ := r
  · exact hrun
  · exact hrun

theorem getBlobInfo_elsewhere (id : BitVec 64) :
    Elsewhere db table (getBlobInfo sqlite behind db table id).2 := by
  have hnames : ∀ c ∈ [lit "mode", lit "size", lit "salt"], isName c = true := by decide
  have hrun := runAction_elsewhere sqlite behind db
    (parse_query hname hnames (List.cons_ne_nil _ _) (parseWhere_rowid id 0)) rfl false
  unfold getBlobInfo
  generalize runAction sqlite behind false db (QueryAction.sql table [(lit "rowid", .int64 id)] []
    [lit "mode", lit "size", lit "salt"] 0 0) = r at hrun
  obtain ⟨_ | o, db'⟩ := r
  · exact hrun
  · exact hrun

end

/-! ## Incremental I/O -/

section

variable (sqlite : Behaviour) (behind : BitVec 32) (aes_encrypt : Bytes → Bytes → Bytes)
  (key : MemoryBuffer) (db : Db) {table : Bytes}

omit sqlite behind aes_encrypt key in
theorem blobWrite_elsewhere (column : Bytes) (id : BitVec 64) (data : Bytes) (offset : UInt32) :
    Elsewhere db table (db.blobWrite table column id data offset).2 := by
  unfold Db.blobWrite
  split
  · split
    · exact ⟨rfl, fun other hne => Function.update_of_ne hne ..⟩
    · exact .called db table
  · exact .called db table

/-- `Blob::write`, piece by piece or at once. -/
theorem Blob.write_elsewhere (b : Blob) (data : MemoryBuffer) (offset : UInt32) :
    Elsewhere db b.table (b.write aes_encrypt db data.data (UInt32.ofNat data.size) offset).2.2 := by
  unfold Blob.write
  by_cases hmode : b.mode = true
  · obtain ⟨a', out, hrun, -⟩ := AES.encrypt_shown aes_encrypt (b.writeChunk offset)
      (Nat.le_of_eq (size_toNat data)) b.aes db
    rw [if_pos hmode, hrun]
    refine AES.shown_keeps (b.writeChunk offset) (Elsewhere db b.table) ?_ _ (.refl db b.table)
    intro piece bytes total st hst
    exact hst.trans (blobWrite_elsewhere st (lit "data") b.id _ _)
  · rw [if_neg hmode]
    exact blobWrite_elsewhere db (lit "data") b.id _ offset

variable (hname : isName table = true)
include hname

/-- What is opened is a blob of the table. -/
theorem openBlob_elsewhere (id : BitVec 64) :
    Elsewhere db table (openBlob sqlite behind key db table id).2
      ∧ ∀ b, (openBlob sqlite behind key db table id).1 = some b → b.table = table := by
  have hinfo := getBlobInfo_elsewhere sqlite behind db hname id
  unfold openBlob
  generalize getBlobInfo sqlite behind db table id = r at hinfo
  obtain ⟨_ | info, db'⟩ := r
  · exact ⟨hinfo, fun b hb => absurd hb (Option.some_ne_none b).symm⟩
  · have hopen : Elsewhere db' table (db'.blobOpen table (lit "data") id).2 := .called db' table
    dsimp only
    generalize db'.blobOpen table (lit "data") id = o at hopen
    obtain ⟨_ | _, db''⟩ := o
    · exact ⟨hinfo.trans hopen, fun b hb => absurd hb (Option.some_ne_none b).symm⟩
    · refine ⟨hinfo.trans hopen, fun b hb => ?_⟩
      obtain rfl := Option.some.inj hb
      rfl

theorem writeBlob_elsewhere (id : BitVec 64) (data : MemoryBuffer) :
    Elsewhere db table (writeBlob sqlite behind aes_encrypt key db table id data) := by
  obtain ⟨hopen, hof⟩ := openBlob_elsewhere sqlite behind key db hname id
  unfold writeBlob
  generalize openBlob sqlite behind key db table id = r at hopen hof
  obtain ⟨_ | b, db'⟩ := r
  · exact hopen
  · have hwrite := Blob.write_elsewhere aes_encrypt db' b data 0
    rw [hof b rfl] at hwrite
    exact hopen.trans hwrite

/-- **`Store::updateBlobData`.** -/
theorem updateBlobData_elsewhere (random : Option SaltBytes) (id : BitVec 64)
    (data : Option MemoryBuffer) (encrypt : Bool) :
    Elsewhere db table
      (updateBlobData sqlite behind aes_encrypt key random db table id data encrypt).2 := by
  have hnamed : ∀ obj : Object, obj.map (·.1) = [lit "data", lit "mode", lit "salt", lit "size"] →
      Named obj := by
    intro obj hkeys f hf
    have hall : ∀ c ∈ [lit "data", lit "mode", lit "salt", lit "size"], isName c = true := by decide
    exact hall f.1 (hkeys ▸ List.mem_map_of_mem hf)
  unfold updateBlobData
  cases data with
  | none => exact .refl db table
  | some data =>
    cases encrypt with
    | false =>
      exact update_elsewhere sqlite behind db hname (hnamed (plainRec data) rfl)
        (List.cons_ne_nil _ _) id
    | true =>
      cases random with
      | none => exact .refl db table
      | some random =>
        have hupdate := update_elsewhere sqlite behind db hname
          (hnamed (encryptedRec data (newSalt random)) rfl) (List.cons_ne_nil _ _) id
        exact hupdate.trans (writeBlob_elsewhere sqlite behind aes_encrypt key _ hname id data)

/-- **`Store::createBlob`.** -/
theorem createBlob_elsewhere (random : Option SaltBytes) (data : MemoryBuffer) (encrypt : Bool) :
    Elsewhere db table
      (createBlob sqlite behind aes_encrypt key random db table (some data) encrypt).2 := by
  have hne : createRec (some data) encrypt ≠ [] := by cases encrypt <;> exact List.cons_ne_nil _ _
  have hinsert := insert_elsewhere sqlite behind db hname
    (createRec_ofBlobTable data encrypt).named hne
  unfold createBlob
  dsimp only
  generalize insert sqlite behind db table (createRec (some data) encrypt) = i at hinsert
  split
  · exact hinsert
  · split
    · have hupdate := hinsert.trans (updateBlobData_elsewhere sqlite behind aes_encrypt key i.2 hname
        random i.1 (some data) encrypt)
      split
      · exact hupdate.trans (removeBlob_elsewhere sqlite behind _ hname i.1)
      · exact hupdate
    · exact hinsert

end

/-! ## Opening a file keeps what is in it -/

section

variable {db db' : Db} {table : Bytes}

theorem Kept.refl (db : Db) : Kept db db := ⟨rfl, fun _ _ ht => ht⟩

theorem Kept.after (db : Db) (calls : Nat) : Kept db (db.after calls) := ⟨rfl, fun _ _ ht => ht⟩

theorem Kept.blobTable (h : Kept db db') (htable : HasBlobTable db table) :
    HasBlobTable db' table := by
  obtain ⟨hname, t, ht, hkey, hcolumns⟩ := htable
  exact ⟨hname, t, h.tables _ t ht, hkey, hcolumns⟩

theorem Kept.row (h : Kept db db') (htable : HasBlobTable db table) (id : BitVec 64) :
    db'.row table id = db.row table id := by
  obtain ⟨t, ht, -, -⟩ := htable.exists_table
  unfold Db.row
  rw [h.tables _ t ht, ht]

end

section

variable {p : Platform} {pbkdf2 : Bytes → Bytes → BytesOf 32} {names : List Bytes}
  {vtabs : List VTab}

/-- However `Store::open` goes on from what it has read. -/
theorem unlock_kept {password : Bytes} {root : Object} {db : Db} (hok : ∀ n, db.succeeds n = true)
    {res : Bool} {store : StoreState} {disk : Disk}
    (h : unlock p pbkdf2 names vtabs password root db = some (res, store, disk)) :
    ∃ db', disk = Disk.of db' ∧ Kept db db' := by
  unfold unlock at h
  by_cases hsizes : bufferSize (field root (lit "key")) = 0 ∨ bufferSize (field root (lit "pwd")) = 0
  · rw [if_pos hsizes] at h
    cases h
    exact ⟨db, rfl, .refl db⟩
  · rw [if_neg hsizes] at h
    obtain ⟨salt, -, h⟩ := Option.bind_eq_some_iff.mp h
    obtain ⟨key, -, h⟩ := Option.bind_eq_some_iff.mp h
    obtain ⟨tmp, -, h⟩ := Option.bind_eq_some_iff.mp h
    dsimp only at h
    split at h
    · cases h
      exact ⟨db, rfl, .refl db⟩
    · have hkept := (creates_createTables p names vtabs db hok).2
      generalize steps (createTables p names vtabs) db = r at h hkept
      obtain ⟨_ | _, db'⟩ := r
      · cases h
        exact ⟨db', rfl, hkept⟩
      · cases h
        exact ⟨db', rfl, hkept⟩

/-- **`Store::open` adds to a file only what is missing**, whatever the password. -/
theorem openFile_kept (hfuel : 60 ≤ p.fuel) {salt : BytesOf 16} {key : BytesOf 32}
    {password : Bytes} {db : Db} (hcreated : Created p pbkdf2 password salt key db)
    (hnames : names.all isName = true) (other : Bytes) :
    ∃ db', Kept db db' ∧ openFile p pbkdf2 names vtabs other (Disk.of db)
      = some ((unlocked p pbkdf2 salt (encryptKeys p.aes_encrypt (pbkdf2 password salt.1).buffer
          key.buffer) other).1, (unlocked p pbkdf2 salt (encryptKeys p.aes_encrypt
            (pbkdf2 password salt.1).buffer key.buffer) other).2, Disk.of db') := by
  have htables := creates_createTables p names vtabs
  rw [hnames] at htables
  obtain ⟨⟨res, store, disk⟩, hopen, hres⟩ := Option.map_eq_some_iff.mp
    (openFile_created p pbkdf2 names vtabs hfuel hcreated htables other)
  rw [← hres]
  suffices hdisk : ∃ db', disk = Disk.of db' ∧ Kept db db' by
    obtain ⟨db', rfl, hkept⟩ := hdisk
    exact ⟨db', hkept, hopen⟩
  have hdb : (Disk.of db).openDb false = some (db.after (db.calls + 1)) := by
    unfold Disk.openDb
    rw [show (Disk.of db).succeeds (Disk.of db).calls = true from hcreated.succeeds _]
    rfl
  have hkept := (((creates_internalBlobTables.cons
    ((creates_internalVTables p).cons creates_nil)) (db.after (db.calls + 1))) hcreated.succeeds).2
  unfold openFile at hopen
  rw [hdb] at hopen
  dsimp only at hopen
  generalize steps [createInternalBlobTables, createInternalVTables p] (db.after (db.calls + 1)) = r
    at hopen hkept
  have hkept' := (Kept.after db (db.calls + 1)).trans hkept
  obtain ⟨_ | _, db₁⟩ := r
  · cases hopen
    exact ⟨db₁, rfl, hkept'⟩
  · have hcreated₁ := hcreated.kept p pbkdf2 hkept'
    obtain ⟨calls, hget⟩ := { p with key := MemoryBuffer.create 0 }.getBlobObject_eq
      hcreated₁.succeeds hcreated₁.blobTable db₁.calls RootNodeId
    change { p with key := MemoryBuffer.create 0 }.getBlobObject db₁ (lit "__main") RootNodeId
      = _ at hget
    have hafter := hkept'.trans (Kept.after db₁ calls)
    dsimp only at hopen
    rw [hget] at hopen
    cases hdoc : { p with key := MemoryBuffer.create 0 }.doc db₁ (lit "__main") RootNodeId with
    | none =>
      rw [hdoc] at hopen
      cases hopen
      exact ⟨db₁.after calls, rfl, hafter⟩
    | some root =>
      rw [hdoc] at hopen
      obtain ⟨db', hdisk, hkept''⟩ := @unlock_kept _ _ _ _ _ _ (db₁.after calls) hcreated₁.succeeds
        _ _ _ hopen
      exact ⟨db', hdisk, hafter.trans hkept''⟩

/-- What is written into a blob of another table leaves the keys. -/
theorem Created.elsewhere {salt : BytesOf 16} {key : BytesOf 32} {db db' : Db}
    {password table : Bytes} (h : Created p pbkdf2 password salt key db)
    (helse : Elsewhere db table db') (hne : lit "__main" ≠ table) :
    Created p pbkdf2 password salt key db' := by
  have hmain := helse.tables (lit "__main") hne
  refine ⟨fun n => (congrFun helse.succeeds n).trans (h.succeeds n), ?_, ?_⟩
  · obtain ⟨hname, t, ht, hcolumns⟩ := h.blobTable
    exact ⟨hname, t, hmain.trans ht, hcolumns⟩
  · have hrow : db'.row (lit "__main") RootNodeId = db.row (lit "__main") RootNodeId := by
      unfold Db.row
      rw [hmain]
    rw [hrow]
    exact h.root

end

end Ubj.Store

end Zway
