import Zway.Store.BlobUpdate

/-!
# Blobs are read as they were written

`Store::createBlob` adds a row, and what it adds or what the update after it leaves
there is what `Store::getBlobData` reads.
-/

namespace Zway.Ubj.Store

open Sql

section

variable (sqlite : Behaviour) (behind : BitVec 32) {db : Db} {table : Bytes}

/-! ## A new row -/

theorem find?_newRowid (t : Table) {id : BitVec 64}
    (h : sqlite.newRowid (t.rows.map (·.1)) = some id) : t.find? id = none := by
  have hnew := sqlite.newRowid_notMem _ _ h
  exact OrdMap.find?_eq_none (fun r hr hid => hnew (hid ▸ List.mem_map_of_mem hr))

/-- What an insertion does. -/
theorem insert_run (htable : HasBlobTable db table) {obj : Object} (h : OfBlobTable obj)
    (hne : obj ≠ []) {vals : List Val}
    (hvals : paramVals sqlite behind (obj.map (·.2)) = some vals) {t : Table}
    (ht : db.tables table = some t) :
    insert sqlite behind db table obj =
      match if acts db then sqlite.newRowid (t.rows.map (·.1)) else none with
      | some id => (id, ⟨Function.update db.tables table (some (t.append id
          (Row.fill (fun _ => .null) (assignmentsOf (obj.map (·.1)) vals)))),
          db.succeeds, db.calls + 2⟩)
      | none => (0, db.after (statementCalls db)) := by
  obtain ⟨t', ht', -, hcolumns⟩ := htable.exists_table
  obtain rfl : t = t' := Option.some.inj (ht.symm.trans ht')
  have hvalid : (Stmt.insert table (obj.map (·.1))).declared db.tables = true := by
    unfold Stmt.declared
    show (db.tables table).any _ = true
    rw [ht]
    show List.all (obj.map (·.1)) t.declares = true
    rw [List.all_eq_true]
    intro c hc
    obtain ⟨p, hp, rfl⟩ := List.mem_map.mp hc
    exact decide_eq_true (.inr (.inr (hcolumns ▸ h p hp)))
  have hrun := runAction_eq sqlite behind (parse_insert htable.name h.named hne) hvalid
  rw [show (InsertAction.sql table obj).2 = obj.map (·.2) from rfl, hvals] at hrun
  unfold insert
  rw [hrun]
  by_cases hacts : acts db = true
  · rw [if_pos hacts, if_pos hacts, Option.bind_some]
    unfold exec
    dsimp only
    rw [ht, Option.bind_some]
    cases sqlite.newRowid (t.rows.map (·.1)) with
    | none => rfl
    | some id => rfl
  · rw [if_neg hacts, if_neg hacts]

/-- What an insertion that reports an id makes of the table. -/
theorem insert_table (htable : HasBlobTable db table) {obj : Object} (h : OfBlobTable obj)
    (hne : obj ≠ []) {vals : List Val}
    (hvals : paramVals sqlite behind (obj.map (·.2)) = some vals) {t : Table}
    (ht : db.tables table = some t) (hid : (insert sqlite behind db table obj).1 ≠ 0) :
    sqlite.newRowid (t.rows.map (·.1)) = some (insert sqlite behind db table obj).1
      ∧ (insert sqlite behind db table obj).2 =
        ⟨Function.update db.tables table (some (t.append (insert sqlite behind db table obj).1
          (Row.fill (fun _ => .null) (assignmentsOf (obj.map (·.1)) vals)))),
          db.succeeds, db.calls + 2⟩ := by
  rw [insert_run sqlite behind htable h hne hvals ht] at hid ⊢
  by_cases hacts : acts db = true
  · rw [if_pos hacts] at hid ⊢
    cases hnew : sqlite.newRowid (t.rows.map (·.1)) with
    | none =>
      rw [hnew] at hid
      exact absurd rfl hid
    | some id => exact ⟨rfl, rfl⟩
  · rw [if_neg hacts] at hid
    exact absurd rfl hid

/-- **An insertion that reports an id** adds a row with that id, and nothing else. -/
theorem insert_eq (htable : HasBlobTable db table) {obj : Object} (h : OfBlobTable obj)
    (hne : obj ≠ []) {vals : List Val}
    (hvals : paramVals sqlite behind (obj.map (·.2)) = some vals)
    (hid : (insert sqlite behind db table obj).1 ≠ 0) :
    RowSet db table (insert sqlite behind db table obj).1
      (some (Row.fill (fun _ => .null) (assignmentsOf (obj.map (·.1)) vals)))
      (insert sqlite behind db table obj).2 := by
  obtain ⟨t, ht, hkey, hcolumns⟩ := htable.exists_table
  obtain ⟨hnew, hdb⟩ := insert_table sqlite behind htable h hne hvals ht hid
  have hnone := find?_newRowid sqlite t hnew
  have hrow : ∀ id', (insert sqlite behind db table obj).2.row table id'
      = if id' = (insert sqlite behind db table obj).1 then some (Row.fill (fun _ => .null)
          (assignmentsOf (obj.map (·.1)) vals)) else t.find? id' := by
    intro id'
    rw [hdb]
    unfold Db.row
    dsimp only
    rw [Function.update_self, Option.bind_some]
    exact Table.find?_append hnone _ id'
  refine ⟨?_, ⟨htable.name, ?_⟩, ?_, ?_⟩
  · rw [hdb]
  · rw [hdb]
    exact ⟨_, Function.update_self .., hkey, hcolumns⟩
  · exact (hrow _).trans (if_pos rfl)
  · intro id' hne'
    have hold : db.row table id' = t.find? id' := by
      unfold Db.row
      rw [ht]
      rfl
    exact (hrow id').trans ((if_neg hne').trans hold.symm)

/-! ## A row less -/

/-- The row with an id, after it is deleted. -/
theorem find?_delete_self (t : Table) (id : BitVec 64) :
    (t.delete (fun id' _ => id' == id)).find? id = none := by
  refine OrdMap.find?_eq_none (fun r hr hid => ?_)
  have hkept : (!(r.1 == id)) = true := (List.mem_filter.mp hr).2
  rw [hid, beq_self_eq_true] at hkept
  cases hkept

/-- Removing a blob: its row is gone, or a call has failed. -/
theorem removeBlob_rowSet (htable : HasBlobTable db table) (id : BitVec 64) :
    RowSet db table id (if acts db then none else db.row table id)
      (removeBlob sqlite behind db table id).2 := by
  obtain ⟨t, ht, hkey, hcolumns⟩ := htable.exists_table
  have hvalid : (Stmt.delete table (some (.compare (lit "rowid") .eq 0))).declared db.tables = true := by
    unfold Stmt.declared
    show (db.tables table).any _ = true
    rw [ht]
    show List.all [lit "rowid"] t.declares = true
    rw [List.all_cons, List.all_nil, Bool.and_true]
    exact decide_eq_true (.inr (.inl rfl))
  have hrun := runAction_eq sqlite behind (parse_remove htable.name (parseWhere_rowid id 0)) hvalid
  have hvals : paramVals sqlite behind (RemoveAction.sql table [(lit "rowid", .int64 id)]).2
      = some [.integer id] := rfl
  unfold removeBlob remove
  rw [hrun]
  by_cases hacts : acts db = true
  · rw [if_pos hacts, if_pos hacts, hvals, Option.bind_some]
    unfold exec
    dsimp only
    rw [ht]
    simp only [Option.map_some]
    rw [meets_rowid sqlite t rfl]
    have hrow : ∀ id', Db.row ⟨Function.update db.tables table
        (some (t.delete (fun id' _ => id' == id))), db.succeeds, db.calls + 2⟩ table id'
          = (t.delete (fun id' _ => id' == id)).find? id' := by
      intro id'
      unfold Db.row
      dsimp only
      rw [Function.update_self]
      rfl
    refine ⟨rfl, ⟨htable.name, _, Function.update_self .., hkey, hcolumns⟩, ?_, ?_⟩
    · exact (hrow id).trans (find?_delete_self t id)
    · intro id' hne
      have hold : db.row table id' = t.find? id' := by
        unfold Db.row
        rw [ht]
        rfl
      rw [hold]
      exact (hrow id').trans (Table.find?_delete t id' (fun _ => beq_false_of_ne hne))
  · rw [if_neg hacts, if_neg hacts]
    exact RowSet.after htable id _

/-- **Removing a blob**, when all calls succeed. -/
theorem removeBlob_eq (htable : HasBlobTable db table) (hok : ∀ n, db.succeeds n = true)
    (id : BitVec 64) :
    RowSet db table id none (removeBlob sqlite behind db table id).2 := by
  have hacts := acts_of_succeeds hok
  have hset := removeBlob_rowSet sqlite behind htable id
  rwa [if_pos hacts] at hset

/-! ## A row more -/

/-- What `Store::createBlob` inserts for plain data. -/
theorem paramVals_createRec_plain {data : MemoryBuffer} (h : 0 < data.size) :
    paramVals sqlite behind ((createRec (some data) false).map (·.2)) =
      some [blobVal sqlite data, .integer 0, sizeVal data] := by
  show paramVals sqlite behind [.buffer data.data, .bool false, sizeValue data] = _
  rw [paramVals_cons sqlite behind (bindUbj_buffer behind h), paramVals_cons sqlite behind rfl,
    paramVals_cons sqlite behind rfl]
  rfl

theorem paramVals_createRec_encrypted (data : MemoryBuffer) :
    paramVals sqlite behind ((createRec (some data) true).map (·.2)) =
      some [.integer 1, sizeVal data] := by
  show paramVals sqlite behind [.bool true, sizeValue data] = _
  rw [paramVals_cons sqlite behind rfl, paramVals_cons sqlite behind rfl]
  rfl

theorem createRec_ofBlobTable (data : MemoryBuffer) (encrypt : Bool) :
    OfBlobTable (createRec (some data) encrypt) := by
  have hcolumns : ∀ c ∈ [lit "data", lit "mode", lit "size"],
      c ∈ [lit "mode", lit "size", lit "salt", lit "data"] := by decide
  cases encrypt with
  | true =>
    exact fun p hp => hcolumns p.1 (List.mem_cons_of_mem _ (List.mem_map_of_mem
      (l := createRec (some data) true) hp))
  | false => exact fun p hp => hcolumns p.1 (List.mem_map_of_mem hp)

end

section

variable (sqlite : Behaviour) (behind : BitVec 32) (aes_encrypt : Bytes → Bytes → Bytes)
  (key : MemoryBuffer) {db : Db} {table : Bytes} (hok : ∀ n, db.succeeds n = true)
include hok

/-- **A blob that is created has its data.** -/
theorem createBlob_eq (htable : HasBlobTable db table) {data : MemoryBuffer}
    (hpos : 0 < data.size) (hmax : data.size ≤ sqlite.maxLength) (random : SaltBytes)
    (encrypt : Bool)
    (hid : (createBlob sqlite behind aes_encrypt key (some random) db table (some data)
      encrypt).1 ≠ 0) :
    ∃ row', RowSet db table
        (createBlob sqlite behind aes_encrypt key (some random) db table (some data) encrypt).1 row'
        (createBlob sqlite behind aes_encrypt key (some random) db table (some data) encrypt).2
      ∧ readBack aes_encrypt key row' = some data.data := by
  have hof := createRec_ofBlobTable data encrypt
  have hne : createRec (some data) encrypt ≠ [] := by cases encrypt <;> exact List.cons_ne_nil _ _
  unfold createBlob at hid ⊢
  dsimp only at hid ⊢
  by_cases hinsert : (insert sqlite behind db table (createRec (some data) encrypt)).1 = 0
  · rw [if_pos hinsert] at hid
    exact absurd rfl hid
  · rw [if_neg hinsert] at hid ⊢
    cases encrypt with
    | false =>
      rw [if_neg (fun h => Bool.false_ne_true h.2)] at hid ⊢
      have hset := insert_eq sqlite behind htable hof hne
        (paramVals_createRec_plain sqlite behind hpos) hinsert
      refine ⟨_, hset, ?_⟩
      exact readBack_plain aes_encrypt key sqlite hmax rfl rfl rfl
    | true =>
      rw [if_pos ⟨rfl, rfl⟩] at hid ⊢
      have hset := insert_eq sqlite behind htable hof hne
        (paramVals_createRec_encrypted sqlite behind data) hinsert
      generalize hi : insert sqlite behind db table (createRec (some data) true) = i at *
      by_cases hupdate : (updateBlobData sqlite behind aes_encrypt key (some random) i.2 table i.1
          (some data) true).1 = 0
      · rw [if_pos hupdate] at hid
        exact absurd rfl hid
      · rw [if_neg hupdate] at hid ⊢
        have hok' : ∀ n, i.2.succeeds n = true := by
          intro n
          rw [hset.succeeds]
          exact hok n
        obtain ⟨row', hset', hread⟩ := updateBlobData_eq aes_encrypt key sqlite behind hok'
          hset.blobTable hpos hmax (by rw [hset.row]; rfl) random true
        exact ⟨row', hset.trans hset', hread⟩

omit hok in
/-- The id of an encrypted blob is that of its row, if the row is inserted. -/
theorem createBlob_id {data : MemoryBuffer} (random : SaltBytes) {id : BitVec 64}
    (hinsert : (insert sqlite behind db table (createRec (some data) true)).1 = id)
    (hid : id.setWidth 32 ≠ 0) :
    (createBlob sqlite behind aes_encrypt key (some random) db table (some data) true).1 = id := by
  have hne : id ≠ 0 := by
    rintro rfl
    exact hid rfl
  have hupdate : ∀ db' : Db, (updateBlobData sqlite behind aes_encrypt key (some random) db' table id
      (some data) true).1 = id.setWidth 32 := fun _ => rfl
  unfold createBlob
  dsimp only
  rw [hinsert, if_neg hne, if_pos ⟨rfl, rfl⟩, hupdate, if_neg hid]

/-- **Blobs are read as they were written**, in both modes and whatever was there before, and
writing one leaves the others as they are. -/
theorem blob_roundtrip (htable : HasBlobTable db table) {data : MemoryBuffer}
    (hpos : 0 < data.size) (hmax : data.size ≤ sqlite.maxLength) (random : SaltBytes)
    (encrypt : Bool) :
    (∀ id db', createBlob sqlite behind aes_encrypt key (some random) db table (some data) encrypt
        = (id, db') → id ≠ 0 →
        (getBlobData sqlite behind aes_encrypt key db' table id).1 = some data
        ∧ ∀ id', id' ≠ id → (getBlobData sqlite behind aes_encrypt key db' table id').1
            = (getBlobData sqlite behind aes_encrypt key db table id').1)
      ∧ ∀ id ret db', (db.row table id).isSome = true →
        updateBlobData sqlite behind aes_encrypt key (some random) db table id (some data) encrypt
          = (ret, db') →
        (getBlobData sqlite behind aes_encrypt key db' table id).1 = some data
        ∧ ∀ id', id' ≠ id → (getBlobData sqlite behind aes_encrypt key db' table id').1
            = (getBlobData sqlite behind aes_encrypt key db table id').1 := by
  -- both come down to one row
  have hrow : ∀ id row' db', RowSet db table id row' db' →
      readBack aes_encrypt key row' = some data.data →
        (getBlobData sqlite behind aes_encrypt key db' table id).1 = some data
        ∧ ∀ id', id' ≠ id → (getBlobData sqlite behind aes_encrypt key db' table id').1
            = (getBlobData sqlite behind aes_encrypt key db table id').1 := by
    intro id row' db' hset hread
    have hok' : ∀ n, db'.succeeds n = true := by
      intro n
      rw [hset.succeeds]
      exact hok n
    constructor
    · rw [getBlobData_eq sqlite behind aes_encrypt key hset.blobTable hok', hset.row]
      exact Option.map_injective data_injective hread
    · intro id' hne
      rw [getBlobData_eq sqlite behind aes_encrypt key hset.blobTable hok', hset.others id' hne,
        getBlobData_eq sqlite behind aes_encrypt key htable hok]
  constructor
  · intro id db' hcreate hid
    have h := createBlob_eq sqlite behind aes_encrypt key hok htable hpos hmax random encrypt
    rw [hcreate] at h
    obtain ⟨row', hset, hread⟩ := h hid
    exact hrow id row' db' hset hread
  · intro id ret db' hexists hupdate
    obtain ⟨row', hset, hread⟩ := updateBlobData_eq aes_encrypt key sqlite behind hok htable hpos
      hmax hexists random encrypt
    rw [hupdate] at hset
    exact hrow id row' db' hset hread

end

/-- Over the plain blob of a table, and into a new one. -/
theorem blob_roundtrip_encrypted :
    (∀ id db', createBlob Behaviour.plain 0 (fun _ block => block) (MemoryBuffer.create 32)
        (some ⟨List.replicate 12 7, rfl⟩) (oneBlob (fun _ => true)) (lit "blobs")
        (some (MemoryBuffer.ofData [2])) true = (id, db') → id ≠ 0 →
        (getBlobData Behaviour.plain 0 (fun _ block => block) (MemoryBuffer.create 32) db'
          (lit "blobs") id).1 = some (MemoryBuffer.ofData [2])
        ∧ ∀ id', id' ≠ id →
          (getBlobData Behaviour.plain 0 (fun _ block => block) (MemoryBuffer.create 32) db'
            (lit "blobs") id').1
          = (getBlobData Behaviour.plain 0 (fun _ block => block) (MemoryBuffer.create 32)
            (oneBlob (fun _ => true)) (lit "blobs") id').1)
      ∧ ∀ id ret db', ((oneBlob (fun _ => true)).row (lit "blobs") id).isSome = true →
        updateBlobData Behaviour.plain 0 (fun _ block => block) (MemoryBuffer.create 32)
          (some ⟨List.replicate 12 7, rfl⟩) (oneBlob (fun _ => true)) (lit "blobs") id
          (some (MemoryBuffer.ofData [2])) true = (ret, db') →
        (getBlobData Behaviour.plain 0 (fun _ block => block) (MemoryBuffer.create 32) db'
          (lit "blobs") id).1 = some (MemoryBuffer.ofData [2])
        ∧ ∀ id', id' ≠ id →
          (getBlobData Behaviour.plain 0 (fun _ block => block) (MemoryBuffer.create 32) db'
            (lit "blobs") id').1
          = (getBlobData Behaviour.plain 0 (fun _ block => block) (MemoryBuffer.create 32)
            (oneBlob (fun _ => true)) (lit "blobs") id').1 :=
  blob_roundtrip Behaviour.plain 0 (fun _ block => block) (MemoryBuffer.create 32)
    (fun _ => rfl) (oneBlob_hasBlobTable _) (by decide) (by decide) ⟨List.replicate 12 7, rfl⟩ true

end Zway.Ubj.Store
