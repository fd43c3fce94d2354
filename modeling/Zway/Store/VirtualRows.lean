import Zway.Store.BlobRoundTrip
import Zway.Store.VirtualScan

/-!
# `Store::update` and `Store::remove` on a virtual table

Neither uses the virtual table for more than finding the rows: they collect the rowids
of a query, and then go through the blobs with these ids, between a `BEGIN` and an `END`.
What they call for a row is a parameter of the loops, `RowOps`; on a database it is
`dbOps`.
-/

namespace Zway.Ubj.Store

open Sql

/-- What the loops call. -/
structure RowOps (σ : Type) where
  beginTransaction : σ → Bool × σ
  endTransaction : σ → σ
  getBlobData : σ → BitVec 64 → Option Object × σ
  updateBlobData : σ → BitVec 64 → Object → σ
  removeBlob : σ → BitVec 64 → σ

/-- `data[it.first] = it.second`, for every field of the update. -/
def override (data update : Object) : Object :=
  update.foldl (fun data it => OrdMap.insert it.1 it.2 data) data

/-- The fields of an object that was updated. -/
theorem find?_override_eq (key : Bytes) : ∀ {changes obj : Object}, (changes.map (·.1)).Nodup →
    OrdMap.find? (override obj changes) key
      = (OrdMap.find? changes key).or (OrdMap.find? obj key)
  | [], obj, _ => rfl
  | (k, w) :: changes, obj, hnodup => by
      obtain ⟨hk, hnodup⟩ := List.nodup_cons.mp hnodup
      have hrest := @find?_override_eq key changes (OrdMap.insert k w obj) hnodup
      show OrdMap.find? (override (OrdMap.insert k w obj) changes) key = _
      rw [hrest, OrdMap.find?]
      by_cases hkey : k = key
      · subst hkey
        have hnone : OrdMap.find? changes k = none :=
          OrdMap.find?_eq_none (fun f hf he => hk (List.mem_map.mpr ⟨f, hf, he⟩))
        rw [if_pos rfl, hnone, OrdMap.find?_insert_self]
        rfl
      · rw [if_neg hkey, OrdMap.find?_insert_of_ne _ _ (fun h => hkey h.symm)]

namespace RowOps

variable {σ : Type} (ops : RowOps σ)

/-- A turn of the loop of `Store::update`. What `updateBlobData` returns is dropped. -/
def updateRow (update : Object) (id : BitVec 64) (s : σ) : σ :=
  match ops.getBlobData s id with
  | (some data, s) => ops.updateBlobData s id (override data update)
  | (none, s) => s

/-- The loop of `Store::update`. -/
def updateRows (update : Object) : List (BitVec 64) → σ → σ
  | [], s => s
  | id :: ids, s => updateRows update ids (ops.updateRow update id s)

/-- The loop of `Store::remove`. What `removeBlob` returns is dropped. -/
def removeRows : List (BitVec 64) → σ → σ
  | [], s => s
  | id :: ids, s => removeRows ids (ops.removeBlob s id)

/-- What both do with the rowids of the query; there are none if it was an error. -/
def transact (loop : List (BitVec 64) → σ → σ) (rowIds : Option (List (BitVec 64))) (s : σ) :
    BitVec 32 × σ :=
  match rowIds with
  | none => (-1, s)
  | some [] => (0, s)
  | some (id :: ids) =>
      match ops.beginTransaction s with
      | (true, s) => (BitVec.ofNat 32 (id :: ids).length, ops.endTransaction (loop (id :: ids) s))
      | (false, s) => (-1, s)

end RowOps

/-- The calls for `BEGIN` and `END`: a statement is prepared and stepped. -/
def transactionStatement (db : Db) : Bool × Db := (acts db, db.after (statementCalls db))

/-- The calls of the store on the blobs of a table. What `Random::random` gives depends on when it is
asked. -/
def dbOps (p : Platform) (blobTable : Bytes) (random : Nat → Option SaltBytes) : RowOps Db where
  beginTransaction := transactionStatement
  endTransaction db := (transactionStatement db).2
  getBlobData db id := p.getBlobObject db blobTable id
  updateBlobData db id data := (p.updateBlobObject (random db.calls) db blobTable id data).2
  removeBlob db id := (removeBlob p.sqlite p.behind db blobTable id).2

namespace VirtualTable

variable (p : Platform) (T : VirtualTable) (random : Nat → Option SaltBytes)

/-- The rowids that `Store::update` and `Store::remove` collect. -/
def rowIds (db : Db) (where_ : Object) : Option (List (BitVec 64)) × Db :=
  let items := query p T db where_ [lit "rowid"]
  (items.1.map (fun items => items.map (fun item => (field item (lit "rowid")).toLong)), items.2)

/-- The rows that a statement goes through. -/
def rowsOf (db : Db) (sql : Part) : List (BitVec 64 × Row) :=
  ((runSelect p T db sql).1.bind (·.2)).getD []

/-- What `Store::query` reports are these rows. -/
theorem query_rowsOf (db : Db) (where_ : Object) (fields : List Bytes) :
    (query p T db where_ fields).1
      = (runSelect p T db (QueryAction.sql T.name where_ [] fields 0 0)).1.map (fun s =>
          (rowsOf p T db (QueryAction.sql T.name where_ [] fields 0 0)).map
            (report p T (resultOf s.1))) := by
  unfold query rowsOf
  generalize runSelect p T db (QueryAction.sql T.name where_ [] fields 0 0) = r
  obtain ⟨_ | ⟨stmt, rows⟩, db'⟩ := r
  · rfl
  · rfl

/-- What `Store::count` counts are these rows. -/
theorem count_rowsOf (db : Db) (where_ : Object) :
    (count p T db where_).1 = if ((runSelect p T db (CountAction.sql T.name where_)).1.bind
        (·.2)).isSome then
      BitVec.ofNat 32 (rowsOf p T db (CountAction.sql T.name where_)).length else -1 := by
  unfold count rowsOf
  generalize runSelect p T db (CountAction.sql T.name where_) = r
  obtain ⟨_ | ⟨stmt, _ | rows⟩, db'⟩ := r
  · rfl
  · rfl
  · rfl

/-- The statement that is run is what the text says, with the columns that its names stand for. -/
theorem stmt_of_runSelect {db : Db} {sql : Part} {stmt : Stmt}
    {rows : Option (List (BitVec 64 × Row))} {db' : Db}
    (h : runSelect p T db sql = (some (stmt, rows), db')) :
    ∃ stmt₀ tables, parse (tokens sql.1) = some stmt₀ ∧ stmt₀.resolve tables = some stmt := by
  unfold runSelect at h
  dsimp only at h
  generalize hprepare : prepare p T (updateIds p T db).2 sql.1 = r at h
  obtain ⟨_ | stmt', db₁⟩ := r
  · cases h
  · obtain ⟨rfl, -⟩ := Prod.mk.inj (Option.some.inj (congrArg Prod.fst h))
    have hfirst := congrArg Prod.fst hprepare
    unfold prepare at hfirst
    dsimp only at hfirst
    split at hfirst
    · obtain ⟨hbind, -⟩ := Option.filter_eq_some_iff.mp hfirst
      obtain ⟨stmt₀, hparse, hresolve⟩ := Option.bind_eq_some_iff.mp hbind
      exact ⟨stmt₀, _, hparse, hresolve⟩
    · cases hfirst

/-- A query for the rowids reports them. -/
theorem resultOf_rowid {db : Db} {where_ : Object} {stmt : Stmt}
    {rows : Option (List (BitVec 64 × Row))} {db' : Db}
    (h : runSelect p T db (QueryAction.sql T.name where_ [] [lit "rowid"] 0 0)
      = (some (stmt, rows), db')) : resultOf stmt = [lit "rowid"] := by
  obtain ⟨stmt₀, tables, hparse, hresolve⟩ := stmt_of_runSelect p T h
  rw [parse_query_eq T.name_isName (by decide) (List.cons_ne_nil _ _)] at hparse
  obtain ⟨cond, -, rfl⟩ := Option.map_eq_some_iff.mp hparse
  obtain ⟨t, -, hrename⟩ := Option.bind_eq_some_iff.mp hresolve
  have hcolumns : [lit "rowid"].mapM t.resolve = some [lit "rowid"] := by
    refine mapM_of_all (fun c hc => ?_)
    obtain rfl := List.mem_singleton.mp hc
    exact Table.resolve_of_declares (decide_eq_true (.inr (.inl rfl)))
  rw [Stmt.rename, hcolumns, Option.bind_some] at hrename
  obtain ⟨cond', -, rfl⟩ := Option.map_eq_some_iff.mp hrename
  rfl

/-- What `Store::update` and `Store::remove` collect are the rowids of these rows. -/
theorem rowIds_rowsOf (db : Db) (where_ : Object) :
    (rowIds p T db where_).1
      = (runSelect p T db (QueryAction.sql T.name where_ [] [lit "rowid"] 0 0)).1.map (fun _ =>
          (rowsOf p T db (QueryAction.sql T.name where_ [] [lit "rowid"] 0 0)).map (·.1)) := by
  have hid : ∀ r : BitVec 64 × Row, (field (report p T [lit "rowid"] r) (lit "rowid")).toLong = r.1 := by
    intro r
    have hvalue : (T.table []).value r.1 r.2 (lit "rowid") = .integer r.1 := if_pos (.inl rfl)
    have hreport : report p T [lit "rowid"] r
        = rowToUbj p [(lit "rowid", (T.table []).value r.1 r.2 (lit "rowid"))] := rfl
    rw [hreport, hvalue]
    rfl
  unfold rowIds
  dsimp only
  rw [query_rowsOf]
  generalize hrun : runSelect p T db (QueryAction.sql T.name where_ [] [lit "rowid"] 0 0) = r
  obtain ⟨_ | ⟨stmt, rows⟩, db'⟩ := r
  · rfl
  · refine congrArg some ?_
    dsimp only
    rw [resultOf_rowid p T hrun, List.map_map]
    exact List.map_congr_left (fun r _ => hid r)

/-- `Store::update`. -/
def update (db : Db) (update where_ : Object) : BitVec 32 × Db :=
  let ids := rowIds p T db where_
  (dbOps p T.blobTable random).transact ((dbOps p T.blobTable random).updateRows update) ids.1 ids.2

/-- `Store::remove`. -/
def remove (db : Db) (where_ : Object) : BitVec 32 × Db :=
  let ids := rowIds p T db where_
  (dbOps p T.blobTable random).transact (dbOps p T.blobTable random).removeRows ids.1 ids.2

end VirtualTable

/-! ## Other rows -/

/-- `db'` is `db` but for the rows with some ids. -/
structure RowsSet (db : Db) (table : Bytes) (ids : List (BitVec 64)) (db' : Db) : Prop where
  succeeds : db'.succeeds = db.succeeds
  blobTable : HasBlobTable db' table
  others : ∀ id, id ∉ ids → db'.row table id = db.row table id

theorem RowSet.rows {db db' db'' : Db} {table : Bytes} {id : BitVec 64} {ids : List (BitVec 64)}
    {row : Option Row} (h : RowSet db table id row db') (h' : RowsSet db' table ids db'') :
    RowsSet db table (id :: ids) db'' where
  succeeds := h'.succeeds.trans h.succeeds
  blobTable := h'.blobTable
  others := fun id' hid => (h'.others id' (fun hmem => hid (List.mem_cons_of_mem _ hmem))).trans
    (h.others id' (fun he => hid (he ▸ List.mem_cons_self)))

theorem RowsSet.after {db : Db} {table : Bytes} (htable : HasBlobTable db table)
    (ids : List (BitVec 64)) (calls : Nat) : RowsSet db table ids (db.after calls) where
  succeeds := rfl
  blobTable := htable.after calls
  others := fun _ _ => rfl

theorem RowsSet.trans {db db' db'' : Db} {table : Bytes} {ids : List (BitVec 64)}
    (h : RowsSet db table ids db') (h' : RowsSet db' table ids db'') :
    RowsSet db table ids db'' where
  succeeds := h'.succeeds.trans h.succeeds
  blobTable := h'.blobTable
  others := fun id hid => (h'.others id hid).trans (h.others id hid)

section

variable (p : Platform) (random : Nat → Option SaltBytes) {db : Db} {table : Bytes}
  (htable : HasBlobTable db table)
include htable

/-- An update of one row, whatever fails. -/
theorem updateBlobData_rowSet (id : BitVec 64) (data : Object) :
    ∃ row, RowSet db table id row ((dbOps p table random).updateBlobData db id data) := by
  show ∃ row, RowSet db table id row
    (updateBlobData p.sqlite p.behind p.aes_encrypt p.key (random db.calls) db table id _ true).2
  cases hrandom : random db.calls with
  | none => exact ⟨_, RowSet.after htable id db.calls⟩
  | some salt =>
    have hsalt : true = true → (some salt).isSome = true := fun _ => rfl
    obtain ⟨-, row, hset, -⟩ := updateBlobData_readBack p.sqlite p.behind p.aes_encrypt p.key htable id
      (MemoryBuffer.ofData (Writer.write (.object data))) hsalt
    exact ⟨row, hset⟩

theorem updateRow_rowSet (update : Object) (id : BitVec 64) :
    ∃ row, RowSet db table id row ((dbOps p table random).updateRow update id db) := by
  obtain ⟨calls, hafter⟩ := @getBlobData_after p.sqlite p.behind p.aes_encrypt p.key db table id htable
  have hget : ((dbOps p table random).getBlobData db id).2 = db.after calls := hafter
  unfold RowOps.updateRow
  generalize (dbOps p table random).getBlobData db id = r at hget
  obtain ⟨data, db'⟩ := r
  obtain rfl : db' = db.after calls := hget
  cases data with
  | none => exact ⟨_, RowSet.after htable id calls⟩
  | some data =>
    obtain ⟨row, hset⟩ := updateBlobData_rowSet p random (htable.after calls) id (override data update)
    exact ⟨row, (RowSet.after htable id calls).trans hset⟩

/-- The loop of an update. -/
theorem updateRows_rowsSet (update : Object) : ∀ (ids : List (BitVec 64)),
    RowsSet db table ids ((dbOps p table random).updateRows update ids db) := by
  intro ids
  induction ids generalizing db with
  | nil => exact RowsSet.after htable [] db.calls
  | cons id ids ih =>
    obtain ⟨row, hset⟩ := updateRow_rowSet p random htable update id
    exact hset.rows (ih hset.blobTable)

/-- The loop of a removal. -/
theorem removeRows_rowsSet : ∀ (ids : List (BitVec 64)),
    RowsSet db table ids ((dbOps p table random).removeRows ids db) := by
  intro ids
  induction ids generalizing db with
  | nil => exact RowsSet.after htable [] db.calls
  | cons id ids ih =>
    have hset := removeBlob_rowSet p.sqlite p.behind htable id
    exact hset.rows (ih hset.blobTable)

/-- A removal deletes exactly the rows it is given, if the calls succeed. -/
theorem removeRows_row (hok : ∀ n, db.succeeds n = true) : ∀ (ids : List (BitVec 64)) (id : BitVec 64),
    ((dbOps p table random).removeRows ids db).row table id
      = if id ∈ ids then none else db.row table id := by
  intro ids
  induction ids generalizing db with
  | nil => exact fun id => (if_neg List.not_mem_nil).symm
  | cons i ids ih =>
    intro id
    have hset : RowSet db table i none ((dbOps p table random).removeBlob db i) :=
      removeBlob_eq p.sqlite p.behind htable hok i
    have hok' : ∀ n, ((dbOps p table random).removeBlob db i).succeeds n = true := by
      intro n
      rw [hset.succeeds]
      exact hok n
    rw [RowOps.removeRows, ih hset.blobTable hok' id]
    by_cases hid : id = i
    · subst hid
      rw [hset.row, if_pos List.mem_cons_self]
      exact ite_self _
    · rw [hset.others id hid]
      by_cases hmem : id ∈ ids
      · rw [if_pos hmem, if_pos (List.mem_cons_of_mem _ hmem)]
      · rw [if_neg hmem, if_neg (fun h => (List.mem_cons.mp h).elim hid hmem)]

end

end Zway.Ubj.Store
