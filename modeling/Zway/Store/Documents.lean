import Zway.Lib.Records
import Zway.Store.AllOrNothing
import Zway.Store.VirtualRoundTrip
import Zway.Store.Where

/-!
# What virtual tables are

A blob table is a map from ids to objects: `Documents`. `Does` says what the calls on its
virtual tables reply and make of the objects, without statements, scans, rows and blobs,
and in terms of what a query means: `satisfies`. The store keeps to it over every sequence
of calls: `does_of_good`.
-/

namespace Zway.Ubj.Store

open Sql Records Steps

/-- The objects in a blob table. -/
abbrev Documents := BitVec 64 → Option Object

namespace VirtualTable

variable (p : Platform) (T : VirtualTable)

/-! ## What a query is about -/

/-- A comparison of a column of a row with a value. -/
def compares (id : BitVec 64) (row : Row) (column : Bytes) (op : CmpOp) (v : Value) : Bool :=
  p.sqlite.compare op ((T.table []).value id row column) ((boundVal p v).getD .null)

/-- An object of the table. -/
def Typed (obj : Object) : Prop := typeOf p obj = some (typeText p T)

instance : DecidablePred (Typed p T) := fun _ => inferInstanceAs (Decidable (_ = _))

/-- Some scan asks for an id, whatever object it has. -/
def Picks (cond : Option Cond) (vals : List Val) (id : BitVec 64) : Prop :=
  ∃ scan ∈ p.plan cond vals, ∃ c, pickedBy scan = some c
    ∧ ((p.value_int64 c.rhs).setWidth 32).setWidth 64 = id

/-- Some scan for a query asks for an id. -/
def Asked (where_ : Object) (id : BitVec 64) : Prop :=
  ∃ cond vals, parseWhere 0 (tokens (whereText where_)) = some cond
    ∧ paramVals p (wherePart where_).2 = some vals ∧ Picks p cond vals id

/-- **The ids of the objects that a query is about.** `xFilter` and `xRowid` keep 32 bits of an id. -/
def matching (docs : Documents) (where_ : Object) : Set (BitVec 64) :=
  {id | id.toNat < 2 ^ 32 ∧ ∃ obj, docs id = some obj ∧ (Typed p T obj ∨ Asked p where_ id)
    ∧ satisfies (compares p T id (xColumn obj)) where_ = true}

/-- A query that can be put into a statement, and means there what it means. It names the columns as
they were declared, and an alternative for the rowid is a statement that SQLite refuses. -/
structure Sayable (where_ : Object) : Prop where
  named : WellNamed where_
  said : where_ = [] ∨ (complete where_ = true
    ∧ ∀ holds, kept holds where_ = true → satisfies holds where_ = true)
  columns : ∀ cond, parseWhere 0 (tokens (whereText where_)) = some (some cond) →
    cond.columns.all (T.table []).declares = true
  onTop : ∀ cond, parseWhere 0 (tokens (whereText where_)) = some (some cond) →
    cond.rowidOnTop = true
  bound : (paramVals p (wherePart where_).2).isSome = true

/-! ## Calls -/

end VirtualTable

open VirtualTable

/-- A call on a virtual table. -/
inductive Call where
  | insert (T : VirtualTable) (obj : Object)
  | update (T : VirtualTable) (changes where_ : Object)
  | remove (T : VirtualTable) (where_ : Object)
  | query (T : VirtualTable) (where_ : Object) (fieldsToReturn : List Bytes)
  | count (T : VirtualTable) (where_ : Object)

/-- What a call returns. -/
inductive Reply where
  | id (id : BitVec 64)
  | number (n : BitVec 32)
  | items (items : Option (List Object))

def Call.table : Call → VirtualTable
  | insert T _ => T
  | update T _ _ => T
  | remove T _ => T
  | query T _ _ => T
  | count T _ => T

section

variable (p : Platform) (random : Nat → Option SaltBytes)

/-- **A call of the store.** -/
def perform (db : Db) : Call → Reply × Db
  | .insert T obj =>
      let r := VirtualTable.insert p T (random db.calls) db obj
      (.id r.1, r.2)
  | .update T changes where_ =>
      let r := VirtualTable.update p T random db changes where_
      (.number r.1, r.2)
  | .remove T where_ =>
      let r := VirtualTable.remove p T random db where_
      (.number r.1, r.2)
  | .query T where_ fieldsToReturn =>
      let r := VirtualTable.query p T db where_ fieldsToReturn
      (.items r.1, r.2)
  | .count T where_ =>
      let r := VirtualTable.count p T db where_
      (.number r.1, r.2)

omit random in
/-- What is reported of an object. -/
def itemOf (T : VirtualTable) (docs : Documents) (fieldsToReturn : List Bytes) (id : BitVec 64) :
    Object :=
  report p T fieldsToReturn (id, xColumn ((docs id).getD []))

omit random in
/-- **What a call does to the objects, and what it replies.** -/
inductive Does : Documents → Call → Reply → Documents → Prop where
  | inserted {docs : Documents} {T : VirtualTable} {obj : Object} {id : BitVec 64} :
      id ≠ 0 → docs id = none →
      Does docs (.insert T obj) (.id id) (Function.update docs id (some (recordOf p T obj)))
  | notInserted {docs : Documents} {T : VirtualTable} {obj : Object} :
      Does docs (.insert T obj) (.id 0) docs
  | updated {docs : Documents} {T : VirtualTable} {changes where_ : Object} :
      Does docs (.update T changes where_) (.number (BitVec.ofNat 32 (matching p T docs where_).ncard))
        (change docs (matching p T docs where_) (fun obj => some (override obj changes)))
  | removed {docs : Documents} {T : VirtualTable} {where_ : Object} :
      Does docs (.remove T where_) (.number (BitVec.ofNat 32 (matching p T docs where_).ncard))
        (change docs (matching p T docs where_) (fun _ => none))
  | queried {docs : Documents} {T : VirtualTable} {where_ : Object} {fieldsToReturn : List Bytes}
      {ids : List (BitVec 64)} : Enumerates ids (matching p T docs where_) →
      Does docs (.query T where_ fieldsToReturn)
        (.items (some (ids.map (itemOf p T docs fieldsToReturn)))) docs
  | counted {docs : Documents} {T : VirtualTable} {where_ : Object} :
      Does docs (.count T where_) (.number (BitVec.ofNat 32 (matching p T docs where_).ncard)) docs

omit random in
/-- What a call is made with: keys that are columns, queries that can be put into a statement, and
objects that fit into a blob. -/
def Good (blobTable : Bytes) (docs : Documents) : Call → Prop
  | .insert T obj => T.blobTable = blobTable ∧ (∀ f ∈ obj, f.1 ∈ T.columns) ∧ OrdMap.Sorted obj
      ∧ Recorded p (recordOf p T obj)
  | .update T changes where_ => T.blobTable = blobTable ∧ Sayable p T where_
      ∧ ∀ id ∈ matching p T docs where_, ∀ obj, docs id = some obj → Recorded p (override obj changes)
  | .remove T where_ => T.blobTable = blobTable ∧ Sayable p T where_
  | .query T where_ fieldsToReturn => T.blobTable = blobTable ∧ Sayable p T where_
      ∧ ∀ f ∈ fieldsToReturn, isName f = true ∧ (T.table []).declares f = true
  | .count T where_ => T.blobTable = blobTable ∧ Sayable p T where_

end

namespace VirtualTable

variable {p : Platform} {T : VirtualTable}

/-! ## What a statement means -/

/-- A query for everything. -/
theorem sayable_nil : Sayable p T [] where
  named := trivial
  said := .inl rfl
  columns := fun _ h => by cases h
  onTop := fun _ h => by cases h
  bound := rfl

/-- **A row meets the condition of a query exactly if it satisfies the query.** -/
theorem Sayable.meets {where_ : Object} (h : Sayable p T where_) :
    ∃ cond vals, parseWhere 0 (tokens (whereText where_)) = some cond
      ∧ paramVals p (wherePart where_).2 = some vals
      ∧ (∀ id row, VirtualTable.meets p T cond vals id row
          = satisfies (compares p T id row) where_) := by
  obtain ⟨vals, hvals⟩ := Option.isSome_iff_exists.mp h.bound
  rcases h.said with rfl | ⟨hcomplete, hsaid⟩
  · exact ⟨none, vals, rfl, hvals, fun id row => by rw [satisfies]; rfl⟩
  · obtain ⟨⟨selects, hselects, hkept⟩, -⟩ :=
      whereMeaning_of_complete (fun r : BitVec 64 × Row => compares p T r.1 r.2) [] h.named hcomplete
    obtain ⟨cond, hcond, rfl⟩ := Option.map_eq_some_iff.mp hselects
    refine ⟨cond, vals, hcond, hvals, fun id row => ?_⟩
    have hsame : satisfies (compares p T id row) where_ = kept (compares p T id row) where_ := by
      rw [Bool.eq_iff_iff]
      exact ⟨kept_of_satisfies, hsaid _⟩
    rw [hsame, ← hkept (id, row)]
    cases cond with
    | none => rfl
    | some c =>
      show c.eval _ = c.eval _
      congr 1
      funext column op k
      rw [paramVals_getD hvals k]
      rfl

/-! ## Which rows a statement goes through -/

section

variable {db : Db}

theorem ofType_iff {id : BitVec 64} {obj : Object} (hdoc : p.doc db T.blobTable id = some obj) :
    ofType p T db id ↔ Typed p T obj := by
  constructor
  · rintro ⟨obj', hobj', htype⟩
    obtain rfl := Option.some.inj (hdoc.symm.trans hobj')
    exact htype
  · intro htype
    exact ⟨obj, hdoc, htype⟩

theorem setWidth_small {id : BitVec 64} (h : id.toNat < 2 ^ 32) :
    (id.setWidth 32).setWidth 64 = id := by
  refine BitVec.eq_of_toNat_eq ?_
  rw [BitVec.toNat_setWidth, BitVec.toNat_setWidth]
  omega

theorem setWidth_lt (id : BitVec 32) : (id.setWidth 64).toNat < 2 ^ 32 := by
  rw [BitVec.toNat_setWidth]
  have hlt := id.isLt
  omega

theorem row_of_doc {id : BitVec 64} {obj : Object} {table : Bytes}
    (hdoc : p.doc db table id = some obj) : (db.row table id).isSome = true := by
  unfold Platform.doc readBack at hdoc
  cases hrow : db.row table id with
  | none =>
    rw [hrow] at hdoc
    cases hdoc
  | some row => rfl

/-- **The rows that a condition selects** are those that meet it, of the objects of the table and of
the one a scan asks for. -/
theorem mem_selected (hcovers : Covering p T) {cond : Option Cond} {vals : List Val}
    {r : BitVec 64 × Row} :
    r ∈ selected p T db cond vals ↔ r.1.toNat < 2 ^ 32 ∧ (∃ obj,
      p.doc db T.blobTable r.1 = some obj ∧ r.2 = xColumn obj
        ∧ (Typed p T obj ∨ Picks p cond vals r.1))
      ∧ VirtualTable.meets p T cond vals r.1 r.2 = true := by
  constructor
  · intro hr
    obtain ⟨hfound, hmeets⟩ := List.mem_filter.mp hr
    obtain ⟨scan, hscan, id, hid, hrow⟩ := mem_found p T hfound
    obtain ⟨obj, hdoc, rfl⟩ := Option.map_eq_some_iff.mp hrow
    refine ⟨setWidth_lt id, ⟨obj, hdoc, rfl, ?_⟩, hmeets⟩
    unfold scanIds at hid
    cases hpicked : pickedBy scan with
    | some c =>
      rw [hpicked] at hid
      obtain rfl := List.mem_singleton.mp hid
      exact .inr ⟨scan, hscan, c, hpicked, rfl⟩
    | none =>
      rw [hpicked] at hid
      exact .inl ((ofType_iff hdoc).mp ((mem_typedIds p T).mp hid).2)
  · rintro ⟨hsmall, ⟨obj, hdoc, hcolumns, hown⟩, hmeets⟩
    have hrow : rowOf p T db (r.1.setWidth 32) = some r := by
      unfold rowOf
      rw [setWidth_small hsmall, hdoc]
      exact congrArg some (Prod.ext rfl hcolumns.symm)
    refine List.mem_filter.mpr ⟨?_, hmeets⟩
    rcases hown with htyped | ⟨scan, hscan, c, hpicked, hid⟩
    · -- the plan leaves out no row
      obtain ⟨scan, hscan, hadmits⟩ := hcovers _ _ _ _ hmeets
      refine mem_found_of_mem_scanIds p T hscan ?_ hrow
      unfold scanIds
      cases hpicked : pickedBy scan with
      | some c =>
        dsimp only
        rw [picked_of_admits p hpicked hadmits]
        exact List.mem_singleton_self _
      | none =>
        refine (mem_typedIds p T).mpr ⟨List.mem_map_of_mem (mem_blobIds.mpr (row_of_doc hdoc)), ?_⟩
        rw [setWidth_small hsmall]
        exact (ofType_iff hdoc).mpr htyped
    · refine mem_found_of_mem_scanIds p T hscan ?_ hrow
      unfold scanIds
      rw [hpicked, ← hid, setWidth_setWidth]
      exact List.mem_singleton_self _

variable (hok : ∀ n, db.succeeds n = true) (htable : HasBlobTable db T.blobTable)
include hok htable

/-- **The rows of a statement that asks a query.** -/
theorem Sayable.runs {where_ : Object} (h : Sayable p T where_) (hcovers : Covering p T)
    (sql : Part) (hparams : sql.2 = (wherePart where_).2) (stmt : Option Cond → Stmt)
    (hstmt : ∀ cond, parseWhere 0 (tokens (whereText where_)) = some cond →
      parse (tokens sql.1) = some (stmt cond) ∧ condOf (stmt cond) = cond
        ∧ (stmt cond).table = T.name
        ∧ ((cond.map Cond.columns).getD []).all (T.table []).declares
          = (stmt cond).columns.all (T.table []).declares) :
    ∃ cond rows calls, runSelect p T db sql = (some (stmt cond, some rows), db.after calls)
      ∧ Enumerates (rows.map (·.1)) (matching p T (p.doc db T.blobTable) where_)
      ∧ ∀ r ∈ rows, r.2 = xColumn ((p.doc db T.blobTable r.1).getD []) := by
  obtain ⟨cond, vals, hcond, hvals, hmeets⟩ := h.meets
  obtain ⟨hparse, hsame, hname, hcolumns⟩ := hstmt cond hcond
  obtain ⟨calls, hrun⟩ := runSelect_eq p T hok htable sql
  have hvalid : stmtOf p T db sql = some (stmt cond) := by
    refine stmtOf_eq hparse hname ?_ ?_
    · rw [← hcolumns]
      cases cond with
      | none => rfl
      | some c => exact h.columns c hcond
    · rw [hsame]
      cases cond with
      | none => rfl
      | some c => exact h.onTop c hcond
  rw [hvalid, Option.map_some, hparams, hvals, hsame] at hrun
  refine ⟨cond, _, calls, hrun, ⟨?_, ?_⟩, ?_⟩
  · exact (found_nodup p T db _).sublist (List.Sublist.map _ List.filter_sublist)
  · intro id
    constructor
    · intro hid
      obtain ⟨r, hr, rfl⟩ := List.mem_map.mp hid
      obtain ⟨hsmall, ⟨obj, hdoc, hrow, hown⟩, hmeet⟩ := (mem_selected hcovers).mp hr
      rw [hmeets, hrow] at hmeet
      exact ⟨hsmall, obj, hdoc, hown.imp_right (fun hpicks => ⟨_, _, hcond, hvals, hpicks⟩), hmeet⟩
    · rintro ⟨hsmall, obj, hdoc, hown, hmeet⟩
      refine List.mem_map.mpr ⟨(id, xColumn obj), (mem_selected hcovers).mpr ⟨hsmall,
        ⟨obj, hdoc, rfl, hown.imp_right ?_⟩, (hmeets _ _).trans hmeet⟩, rfl⟩
      rintro ⟨cond', vals', hcond', hvals', hpicks⟩
      obtain rfl := Option.some.inj (hcond.symm.trans hcond')
      obtain rfl := Option.some.inj (hvals.symm.trans hvals')
      exact hpicks
  · intro r hr
    obtain ⟨-, ⟨obj, hdoc, hrow, -⟩, -⟩ := (mem_selected hcovers).mp hr
    rw [hdoc]
    exact hrow

/-- The rows of a query. -/
theorem Sayable.runs_query {where_ : Object} (h : Sayable p T where_) (hcovers : Covering p T)
    {fields : List Bytes} (hfields : ∀ f ∈ fields, isName f = true ∧ (T.table []).declares f = true) :
    ∃ cond rows calls, runSelect p T db (QueryAction.sql T.name where_ [] fields 0 0)
        = (some (.select fields T.name cond, some rows), db.after calls)
      ∧ Enumerates (rows.map (·.1)) (matching p T (p.doc db T.blobTable) where_)
      ∧ ∀ r ∈ rows, r.2 = xColumn ((p.doc db T.blobTable r.1).getD []) := by
  refine h.runs hok htable hcovers (QueryAction.sql T.name where_ [] fields 0 0) rfl
    (.select fields T.name) (fun cond hcond => ⟨?_, rfl, rfl, ?_⟩)
  · by_cases hne : fields = []
    · subst hne
      exact parse_query_star T.name_isName hcond
    · exact parse_query T.name_isName (fun f hf => (hfields f hf).1) hne hcond
  · show _ = List.all (fields ++ _) _
    have hall : fields.all (T.table []).declares = true :=
      List.all_eq_true.mpr (fun f hf => (hfields f hf).2)
    rw [List.all_append, hall, Bool.true_and]

/-- The rows of a count. -/
theorem Sayable.runs_count {where_ : Object} (h : Sayable p T where_) (hcovers : Covering p T) :
    ∃ cond rows calls, runSelect p T db (CountAction.sql T.name where_)
        = (some (.count T.name cond, some rows), db.after calls)
      ∧ Enumerates (rows.map (·.1)) (matching p T (p.doc db T.blobTable) where_)
      ∧ ∀ r ∈ rows, r.2 = xColumn ((p.doc db T.blobTable r.1).getD []) :=
  h.runs hok htable hcovers (CountAction.sql T.name where_) rfl (.count T.name)
    (fun _ hcond => ⟨parse_count T.name_isName hcond, rfl, rfl, rfl⟩)

end

end VirtualTable

/-! ## What the loops do to the objects -/

section

variable {p : Platform} {random : Nat → Option SaltBytes} {table : Bytes}

/-- A turn of the loop of an update. -/
theorem doc_updateRow {db : Db} (hok : ∀ n, db.succeeds n = true) (htable : HasBlobTable db table)
    (hrandom : ∀ n, (random n).isSome = true) {changes : Object} {id : BitVec 64} {obj : Object}
    (hdoc : p.doc db table id = some obj) (hrecord : Recorded p (override obj changes)) :
    ∃ row, RowSet db table id row ((dbOps p table random).updateRow changes id db)
      ∧ p.doc ((dbOps p table random).updateRow changes id db) table id
        = some (override obj changes) := by
  obtain ⟨calls, hget⟩ := p.getBlobObject_eq hok htable db.calls id
  have hread : (dbOps p table random).getBlobData db id = (some obj, db.after calls) := by
    rw [← hdoc]
    exact hget
  obtain ⟨salt, hsalt⟩ := Option.isSome_iff_exists.mp (hrandom (db.after calls).calls)
  obtain ⟨hdata, hpos, hmax⟩ := hrecord.data
  have hupdate : (dbOps p table random).updateRow changes id db
      = (updateBlobData p.sqlite p.behind p.aes_encrypt p.key (some salt) (db.after calls) table id
          (some (MemoryBuffer.ofData (Writer.write (.object (override obj changes))))) true).2 := by
    unfold RowOps.updateRow
    rw [hread, ← hsalt]
    rfl
  obtain ⟨row, hset, hback⟩ := updateBlobData_eq p.aes_encrypt p.key p.sqlite p.behind
    (show ∀ n, (db.after calls).succeeds n = true from hok) (htable.after calls) hpos hmax
    (row_of_doc hdoc) salt true
  rw [hupdate]
  refine ⟨row, (RowSet.after htable id calls).trans hset, ?_⟩
  unfold Platform.doc
  rw [hset.row, hback, hdata]
  exact hrecord.read

/-- **The loop of an update** changes the objects with its ids. -/
theorem doc_updateRows (hrandom : ∀ n, (random n).isSome = true) {changes : Object} :
    ∀ {ids : List (BitVec 64)} {db : Db}, (∀ n, db.succeeds n = true) → HasBlobTable db table →
    ids.Nodup → (∀ id ∈ ids, ∃ obj, p.doc db table id = some obj
      ∧ Recorded p (override obj changes)) →
    ∀ id, p.doc ((dbOps p table random).updateRows changes ids db) table id
      = if id ∈ ids then (p.doc db table id).map (override · changes) else p.doc db table id
  | [], db, _, _, _, _, id => (if_neg List.not_mem_nil).symm
  | i :: ids, db, hok, htable, hnodup, hdocs, id => by
      obtain ⟨hi, hnodup⟩ := List.nodup_cons.mp hnodup
      obtain ⟨obj, hdoc, hrecord⟩ := hdocs i List.mem_cons_self
      obtain ⟨row, hset, hupdated⟩ :
          ∃ row, RowSet db table i row ((dbOps p table random).updateRow changes i db)
            ∧ p.doc ((dbOps p table random).updateRow changes i db) table i
              = some (override obj changes) := doc_updateRow hok htable hrandom hdoc hrecord
      rw [RowOps.updateRows]
      generalize (dbOps p table random).updateRow changes i db = db' at hset hupdated
      have hok' : ∀ n, db'.succeeds n = true := fun n => by rw [hset.succeeds, hok]
      have hothers : ∀ id, id ≠ i → p.doc db' table id = p.doc db table id := by
        intro id hne
        unfold Platform.doc
        rw [hset.others id hne]
      have hdocs' : ∀ id ∈ ids, ∃ obj, p.doc db' table id = some obj
          ∧ Recorded p (override obj changes) := by
        intro id hid
        have hne : id ≠ i := by
          rintro rfl
          exact hi hid
        rw [hothers id hne]
        exact hdocs id (List.mem_cons_of_mem _ hid)
      rw [doc_updateRows hrandom hok' hset.blobTable hnodup hdocs' id]
      by_cases hid : id = i
      · subst hid
        rw [if_neg hi, if_pos List.mem_cons_self, hupdated, hdoc]
        rfl
      · rw [hothers id hid]
        by_cases hmem : id ∈ ids
        · rw [if_pos hmem, if_pos (List.mem_cons_of_mem _ hmem)]
        · rw [if_neg hmem, if_neg (fun h => (List.mem_cons.mp h).elim hid hmem)]

/-- The transaction around a loop only adds calls, and the result is the number of rows. -/
theorem transact_eq (p : Platform) (random : Nat → Option SaltBytes) (table : Bytes) {db : Db}
    (hok : ∀ n, db.succeeds n = true) (loop : List (BitVec 64) → Db → Db) (hnil : ∀ db, loop [] db = db) (ids : List (BitVec 64)) :
    ∃ calls calls', (dbOps p table random).transact loop (some ids) db
      = (BitVec.ofNat 32 ids.length, (loop ids (db.after calls)).after calls') := by
  cases ids with
  | nil =>
    refine ⟨db.calls, db.calls, ?_⟩
    rw [hnil]
    rfl
  | cons id ids =>
    have hbegin : (dbOps p table random).beginTransaction db
        = (true, db.after (statementCalls db)) := by
      show (acts db, _) = _
      rw [acts_of_succeeds hok]
    refine ⟨statementCalls db, statementCalls (loop (id :: ids) (db.after (statementCalls db))), ?_⟩
    unfold RowOps.transact
    dsimp only
    rw [hbegin]
    rfl

end

/-! ## Insertions -/

section

variable {p : Platform} {table : Bytes} {db db' : Db} {data : MemoryBuffer} {id : BitVec 64}
  (htable : HasBlobTable db table)
include htable

/-- The id of a new blob is the next one of the table. -/
theorem createBlob_newRowid {random : Option SaltBytes} (hid : id ≠ 0)
    (hcreate : createBlob p.sqlite p.behind p.aes_encrypt p.key random db table (some data) true
      = (id, db')) :
    ∃ t, db.tables table = some t ∧ p.sqlite.newRowid (t.rows.map (·.1)) = some id := by
  obtain ⟨t, ht, -, -⟩ := htable.exists_table
  have hvals := paramVals_createRec_encrypted p.sqlite p.behind data
  have hinserted := insert_table p.sqlite p.behind htable (createRec_ofBlobTable data true)
    (List.cons_ne_nil _ _) hvals ht
  unfold createBlob at hcreate
  dsimp only at hcreate
  generalize insert p.sqlite p.behind db table (createRec (some data) true) = i at hcreate hinserted
  have hsame : i.1 = id := by
    by_cases hzero : i.1 = 0
    · rw [if_pos hzero] at hcreate
      exact absurd (Prod.mk.inj hcreate).1.symm hid
    · rw [if_neg hzero, if_pos ⟨rfl, rfl⟩] at hcreate
      split at hcreate
      · exact absurd (Prod.mk.inj hcreate).1.symm hid
      · exact (Prod.mk.inj hcreate).1
  have hnew := (hinserted (hsame ▸ hid)).1
  rw [hsame] at hnew
  exact ⟨t, ht, hnew⟩

/-- No other blob has it. -/
theorem createBlob_new {random : Option SaltBytes} (hid : id ≠ 0)
    (hcreate : createBlob p.sqlite p.behind p.aes_encrypt p.key random db table (some data) true
      = (id, db')) : db.row table id = none := by
  obtain ⟨t, ht, hnew⟩ := createBlob_newRowid htable hid hcreate
  unfold Db.row
  rw [ht]
  exact find?_newRowid p.sqlite t hnew

/-- **Where no blob is created, no object changes.** -/
theorem createBlob_refused (hok : ∀ n, db.succeeds n = true) (salt : SaltBytes)
    (hcreate : createBlob p.sqlite p.behind p.aes_encrypt p.key (some salt) db table (some data) true
      = (0, db')) :
    p.doc db' table = p.doc db table ∧ HasBlobTable db' table ∧ db'.succeeds = db.succeeds := by
  obtain ⟨t, ht, hkey, hcolumns⟩ := htable.exists_table
  have hof := createRec_ofBlobTable data true
  have hne : createRec (some data) true ≠ [] := List.cons_ne_nil _ _
  have hvals := paramVals_createRec_encrypted p.sqlite p.behind data
  have hrow : ∀ id, db.row table id = t.find? id := fun id => by
    unfold Db.row
    rw [ht]
    rfl
  unfold createBlob at hcreate
  dsimp only at hcreate
  by_cases hinsert : (insert p.sqlite p.behind db table (createRec (some data) true)).1 = 0
  · rw [if_pos hinsert] at hcreate
    obtain rfl := (Prod.mk.inj hcreate).2
    rw [insert_run p.sqlite p.behind htable hof hne hvals ht, if_pos (acts_of_succeeds hok)]
      at hinsert ⊢
    cases hnew : p.sqlite.newRowid (t.rows.map (·.1)) with
    | none => exact ⟨rfl, htable.after _, rfl⟩
    | some id =>
      -- a row without data, with the id zero
      have hnone := find?_newRowid p.sqlite t hnew
      refine ⟨?_, ⟨htable.name, _, Function.update_self .., hkey, hcolumns⟩, rfl⟩
      funext id'
      unfold Platform.doc
      rw [hrow, show Db.row _ table id' = Table.find? _ id' from by
        unfold Db.row
        dsimp only
        rw [Function.update_self]
        rfl, Table.find?_append hnone]
      by_cases hid' : id' = id
      · rw [if_pos hid', hid', hnone]
        rfl
      · rw [if_neg hid']
  · rw [if_neg hinsert, if_pos ⟨rfl, rfl⟩] at hcreate
    have hset := insert_eq p.sqlite p.behind htable hof hne hvals hinsert
    have hnone := find?_newRowid p.sqlite t
      (insert_table p.sqlite p.behind htable hof hne hvals ht hinsert).1
    rw [← hrow] at hnone
    generalize insert p.sqlite p.behind db table (createRec (some data) true) = i at *
    obtain ⟨-, row', hset', -⟩ := updateBlobData_readBack p.sqlite p.behind p.aes_encrypt p.key
      hset.blobTable i.1 data (show true = true → (some salt).isSome = true from fun _ => rfl)
    generalize updateBlobData p.sqlite p.behind p.aes_encrypt p.key (some salt) i.2 table i.1
      (some data) true = u at *
    by_cases hzero : u.1 = 0
    · rw [if_pos hzero] at hcreate
      obtain rfl := (Prod.mk.inj hcreate).2
      have hboth := hset.trans hset'
      have hok' : ∀ n, u.2.succeeds n = true := fun n => by rw [hboth.succeeds, hok]
      have hall := hboth.trans (removeBlob_eq p.sqlite p.behind hboth.blobTable hok' i.1)
      refine ⟨?_, hall.blobTable, hall.succeeds⟩
      funext id'
      unfold Platform.doc
      by_cases hid' : id' = i.1
      · rw [hid', hall.row, hnone]
      · rw [hall.others id' hid']
    · rw [if_neg hzero] at hcreate
      exact absurd (Prod.mk.inj hcreate).1 hinsert

end

/-! ## The calls -/

namespace VirtualTable

section

variable {p : Platform} {T : VirtualTable} {db : Db} (hok : ∀ n, db.succeeds n = true)
  (htable : HasBlobTable db T.blobTable)
include hok htable

/-- **A query.** -/
theorem does_query (hcovers : Covering p T) {where_ : Object} (h : Sayable p T where_)
    {fields : List Bytes}
    (hfields : ∀ f ∈ fields, isName f = true ∧ (T.table []).declares f = true) :
    ∃ ids calls, query p T db where_ fields
        = (some (ids.map (itemOf p T (p.doc db T.blobTable) fields)), db.after calls)
      ∧ Enumerates ids (matching p T (p.doc db T.blobTable) where_) := by
  obtain ⟨cond, rows, calls, hrun, hids, hrows⟩ := h.runs_query hok htable hcovers hfields
  refine ⟨rows.map (·.1), calls, ?_, hids⟩
  unfold query
  rw [hrun, List.map_map]
  refine Prod.ext (congrArg some (List.map_congr_left (fun r hr => ?_))) rfl
  show _ = report p T fields (r.1, xColumn ((p.doc db T.blobTable r.1).getD []))
  rw [← hrows r hr]
  rfl

/-- **A count.** -/
theorem does_count (hcovers : Covering p T) {where_ : Object} (h : Sayable p T where_) :
    ∃ calls, count p T db where_
      = (BitVec.ofNat 32 (matching p T (p.doc db T.blobTable) where_).ncard, db.after calls) := by
  obtain ⟨cond, rows, calls, hrun, hids, -⟩ := h.runs_count hok htable hcovers
  refine ⟨calls, ?_⟩
  unfold count
  rw [hrun, hids.ncard, List.length_map]

/-- The rowids that are collected. -/
theorem Sayable.collects (hcovers : Covering p T) {where_ : Object} (h : Sayable p T where_) :
    ∃ ids calls, rowIds p T db where_ = (some ids, db.after calls)
      ∧ Enumerates ids (matching p T (p.doc db T.blobTable) where_) := by
  have hrowid : ∀ f ∈ [lit "rowid"], isName f = true ∧ (T.table []).declares f = true := by
    intro f hf
    obtain rfl := List.mem_singleton.mp hf
    exact ⟨by decide, decide_eq_true (.inl rfl)⟩
  obtain ⟨cond, rows, calls, hrun, hids, -⟩ := h.runs_query hok htable hcovers hrowid
  refine ⟨rows.map (·.1), calls, Prod.ext ?_ ?_, hids⟩
  · rw [rowIds_rowsOf]
    unfold rowsOf
    rw [hrun]
    rfl
  · unfold VirtualTable.rowIds query
    dsimp only
    rw [hrun]

/-- **An update.** -/
theorem does_update (hcovers : Covering p T) {random : Nat → Option SaltBytes}
    (hrandom : ∀ n, (random n).isSome = true) {changes where_ : Object} (h : Sayable p T where_)
    (hrecords : ∀ id ∈ matching p T (p.doc db T.blobTable) where_, ∀ obj,
      p.doc db T.blobTable id = some obj → Recorded p (override obj changes)) :
    (update p T random db changes where_).1
        = BitVec.ofNat 32 (matching p T (p.doc db T.blobTable) where_).ncard
      ∧ p.doc (update p T random db changes where_).2 T.blobTable
        = change (p.doc db T.blobTable) (matching p T (p.doc db T.blobTable) where_)
            (fun obj => some (override obj changes))
      ∧ HasBlobTable (update p T random db changes where_).2 T.blobTable
      ∧ (update p T random db changes where_).2.succeeds = db.succeeds := by
  obtain ⟨ids, calls, hids, henum⟩ := h.collects hok htable hcovers
  obtain ⟨calls', calls'', htransact⟩ := transact_eq p random T.blobTable
    (show ∀ n, (db.after calls).succeeds n = true from hok)
    ((dbOps p T.blobTable random).updateRows changes) (fun _ => rfl) ids
  have hrun : update p T random db changes where_ = (BitVec.ofNat 32 ids.length,
      ((dbOps p T.blobTable random).updateRows changes ids
        ((db.after calls).after calls')).after calls'') := by
    unfold update
    rw [hids]
    exact htransact
  have hdocs : ∀ id ∈ ids, ∃ obj, p.doc ((db.after calls).after calls') T.blobTable id = some obj
      ∧ Recorded p (override obj changes) := by
    intro id hid
    obtain ⟨-, obj, hdoc, -⟩ := (henum.2 id).mp hid
    exact ⟨obj, hdoc, hrecords id ((henum.2 id).mp hid) obj hdoc⟩
  have hrows := updateRows_rowsSet p random ((htable.after calls).after calls') changes ids
  rw [hrun, henum.ncard]
  refine ⟨rfl, ?_, hrows.blobTable.after calls'', hrows.succeeds⟩
  funext id
  have hok' : ∀ n, ((db.after calls).after calls').succeeds n = true := hok
  refine (doc_updateRows hrandom hok' ((htable.after calls).after calls') henum.1 hdocs id).trans ?_
  by_cases hid : id ∈ ids
  · rw [if_pos hid, change_of_mem ((henum.2 id).mp hid)]
    exact Option.map_eq_bind
  · rw [if_neg hid, change_of_notMem (fun hmem => hid ((henum.2 id).mpr hmem))]
    rfl

/-- **A removal.** -/
theorem does_remove (hcovers : Covering p T) {random : Nat → Option SaltBytes} {where_ : Object}
    (h : Sayable p T where_) :
    (remove p T random db where_).1
        = BitVec.ofNat 32 (matching p T (p.doc db T.blobTable) where_).ncard
      ∧ p.doc (remove p T random db where_).2 T.blobTable
        = change (p.doc db T.blobTable) (matching p T (p.doc db T.blobTable) where_) (fun _ => none)
      ∧ HasBlobTable (remove p T random db where_).2 T.blobTable
      ∧ (remove p T random db where_).2.succeeds = db.succeeds := by
  obtain ⟨ids, calls, hids, henum⟩ := h.collects hok htable hcovers
  obtain ⟨calls', calls'', htransact⟩ := transact_eq p random T.blobTable
    (show ∀ n, (db.after calls).succeeds n = true from hok)
    ((dbOps p T.blobTable random).removeRows) (fun _ => rfl) ids
  have hrun : remove p T random db where_ = (BitVec.ofNat 32 ids.length,
      ((dbOps p T.blobTable random).removeRows ids
        ((db.after calls).after calls')).after calls'') := by
    unfold remove
    rw [hids]
    exact htransact
  have hrows := removeRows_rowsSet p random ((htable.after calls).after calls') ids
  have hgone := removeRows_row p random ((htable.after calls).after calls') hok ids
  rw [hrun, henum.ncard]
  refine ⟨rfl, ?_, hrows.blobTable.after calls'', hrows.succeeds⟩
  funext id
  refine (congrArg (fun row => (readBack p.aes_encrypt p.key row).bind p.readObject)
    (hgone id)).trans ?_
  by_cases hid : id ∈ ids
  · rw [if_pos hid, change_of_mem ((henum.2 id).mp hid)]
    exact (Option.bind_fun_none _).symm
  · rw [if_neg hid, change_of_notMem (fun hmem => hid ((henum.2 id).mpr hmem))]
    rfl

/-- An insertion that returns an id. -/
theorem docs_inserted {random : Option SaltBytes} {obj : Object} (hkeys : ∀ f ∈ obj, f.1 ∈ T.columns)
    (hsorted : OrdMap.Sorted obj) (hrecord : Recorded p (recordOf p T obj)) {id : BitVec 64}
    {db' : Db} (hinsert : insert p T random db obj = (id, db')) (hid : id ≠ 0) :
    p.doc db T.blobTable id = none
      ∧ p.doc db' T.blobTable
        = Function.update (p.doc db T.blobTable) id (some (recordOf p T obj))
      ∧ HasBlobTable db' T.blobTable ∧ db'.succeeds = db.succeeds := by
  obtain ⟨row, hset, hdoc⟩ := doc_inserted hok htable hrecord hkeys hsorted hinsert hid
  have hnew := createBlob_new (htable.after (db.calls + 2)) hid
    (insert_createBlob hkeys hsorted hinsert hid)
  rw [Db.row_after] at hnew
  refine ⟨?_, ?_, hset.blobTable, hset.succeeds⟩
  · unfold Platform.doc
    rw [hnew]
    rfl
  · funext id'
    rw [doc_rowSet p hset id', hdoc]

/-- **An insertion.** -/
theorem does_insert {random : Option SaltBytes} (hrandom : random.isSome = true) {obj : Object}
    (hkeys : ∀ f ∈ obj, f.1 ∈ T.columns) (hsorted : OrdMap.Sorted obj)
    (hrecord : Recorded p (recordOf p T obj)) :
    Does p (p.doc db T.blobTable) (.insert T obj) (.id (insert p T random db obj).1)
        (p.doc (insert p T random db obj).2 T.blobTable)
      ∧ HasBlobTable (insert p T random db obj).2 T.blobTable
      ∧ (insert p T random db obj).2.succeeds = db.succeeds := by
  obtain ⟨salt, rfl⟩ := Option.isSome_iff_exists.mp hrandom
  generalize hinsert : insert p T (some salt) db obj = r
  obtain ⟨id, db'⟩ := r
  by_cases hid : id = 0
  · subst hid
    rcases @insert_cases p T db obj hkeys hsorted (some salt) with ⟨calls, hnone⟩ | hcreate
    · obtain rfl := (Prod.mk.inj (hnone.symm.trans hinsert)).2
      exact ⟨.notInserted, htable.after calls, rfl⟩
    · obtain ⟨hdoc, htable', hsucceeds⟩ := createBlob_refused (htable.after (db.calls + 2))
        (show ∀ n, (db.after (db.calls + 2)).succeeds n = true from hok) salt
        (hcreate.symm.trans hinsert)
      refine ⟨?_, htable', hsucceeds⟩
      rw [hdoc]
      exact .notInserted
  · obtain ⟨hnone, hdocs, htable', hsucceeds⟩ :=
      docs_inserted hok htable hkeys hsorted hrecord hinsert hid
    refine ⟨?_, htable', hsucceeds⟩
    rw [hdocs]
    exact .inserted hid hnone

end

end VirtualTable

section

variable {p : Platform} {random : Nat → Option SaltBytes} {blobTable : Bytes}

/-- **What a call does**, and that the next one can be made. -/
theorem does_perform (hcovers : ∀ T, Covering p T) (hrandom : ∀ n, (random n).isSome = true)
    {db : Db} (hok : ∀ n, db.succeeds n = true) (htable : HasBlobTable db blobTable) {call : Call}
    (hgood : Good p blobTable (p.doc db blobTable) call) :
    Does p (p.doc db blobTable) call (perform p random db call).1
        (p.doc (perform p random db call).2 blobTable)
      ∧ HasBlobTable (perform p random db call).2 blobTable
      ∧ (perform p random db call).2.succeeds = db.succeeds := by
  cases call with
  | insert T obj =>
    obtain ⟨rfl, hkeys, hsorted, hrecord⟩ := hgood
    exact does_insert hok htable (hrandom db.calls) hkeys hsorted hrecord
  | update T changes where_ =>
    obtain ⟨rfl, hsayable, hrecords⟩ := hgood
    obtain ⟨hreply, hdocs, htable', hsucceeds⟩ :=
      does_update hok htable (hcovers T) hrandom hsayable hrecords
    refine ⟨?_, htable', hsucceeds⟩
    unfold perform
    dsimp only
    rw [hreply, hdocs]
    exact .updated
  | remove T where_ =>
    obtain ⟨rfl, hsayable⟩ := hgood
    obtain ⟨hreply, hdocs, htable', hsucceeds⟩ :=
      @does_remove p T db hok htable (hcovers T) random where_ hsayable
    refine ⟨?_, htable', hsucceeds⟩
    unfold perform
    dsimp only
    rw [hreply, hdocs]
    exact .removed
  | query T where_ fieldsToReturn =>
    obtain ⟨rfl, hsayable, hfields⟩ := hgood
    obtain ⟨ids, calls, hquery, hids⟩ := does_query hok htable (hcovers T) hsayable hfields
    unfold perform
    dsimp only
    rw [hquery]
    exact ⟨.queried hids, htable.after calls, rfl⟩
  | count T where_ =>
    obtain ⟨rfl, hsayable⟩ := hgood
    obtain ⟨calls, hcount⟩ := does_count hok htable (hcovers T) hsayable
    unfold perform
    dsimp only
    rw [hcount]
    exact ⟨.counted, htable.after calls, rfl⟩

/-- A store that can be used. -/
def Usable (blobTable : Bytes) (db : Db) : Prop :=
  (∀ n, db.succeeds n = true) ∧ HasBlobTable db blobTable

end

/-! ## Two stores -/

/-- What a query on the table reports, and what is counted, is the same but for the order. -/
structure Undisturbed (p : Platform) (T : VirtualTable) (db db' : Db) (where_ : Object)
    (fields : List Bytes) : Prop where
  query : ∃ items items', (query p T db where_ fields).1 = some items
    ∧ (query p T db' where_ fields).1 = some items' ∧ items.Perm items'
  count : (count p T db' where_).1 = (count p T db where_).1

/-- A query that is about the same ids, with the same reported of them. -/
theorem undisturbed_of_matching {p : Platform} {T : VirtualTable} (hcovers : Covering p T)
    {db db' : Db} (husable : Usable T.blobTable db) (husable' : Usable T.blobTable db')
    {where_ : Object} (hsayable : Sayable p T where_) {fields : List Bytes}
    (hfields : ∀ f ∈ fields, isName f = true ∧ (T.table []).declares f = true)
    (hsame : matching p T (p.doc db' T.blobTable) where_
      = matching p T (p.doc db T.blobTable) where_)
    (hitems : ∀ id ∈ matching p T (p.doc db T.blobTable) where_,
      itemOf p T (p.doc db' T.blobTable) fields id = itemOf p T (p.doc db T.blobTable) fields id) :
    Undisturbed p T db db' where_ fields := by
  constructor
  · obtain ⟨ids, calls, hquery, hids⟩ :=
      does_query husable.1 husable.2 hcovers hsayable hfields
    obtain ⟨ids', calls', hquery', hids'⟩ :=
      does_query husable'.1 husable'.2 hcovers hsayable hfields
    rw [hsame] at hids'
    refine ⟨_, _, congrArg Prod.fst hquery, congrArg Prod.fst hquery', ?_⟩
    rw [List.map_congr_left (fun id hid => hitems id ((hids'.2 id).mp hid))]
    exact (hids.perm hids').map _
  · obtain ⟨calls, hcount⟩ := does_count husable.1 husable.2 hcovers hsayable
    obtain ⟨calls', hcount'⟩ := does_count husable'.1 husable'.2 hcovers hsayable
    rw [hcount, hcount', hsame]

/-! ## A small run -/

/-- A blob of the type 2, and nothing else. -/
def ofTwo : Db := blobsDb [(2, ofTypeTwo)]

theorem doc_ofTwo {id : BitVec 64} {obj : Object} (h : deep.doc ofTwo (lit "blobs") id = some obj) :
    id = 2 ∧ obj = [(lit "_$type", .int32 2)] := by
  by_cases hid : id = 2
  · subst hid
    have hdoc : deep.doc ofTwo (lit "blobs") 2 = some [(lit "_$type", .int32 2)] := rfl
    exact ⟨rfl, Option.some.inj (h.symm.trans hdoc)⟩
  · have hrow : ofTwo.row (lit "blobs") id = none := by
      show (if (2 : BitVec 64) = id then _ else none) = none
      rw [if_neg (fun he => hid he.symm)]
    unfold Platform.doc at h
    rw [hrow] at h
    cases h

theorem length_sevens : (List.replicate 12 (7 : UInt8)).length = 12 := by decide

/-- Random bytes. -/
def sevens : Nat → Option SaltBytes := fun _ => some ⟨List.replicate 12 7, length_sevens⟩

theorem good_update : Good deep (lit "blobs") (deep.doc ofTwo (lit "blobs"))
    (.update (names 2) nameA []) := by
  have hrecord : Recorded deep (override [(lit "_$type", .int32 2)] nameA) := by
    have hround : RoundTripFields (override [(lit "_$type", .int32 2)] nameA) :=
      .cons ⟨by decide, by decide⟩ (.int32 2) (.cons ⟨by decide, by decide⟩ (.string ⟨by decide, by decide⟩) .nil)
    exact recorded_of_document ⟨.object (by decide) hround, rfl, by decide, by decide +kernel⟩
      (by decide +kernel) (by decide +kernel)
  refine ⟨rfl, sayable_nil, ?_⟩
  intro id _ obj hobj
  obtain ⟨-, rfl⟩ := doc_ofTwo hobj
  exact hrecord

/-- A name can be stored. -/
theorem recorded_name {s : Bytes} (hs : Carried s)
    (hdepth : depth (.object (recordOf deep (names 1) [(lit "name", .string s)])) ≤ 63)
    (hlen : (encode (.object (recordOf deep (names 1) [(lit "name", .string s)]))).length
      ≤ deep.sqlite.maxLength)
    (hfuel : fuelOf (.object (recordOf deep (names 1) [(lit "name", .string s)])) ≤ deep.fuel)
    (hstring : fuelOf (.string s) ≤ deep.fuel) :
    Recorded deep (recordOf deep (names 1) [(lit "name", .string s)]) := by
  have hf : ∀ f ∈ [(lit "name", Value.string s)], f = (lit "name", .string s) :=
    fun f hf => List.mem_singleton.mp hf
  refine (storable_of_kept ?_ ?_ ?_ hdepth hlen hfuel).record
  · intro f h
    rw [hf f h]
    exact hs
  · intro f h
    rw [hf f h]
    exact hstring
  · intro f h
    rw [hf f h]
    trivial

theorem recorded_nameA : Recorded deep (recordOf deep (names 1) nameA) :=
  recorded_name (by unfold Carried; decide) (by decide +kernel) (by decide +kernel)
    (by decide +kernel) (by decide)

end Zway.Ubj.Store
