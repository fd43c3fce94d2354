import Zway.Store.BlobUpdate
import Zway.Store.VirtualTable

/-!
# What a scan of a virtual table finds

A scan calls the store for every id it goes through, and none of these calls changes a
table. So if they succeed, the scan depends on the blobs alone: on `doc`, the object that
lies in a blob, and on which blobs are `ofType` of the table.
-/

namespace Zway.Ubj.Store

open Sql

/-! ## Reading changes nothing -/

section

variable (sqlite : Behaviour) (behind : BitVec 32) (aes_encrypt : Bytes → Bytes → Bytes)
  (key : MemoryBuffer) {db : Db} {table : Bytes} {id : BitVec 64}

theorem Blob.read_after (b : Blob) (db : Db) (size offset : UInt32) :
    (b.read aes_encrypt db size offset).2.2 = db.after (db.calls + 1) := by
  have hafter : (db.blobRead b.table (lit "data") b.id size offset).2 = db.after (db.calls + 1) := rfl
  generalize hread : db.blobRead b.table (lit "data") b.id size offset = r at hafter
  obtain ⟨data, db'⟩ := r
  cases data with
  | none =>
    rw [b.read_none aes_encrypt hread]
    exact hafter
  | some data =>
    rw [b.read_some aes_encrypt hread]
    by_cases hmode : b.mode = true
    · rw [if_pos hmode]
      exact hafter
    · rw [if_neg hmode]
      exact hafter

theorem getBlobData_after (htable : HasBlobTable db table) :
    ∃ calls, (getBlobData sqlite behind aes_encrypt key db table id).2 = db.after calls := by
  have hopen : (∃ blob calls, openBlob sqlite behind key db table id = (some blob, db.after calls))
      ∨ ∃ calls, openBlob sqlite behind key db table id = (none, db.after calls) := by
    by_cases hsome : opens db = true ∧ ((db.row table id).bind dataOf).isSome = true
    · obtain ⟨hopens, hsome⟩ := hsome
      obtain ⟨data, hdata⟩ := Option.isSome_iff_exists.mp hsome
      obtain ⟨row, hrow, hdata⟩ := Option.bind_eq_some_iff.mp hdata
      exact .inl ⟨_, _, openBlob_some sqlite behind key htable hopens hrow hdata⟩
    · refine .inr (openBlob_none sqlite behind key htable (fun hopens => ?_))
      cases hdata : (db.row table id).bind dataOf with
      | none => rfl
      | some data => exact absurd ⟨hopens, by rw [hdata]; rfl⟩ hsome
  unfold getBlobData
  rcases hopen with ⟨blob, calls, hopen⟩ | ⟨calls, hopen⟩
  · rw [hopen]
    exact ⟨_, Blob.read_after aes_encrypt blob (db.after calls) blob.size 0⟩
  · rw [hopen]
    exact ⟨calls, rfl⟩

end

/-- The rowids of a table. -/
def blobIds (db : Db) (table : Bytes) : List (BitVec 64) :=
  ((db.tables table).map (fun t => t.rows.map (·.1))).getD []

theorem mem_blobIds {db : Db} {table : Bytes} {id : BitVec 64} :
    id ∈ blobIds db table ↔ (db.row table id).isSome = true := by
  unfold blobIds Db.row
  cases db.tables table with
  | none => simp
  | some t =>
    show id ∈ t.rows.map (·.1) ↔ (OrdMap.find? t.rows id).isSome = true
    induction t.rows with
    | nil => exact ⟨fun h => absurd h List.not_mem_nil, fun h => absurd h (by simp [OrdMap.find?])⟩
    | cons r rows ih =>
      rw [List.map_cons, List.mem_cons, OrdMap.find?]
      by_cases hid : r.1 = id
      · rw [if_pos hid]
        exact ⟨fun _ => rfl, fun _ => .inl hid.symm⟩
      · rw [if_neg hid, ← ih]
        exact ⟨fun h => h.resolve_left (fun he => hid he.symm), .inr⟩

namespace Platform

variable (p : Platform)

/-- The object in a blob. -/
def doc (db : Db) (table : Bytes) (id : BitVec 64) : Option Object :=
  (readBack p.aes_encrypt p.key (db.row table id)).bind p.readObject

variable {db : Db} {table : Bytes} (hok : ∀ n, db.succeeds n = true)
  (htable : HasBlobTable db table)
include hok htable

theorem getBlobObject_eq (calls : Nat) (id : BitVec 64) :
    ∃ calls', p.getBlobObject (db.after calls) table id = (p.doc db table id, db.after calls') := by
  obtain ⟨calls', hafter⟩ := @getBlobData_after p.sqlite p.behind p.aes_encrypt p.key
    (db.after calls) table id (htable.after calls)
  have hdata := @getBlobData_eq p.sqlite p.behind p.aes_encrypt p.key (db.after calls) table id
    (htable.after calls) hok
  refine ⟨calls', Prod.ext ?_ hafter⟩
  unfold getBlobObject doc readBack
  dsimp only
  rw [hdata, Db.row_after]
  cases (db.row table id).bind (contents p.aes_encrypt p.key) with
  | none => rfl
  | some data => rfl

/-- The ids that are listed. -/
theorem getBlobIds_eq (calls : Nat) : ∃ calls',
    p.getBlobIds (db.after calls) table = ((blobIds db table).map .int64, db.after calls') := by
  obtain ⟨t, ht, hkey, -⟩ := htable.exists_table
  have ht' : (db.after calls).tables table = some t := ht
  have hnames : ∀ c ∈ [lit "id"], isName c = true := by decide
  have hwhere : parseWhere 0 (tokens (whereText [])) = some none := rfl
  have hparse := parse_query htable.name hnames (List.cons_ne_nil _ _) hwhere
  have hvalid : (Stmt.select [lit "id"] table none).declared (db.after calls).tables = true := by
    unfold Stmt.declared
    show (db.tables table).any _ = true
    rw [ht]
    show List.all [lit "id"] t.declares = true
    rw [List.all_cons, List.all_nil, Bool.and_true]
    exact decide_eq_true (.inl hkey.symm)
  have hacts : acts (db.after calls) = true := acts_of_succeeds hok
  have hvals : Store.paramVals p.sqlite p.behind (QueryAction.sql table [] [] [lit "id"] 0 0).2 = some [] := rfl
  have hvalue : ∀ (id : BitVec 64) (row : Row), t.value id row (lit "id") = .integer id :=
    fun id row => if_pos (.inl hkey.symm)
  have hfield : ∀ r ∈ t.rows,
      field (rowToUbj (t.report [lit "id"] r.1 r.2)) (lit "id") = .int64 r.1 := by
    intro r hr
    have hreport : t.report [lit "id"] r.1 r.2 = [(lit "id", t.value r.1 r.2 (lit "id"))] := rfl
    rw [hreport, hvalue]
    rfl
  refine ⟨calls + 2, ?_⟩
  unfold getBlobIds blobIds
  rw [runAction_eq p.sqlite p.behind hparse hvalid, if_pos hacts, hvals, Option.bind_some]
  unfold exec
  dsimp only
  rw [ht', ht]
  simp only [Option.map_some, Option.getD_some]
  refine Prod.ext ?_ rfl
  dsimp only
  have hall : t.rows.filter (fun r => t.meets p.sqlite none [] r.1 r.2) = t.rows :=
    List.filter_eq_self.mpr (fun _ _ => rfl)
  rw [hall, List.map_map, List.map_map]
  exact List.map_congr_left hfield

end Platform

namespace VirtualTable

variable (p : Platform) (T : VirtualTable)

/-! ## The index of the types -/

/-- The objects of the table have this in their `_$type`. Values with the same text are the same
type. -/
def typeText : Bytes := (Value.int32 T.type).toStr p.printed

/-- The type that an object says it has. -/
def typeOf (obj : Object) : Option Bytes := (OrdMap.find? obj (lit "_$type")).map (·.toStr p.printed)

/-- **A blob of the table**: its `_$type` is that of the table. -/
def ofType (db : Db) (id : BitVec 64) : Prop :=
  ∃ obj, p.doc db T.blobTable id = some obj ∧ typeOf p obj = some (typeText p T)

instance (db : Db) (id : BitVec 64) : Decidable (ofType p T db id) :=
  match h : p.doc db T.blobTable id with
  | none => isFalse (fun ⟨_, hobj, _⟩ => by rw [h] at hobj; cases hobj)
  | some obj =>
      if htype : typeOf p obj = some (typeText p T) then isTrue ⟨obj, h, htype⟩
      else isFalse (fun ⟨_, hobj, ht⟩ => by
        rw [h] at hobj
        exact htype (Option.some.inj hobj ▸ ht))

/-- Add what is not there yet. -/
def addNew (ids : List (BitVec 32)) (id : BitVec 32) : List (BitVec 32) :=
  if ids.contains id then ids else ids ++ [id]

/-- The ids of an entry of the index. -/
def Lists (index : Object) (val : Bytes) (ids : List (BitVec 32)) : Prop :=
  OrdMap.find? index val = if ids.isEmpty then none else some (.array (ids.map .int32))

theorem addNew_of_mem {ids : List (BitVec 32)} {id : BitVec 32} (h : id ∈ ids) :
    addNew ids id = ids := if_pos (List.contains_iff_mem.mpr h)

theorem addNew_of_notMem {ids : List (BitVec 32)} {id : BitVec 32} (h : id ∉ ids) :
    addNew ids id = ids ++ [id] := if_neg (fun hc => h (List.contains_iff_mem.mp hc))

theorem addNew_ne_nil (ids : List (BitVec 32)) (id : BitVec 32) : (addNew ids id).isEmpty = false := by
  by_cases hmem : id ∈ ids
  · rw [addNew_of_mem hmem]
    exact List.isEmpty_eq_false_iff_exists_mem.mpr ⟨id, hmem⟩
  · rw [addNew_of_notMem hmem]
    simp

/-- What `addIndexItem` does to an entry. -/
theorem Lists.addIndexItem {index : Object} {val : Bytes} {ids : List (BitVec 32)}
    (h : Lists index val ids) (val' : Bytes) (id : BitVec 32) :
    Lists (addIndexItem index val' id) val (if val' = val then addNew ids id else ids) := by
  unfold VirtualTable.addIndexItem
  by_cases hval : val' = val
  · subst hval
    rw [if_pos rfl]
    unfold Lists at h ⊢
    rw [h, addNew_ne_nil, if_neg Bool.false_ne_true]
    cases ids with
    | nil => exact OrdMap.find?_insert_self ..
    | cons i ids =>
      have hcons : (i :: ids).isEmpty = false := rfl
      rw [hcons, if_neg Bool.false_ne_true]
      dsimp only
      have hany : ((i :: ids).map Value.int32).any (fun v => v.toInt == id) = true
          ↔ id ∈ i :: ids := by
        rw [List.any_map, List.any_eq_true]
        constructor
        · rintro ⟨j, hj, heq⟩
          exact (beq_iff_eq.mp heq : j = id) ▸ hj
        · intro hmem
          exact ⟨id, hmem, beq_iff_eq.mpr rfl⟩
      by_cases hmem : id ∈ i :: ids
      · rw [if_pos (hany.mpr hmem), addNew_of_mem hmem, h]
        rfl
      · rw [if_neg (fun hc => hmem (hany.mp hc)), addNew_of_notMem hmem,
          OrdMap.find?_insert_self, List.map_append]
        rfl
  · rw [if_neg hval]
    unfold Lists at h ⊢
    rw [← h]
    cases OrdMap.find? index val' with
    | none => exact OrdMap.find?_insert_of_ne _ _ (fun he => hval he.symm)
    | some v =>
      cases v with
      | array items =>
        dsimp only
        by_cases hany : items.any (fun v => v.toInt == id) = true
        · rw [if_pos hany]
        · rw [if_neg hany]
          exact OrdMap.find?_insert_of_ne _ _ (fun he => hval he.symm)
      | _ => rfl

/-- The ids of a table, in the order of their blobs. Ids are numbers of 32 bits here. -/
def typedIds (db : Db) : List (BitVec 32) :=
  ((blobIds db T.blobTable).map (·.setWidth 32)).foldl
    (fun ids id => if ofType p T db (id.setWidth 64) then addNew ids id else ids) []

theorem foldl_addNew (q : BitVec 32 → Prop) [DecidablePred q] (all : List (BitVec 32)) :
    ∀ ids : List (BitVec 32), ids.Nodup →
      (all.foldl (fun ids id => if q id then addNew ids id else ids) ids).Nodup
      ∧ ∀ id, id ∈ all.foldl (fun ids id => if q id then addNew ids id else ids) ids
          ↔ id ∈ ids ∨ (id ∈ all ∧ q id) := by
  induction all with
  | nil => exact fun ids hids => ⟨hids, fun id => by simp⟩
  | cons i all ih =>
    intro ids hids
    rw [List.foldl_cons]
    have hstep : (if q i then addNew ids i else ids).Nodup
        ∧ ∀ id, id ∈ (if q i then addNew ids i else ids) ↔ id ∈ ids ∨ (id = i ∧ q i) := by
      by_cases hq : q i
      · rw [if_pos hq]
        by_cases hmem : i ∈ ids
        · rw [addNew_of_mem hmem]
          refine ⟨hids, fun id => ⟨.inl, ?_⟩⟩
          rintro (h | ⟨rfl, -⟩)
          · exact h
          · exact hmem
        · rw [addNew_of_notMem hmem]
          refine ⟨?_, fun id => ?_⟩
          · rw [List.nodup_append]
            refine ⟨hids, List.nodup_singleton _, ?_⟩
            intro a ha b hb heq
            rw [List.mem_singleton.mp hb] at heq
            exact hmem (heq ▸ ha)
          · rw [List.mem_append, List.mem_singleton]
            exact ⟨fun h => h.imp_right (fun he => ⟨he, hq⟩), fun h => h.imp_right (·.1)⟩
      · rw [if_neg hq]
        exact ⟨hids, fun id => ⟨.inl, fun h => h.resolve_right (fun hc => hq hc.2)⟩⟩
    obtain ⟨hnodup, hmem⟩ := ih _ hstep.1
    refine ⟨hnodup, fun id => ?_⟩
    rw [hmem, hstep.2, List.mem_cons]
    constructor
    · rintro ((h | ⟨rfl, h⟩) | ⟨h, hq⟩)
      · exact .inl h
      · exact .inr ⟨.inl rfl, h⟩
      · exact .inr ⟨.inr h, hq⟩
    · rintro (h | ⟨rfl | h, hq⟩)
      · exact .inl (.inl h)
      · exact .inl (.inr ⟨rfl, hq⟩)
      · exact .inr ⟨h, hq⟩

theorem typedIds_nodup (db : Db) : (typedIds p T db).Nodup :=
  (foldl_addNew _ _ [] List.nodup_nil).1

theorem mem_typedIds {db : Db} {id : BitVec 32} :
    id ∈ typedIds p T db ↔ id ∈ (blobIds db T.blobTable).map (·.setWidth 32)
      ∧ ofType p T db (id.setWidth 64) := by
  unfold typedIds
  rw [(foldl_addNew _ _ [] List.nodup_nil).2]
  exact ⟨fun h => h.resolve_left List.not_mem_nil, .inr⟩

/-! ## Reading for an index -/

/-- **What the store answers**, now and later: a record for each id, or none, and the ids of the
blob table. -/
structure Answers (record : BitVec 32 → Option Object) (all : List (BitVec 64)) (Same : Db → Prop) :
    Prop where
  object : ∀ db id, Same db → (p.getBlobObject db T.blobTable (id.setWidth 64)).1 = record id
    ∧ Same (p.getBlobObject db T.blobTable (id.setWidth 64)).2
  ids : ∀ db, Same db → (p.getBlobIds db T.blobTable).1 = all.map .int64
    ∧ Same (p.getBlobIds db T.blobTable).2

/-- A store whose calls succeed answers with what is in it. -/
theorem answers_of_works {db : Db} (hok : ∀ n, db.succeeds n = true)
    (htable : HasBlobTable db T.blobTable) :
    Answers p T (fun id => p.doc db T.blobTable (id.setWidth 64)) (blobIds db T.blobTable)
      (fun db' => ∃ calls, db' = db.after calls) where
  object := by
    rintro - id ⟨calls, rfl⟩
    obtain ⟨calls', hread⟩ := p.getBlobObject_eq hok htable calls (id.setWidth 64)
    rw [hread]
    exact ⟨rfl, calls', rfl⟩
  ids := by
    rintro - ⟨calls, rfl⟩
    obtain ⟨calls', hids⟩ := p.getBlobIds_eq hok htable calls
    rw [hids]
    exact ⟨rfl, calls', rfl⟩

/-- The text of a column in a record. -/
def textOf (record : BitVec 32 → Option Object) (column : Bytes) (id : BitVec 32) : Option Bytes :=
  ((record id).bind (OrdMap.find? · column)).map (·.toStr p.printed)

section

variable {p T} {record : BitVec 32 → Option Object} {all : List (BitVec 64)} {Same : Db → Prop}

/-- An entry of an index, after some more ids. -/
theorem Answers.createIndexLoop (h : Answers p T record all Same) (column val : Bytes) :
    ∀ {ids : List Value} {res : Object} {found : List (BitVec 32)} {db : Db}, Same db →
      Lists res val found →
      Lists (createIndexLoop p T column ids res db).1 val ((ids.map Value.toInt).foldl
          (fun ids id => if textOf p record column id = some val then addNew ids id else ids) found)
        ∧ Same (createIndexLoop p T column ids res db).2
  | [], res, found, db, hdb, hlists => ⟨hlists, hdb⟩
  | v :: ids, res, found, db, hdb, hlists => by
      obtain ⟨hobject, hdb'⟩ := h.object db v.toInt hdb
      have htext : textOf p record column v.toInt
          = ((record v.toInt).bind (OrdMap.find? · column)).map (·.toStr p.printed) := rfl
      rw [List.map_cons, List.foldl_cons, htext, VirtualTable.createIndexLoop, hobject]
      cases (record v.toInt).bind (OrdMap.find? · column) with
      | none => exact h.createIndexLoop column val hdb' hlists
      | some field =>
        have hnext := hlists.addIndexItem (field.toStr p.printed) v.toInt
        have hsame : ((some field).map (·.toStr p.printed) = some val)
            ↔ field.toStr p.printed = val := ⟨Option.some.inj, congrArg some⟩
        simp only [hsame]
        exact h.createIndexLoop column val hdb' hnext

/-- **An entry of an index**, for some ids or, if there are none, for all of the table. -/
theorem Answers.createIndex (h : Answers p T record all Same) (column val : Bytes) {ids : List Value}
    {db : Db} (hdb : Same db) :
    Lists (createIndex p T column ids db).1 val
        ((if ids.isEmpty then all.map (·.setWidth 32) else ids.map Value.toInt).foldl
          (fun ids id => if textOf p record column id = some val then addNew ids id else ids) [])
      ∧ Same (createIndex p T column ids db).2 := by
  obtain ⟨hall, hdb'⟩ := h.ids db hdb
  have hempty : Lists [] val [] := rfl
  unfold VirtualTable.createIndex
  dsimp only
  by_cases hnil : ids.isEmpty = true
  · rw [if_pos hnil, if_pos hnil, hall]
    have hwidth : all.map (·.setWidth 32) = (all.map Value.int64).map Value.toInt := by
      rw [List.map_map]
      rfl
    rw [hwidth]
    exact h.createIndexLoop column val hdb' hempty
  · rw [if_neg hnil, if_neg hnil]
    exact h.createIndexLoop column val hdb hempty

/-- The array in an entry. -/
theorem Lists.toArray {index : Object} {val : Bytes} {ids : List (BitVec 32)}
    (h : Lists index val ids) : toArray (field index val) = ids.map .int32 := by
  unfold field
  rw [show OrdMap.find? index val = _ from h]
  cases ids with
  | nil => rfl
  | cons id ids => rfl

/-- The rows of a scan. -/
theorem Answers.filterRows (h : Answers p T record all Same) : ∀ (ids : List Value) {db : Db}, Same db →
    (VirtualTable.filterRows p T ids db).1
        = (ids.map Value.toInt).filterMap (fun id => (record id).map (fun obj => (id, obj)))
      ∧ Same (VirtualTable.filterRows p T ids db).2
  | [], db, hdb => ⟨rfl, hdb⟩
  | v :: ids, db, hdb => by
      obtain ⟨hobject, hdb'⟩ := h.object db v.toInt hdb
      obtain ⟨hrows, hdb''⟩ := h.filterRows ids hdb'
      rw [List.map_cons, List.filterMap_cons, VirtualTable.filterRows, hobject]
      cases record v.toInt with
      | none => exact ⟨hrows, hdb''⟩
      | some obj => exact ⟨congrArg ((v.toInt, obj) :: ·) hrows, hdb''⟩

/-- **`m_ids` are the ids with the type of the table.** -/
theorem Answers.updateIds (h : Answers p T record all Same) {db : Db} (hdb : Same db) :
    (updateIds p T db).1 = ((all.map (·.setWidth 32)).foldl (fun ids id =>
        if textOf p record (lit "_$type") id = some (typeText p T) then addNew ids id else ids)
        []).map .int32
      ∧ Same (updateIds p T db).2 := by
  obtain ⟨hall, hdb'⟩ := h.ids db hdb
  obtain ⟨hlists, hdb''⟩ :=
    @Answers.createIndex p T record all Same h (lit "_$type") (typeText p T) (all.map .int64) _ hdb'
  unfold VirtualTable.updateIds
  dsimp only
  rw [hall]
  refine ⟨?_, hdb''⟩
  have hids : (if (all.map Value.int64).isEmpty then all.map (·.setWidth 32)
      else (all.map Value.int64).map Value.toInt) = all.map (·.setWidth 32) := by
    rw [List.map_map]
    exact ite_self _
  rw [hids] at hlists
  exact hlists.toArray

end

section

variable {db : Db} (hok : ∀ n, db.succeeds n = true) (htable : HasBlobTable db T.blobTable)
include hok htable

/-- **`m_ids` are the ids of the blobs of the table.** -/
theorem updateIds_eq :
    ∃ calls, updateIds p T db = ((typedIds p T db).map .int32, db.after calls) := by
  obtain ⟨hids, calls, hcalls⟩ := (answers_of_works p T hok htable).updateIds ⟨db.calls, rfl⟩
  refine ⟨calls, Prod.ext (hids.trans ?_) hcalls⟩
  have htype : ∀ id : BitVec 32, textOf p (fun id => p.doc db T.blobTable (id.setWidth 64))
      (lit "_$type") id = some (typeText p T) ↔ ofType p T db (id.setWidth 64) := by
    intro id
    unfold textOf ofType typeOf
    dsimp only
    cases p.doc db T.blobTable (id.setWidth 64) with
    | none =>
      constructor
      · intro htext
        cases htext
      · rintro ⟨obj, hobj, -⟩
        cases hobj
    | some obj =>
      constructor
      · intro htext
        exact ⟨obj, rfl, htext⟩
      · rintro ⟨obj', hobj, htext⟩
        obtain rfl := Option.some.inj hobj
        exact htext
  unfold typedIds
  simp only [htype]

end

/-! ## The rows of a scan -/

/-- A row, if there is an object for its id. -/
def rowOf (db : Db) (id : BitVec 32) : Option (BitVec 64 × Row) :=
  (p.doc db T.blobTable (id.setWidth 64)).map (fun obj => (id.setWidth 64, xColumn obj))

/-- The constraint on the rowid that counts, if it is an equality. -/
def pickedBy (scan : Scan) : Option Constraint :=
  ((scan.filter (fun c => decide (c.iColumn = -1))).getLast?).filter
    (fun c => decide (c.op = SQLITE_INDEX_CONSTRAINT_EQ))

/-- The ids that a scan goes through: the one it asks for, or all of the table. -/
def scanIds (db : Db) (scan : Scan) : List (BitVec 32) :=
  match pickedBy scan with
  | some c => [(p.value_int64 c.rhs).setWidth 32]
  | none => typedIds p T db

theorem xBestIndex_eq {α : Type} (iColumn : α → Int) (constraints : List α) :
    xBestIndex iColumn constraints =
      match (constraints.filter (fun c => decide (iColumn c = -1))).getLast? with
      | some c => (-1, some c)
      | none => (0, none) := by
  have hgo : ∀ (constraints : List α) (best : Int × Option α),
      constraints.foldl (fun best c => if iColumn c = -1 then (-1, some c) else best) best
        = match (constraints.filter (fun c => decide (iColumn c = -1))).getLast? with
          | some c => (-1, some c)
          | none => best := by
    intro constraints
    induction constraints with
    | nil => exact fun _ => rfl
    | cons c constraints ih =>
      intro best
      rw [List.foldl_cons, ih]
      by_cases hc : iColumn c = -1
      · rw [List.filter_cons_of_pos (by exact decide_eq_true hc), if_pos hc, List.getLast?_cons]
        cases (constraints.filter (fun c => decide (iColumn c = -1))).getLast? with
        | none => rfl
        | some c' => rfl
      · rw [List.filter_cons_of_neg (by exact fun h => hc (of_decide_eq_true h)), if_neg hc]
  exact hgo constraints (0, none)

/-- The constraint that is picked. -/
theorem xBestIndex_snd {α : Type} (iColumn : α → Int) (constraints : List α) :
    (xBestIndex iColumn constraints).2
      = (constraints.filter (fun c => decide (iColumn c = -1))).getLast? := by
  rw [xBestIndex_eq]
  cases (constraints.filter (fun c => decide (iColumn c = -1))).getLast? with
  | none => rfl
  | some c => rfl

/-- What compares the rowid on top only can be planned. -/
theorem planned_of_onTop {stmt : Stmt} (h : rowidOnTop (condOf stmt) = true) :
    planned p stmt = true := by
  unfold planned
  rw [List.all_eq_true]
  intro offer hoffer
  rw [xBestIndex_snd]
  cases hlast : (offer.filter (fun c => decide (c.iColumn = -1))).getLast? with
  | none => rfl
  | some c =>
    obtain ⟨hmem, hcolumn⟩ := List.mem_filter.mp (List.mem_of_getLast? hlast)
    exact p.offers_usable _ h offer hoffer c hmem (of_decide_eq_true hcolumn)

/-- **Alternatives for the rowid cannot be planned.** -/
theorem not_planned_of_rowidIn {stmt : Stmt} {cond : Cond} (hcond : condOf stmt = some cond)
    (h : cond.rowidIn = true) : planned p stmt = false := by
  obtain ⟨offer, hoffer, c, hlast, hunusable⟩ := p.offers_rowids cond h
  rw [Bool.eq_false_iff]
  intro hplanned
  unfold planned at hplanned
  rw [hcond, List.all_eq_true] at hplanned
  have hpicked := hplanned offer hoffer
  rw [xBestIndex_snd, hlast, Option.all_some, hunusable] at hpicked
  cases hpicked

theorem filterIds_eq (db : Db) (scan : Scan) :
    (filterIds p ((typedIds p T db).map .int32) scan).map Value.toInt = scanIds p T db scan := by
  have hids : ((typedIds p T db).map Value.int32).map Value.toInt = typedIds p T db := by
    rw [List.map_map]
    exact List.map_id _
  unfold filterIds scanIds pickedBy
  rw [xBestIndex_eq]
  cases (scan.filter (fun c => decide (c.iColumn = -1))).getLast? with
  | none => exact hids
  | some c =>
    by_cases hop : c.op = SQLITE_INDEX_CONSTRAINT_EQ
    · simp only [hop, Option.filter, decide_true, if_true]
      rfl
    · simp only [hop, Option.filter, decide_false, if_false, Bool.false_eq_true]
      exact hids

section

variable {db : Db} (hok : ∀ n, db.succeeds n = true) (htable : HasBlobTable db T.blobTable)
include hok htable

theorem filterRows_eq (ids : List Value) (calls : Nat) : ∃ rows calls',
    filterRows p T ids (db.after calls) = (rows, db.after calls')
      ∧ scanRows rows = (ids.map Value.toInt).filterMap (rowOf p T db) := by
  obtain ⟨hrows, calls', hcalls⟩ := (answers_of_works p T hok htable).filterRows ids ⟨calls, rfl⟩
  refine ⟨_, calls', Prod.ext rfl hcalls, (congrArg scanRows hrows).trans ?_⟩
  unfold scanRows
  rw [List.map_filterMap]
  refine List.filterMap_congr (fun id _ => ?_)
  unfold rowOf
  rw [Option.map_map]
  rfl

theorem scanAll_eq : ∀ (plan : Plan) (calls : Nat), ∃ calls',
    scanAll p T ((typedIds p T db).map .int32) plan (db.after calls)
      = (plan.map (fun scan => (scanIds p T db scan).filterMap (rowOf p T db)), db.after calls')
  | [], calls => ⟨calls, rfl⟩
  | scan :: plan, calls => by
      obtain ⟨rows, calls', hfilter, hrows⟩ := filterRows_eq p T hok htable
        (filterIds p ((typedIds p T db).map .int32) scan) calls
      obtain ⟨calls'', hrest⟩ := scanAll_eq plan calls'
      rw [filterIds_eq] at hrows
      refine ⟨calls'', ?_⟩
      rw [scanAll]
      unfold xFilter
      rw [hfilter]
      dsimp only
      rw [hrest, hrows]
      rfl

end

/-! ## What a statement goes through -/

/-- The rows that a plan finds. -/
def found (db : Db) (plan : Plan) : List (BitVec 64 × Row) :=
  gather (plan.map (fun scan => (scanIds p T db scan).filterMap (rowOf p T db)))

/-- A row meets the condition of a statement. -/
def meets (cond : Option Cond) (vals : List Val) (id : BitVec 64) (row : Row) : Bool :=
  (T.table []).meets p.sqlite cond vals id row

/-- The rows that a statement goes through. -/
def selected (db : Db) (cond : Option Cond) (vals : List Val) : List (BitVec 64 × Row) :=
  (found p T db (p.plan cond vals)).filter (fun r => meets p T cond vals r.1 r.2)

/-- Each row is that of a blob which one of the scans goes through. -/
theorem mem_found {db : Db} {plan : Plan} {r : BitVec 64 × Row} (h : r ∈ found p T db plan) :
    ∃ scan ∈ plan, ∃ id ∈ scanIds p T db scan, rowOf p T db id = some r := by
  obtain ⟨rows, hrows, hr⟩ := mem_of_mem_gather h
  obtain ⟨scan, hscan, rfl⟩ := List.mem_map.mp hrows
  obtain ⟨id, hid, hrow⟩ := List.mem_filterMap.mp hr
  exact ⟨scan, hscan, id, hid, hrow⟩

theorem rowOf_fst {db : Db} {id : BitVec 32} {r : BitVec 64 × Row} (h : rowOf p T db id = some r) :
    r.1 = id.setWidth 64 := by
  obtain ⟨obj, -, rfl⟩ := Option.map_eq_some_iff.mp h
  rfl

theorem setWidth_setWidth (id : BitVec 32) : (id.setWidth 64).setWidth 32 = id := by
  rw [BitVec.setWidth_setWidth_of_le _ (by decide)]
  exact BitVec.setWidth_eq id

/-- The row that is found for an id is the one with its object. -/
theorem rowOf_of_mem_found {db : Db} {plan : Plan} {r : BitVec 64 × Row}
    (h : r ∈ found p T db plan) : rowOf p T db (r.1.setWidth 32) = some r := by
  obtain ⟨scan, -, id, -, hrow⟩ := mem_found p T h
  rw [rowOf_fst p T hrow, setWidth_setWidth]
  exact hrow

/-- What a scan goes through is found. -/
theorem mem_found_of_mem_scanIds {db : Db} {plan : Plan} {scan : Scan} (hscan : scan ∈ plan)
    {id : BitVec 32} (hid : id ∈ scanIds p T db scan) {r : BitVec 64 × Row}
    (hrow : rowOf p T db id = some r) : r ∈ found p T db plan := by
  obtain ⟨r', hr', heq⟩ := exists_mem_gather (List.mem_filterMap.mpr ⟨id, hid, hrow⟩)
    (List.mem_map_of_mem (f := fun scan => (scanIds p T db scan).filterMap (rowOf p T db)) hscan)
  have hrow' := rowOf_of_mem_found p T hr'
  rw [heq, rowOf_fst p T hrow, setWidth_setWidth, hrow] at hrow'
  rw [Option.some.inj hrow']
  exact hr'

theorem scanIds_nodup (db : Db) (scan : Scan) : (scanIds p T db scan).Nodup := by
  unfold scanIds
  cases pickedBy scan with
  | none => exact typedIds_nodup p T db
  | some c => exact List.nodup_singleton _

/-- No row is found twice. -/
theorem found_nodup (db : Db) (plan : Plan) : ((found p T db plan).map (·.1)).Nodup := by
  refine gather_nodup (fun rows hrows => ?_)
  obtain ⟨scan, -, rfl⟩ := List.mem_map.mp hrows
  have hids := scanIds_nodup p T db scan
  generalize scanIds p T db scan = ids at hids
  clear hrows
  induction ids with
  | nil => exact List.nodup_nil
  | cons id ids ih =>
    rw [List.nodup_cons] at hids
    rw [List.filterMap_cons]
    cases hrow : rowOf p T db id with
    | none => exact ih hids.2
    | some r =>
      refine List.nodup_cons.mpr ⟨?_, ih hids.2⟩
      intro hmem
      obtain ⟨r', hr', heq⟩ := List.mem_map.mp hmem
      obtain ⟨id', hid', hrow'⟩ := List.mem_filterMap.mp hr'
      have hids' : id' = id := by
        have hwide : id'.setWidth 64 = id.setWidth 64 :=
          (rowOf_fst p T hrow').symm.trans (heq.trans (rowOf_fst p T hrow))
        have hnarrow := congrArg (BitVec.setWidth 32) hwide
        rwa [setWidth_setWidth, setWidth_setWidth] at hnarrow
      exact hids.1 (hids' ▸ hid')

/-- What the text of a statement says, if it can be prepared. -/
def stmtOf (db : Db) (sql : Part) : Option Stmt :=
  ((parse (tokens sql.1)).bind (Stmt.resolve (T.visible db.tables))).filter (planned p)

/-- A text that names the columns as they were declared, and compares the rowid on top only. -/
theorem stmtOf_eq {p : Platform} {T : VirtualTable} {db : Db} {sql : Part} {stmt : Stmt}
    (hparse : parse (tokens sql.1) = some stmt) (hname : stmt.table = T.name)
    (hcolumns : stmt.columns.all (T.table []).declares = true)
    (htop : rowidOnTop (condOf stmt) = true) : stmtOf p T db sql = some stmt := by
  have hdeclared : stmt.declared (T.visible db.tables) = true := by
    unfold Stmt.declared visible
    rw [hname, Function.update_self]
    exact hcolumns
  unfold stmtOf
  rw [hparse, Option.bind_some, Stmt.resolve_of_declared hdeclared]
  exact if_pos (planned_of_onTop p htop)

section

variable {db : Db} (hok : ∀ n, db.succeeds n = true) (htable : HasBlobTable db T.blobTable)
include hok htable

/-- **A statement on the table**, by what its text says. -/
theorem runSelect_eq (sql : Part) :
    ∃ calls, runSelect p T db sql = ((stmtOf p T db sql).map fun stmt =>
      (stmt, (paramVals p sql.2).map (selected p T db (condOf stmt))), db.after calls) := by
  obtain ⟨calls, hids⟩ := updateIds_eq p T hok htable
  have hprepare : prepare p T (db.after calls) sql.1 = (stmtOf p T db sql, db.after (calls + 1)) := by
    unfold prepare
    rw [if_pos (show (db.after calls).ok = true from hok _)]
    rfl
  unfold runSelect
  rw [hids]
  dsimp only
  rw [hprepare]
  cases stmtOf p T db sql with
  | none => exact ⟨_, rfl⟩
  | some stmt =>
    dsimp only
    unfold select
    rw [if_pos (show (db.after (calls + 1)).ok = true from hok _)]
    cases hvals : paramVals p sql.2 with
    | none => exact ⟨_, rfl⟩
    | some vals =>
      obtain ⟨calls', hscans⟩ := scanAll_eq p T hok htable (p.plan (condOf stmt) vals) (calls + 2)
      have hcalled : (db.after (calls + 1)).called (db.after (calls + 1)).tables
          = db.after (calls + 2) := rfl
      refine ⟨calls', ?_⟩
      dsimp only
      rw [hcalled, hscans]
      rfl

end

/-- The scan that asks for an id asks for that of every row it admits. -/
theorem picked_of_admits {scan : Scan} {c : Constraint} (hpicked : pickedBy scan = some c)
    {columns : List Bytes} {id : BitVec 64} {row : Row}
    (hadmits : scan.Admits p.sqlite columns id row) : p.value_int64 c.rhs = id := by
  obtain ⟨hlast, hop⟩ := Option.filter_eq_some_iff.mp hpicked
  have hmem := List.mem_filter.mp (List.mem_of_getLast? hlast)
  have hcompare := hadmits c hmem.1 (of_decide_eq_true hop)
  unfold Constraint.lhs at hcompare
  rw [if_pos (of_decide_eq_true hmem.2)] at hcompare
  exact p.value_int64_eq _ _ hcompare

/-- The only comparison with the rowid is what every scan asks for. -/
theorem picked_of_rowids {cond : Cond} {vals : List Val} {k : Nat}
    (htop : cond.rowidOnTop = true) (hrowids : cond.rowids = [(.eq, k)]) {scan : Scan}
    (hscan : scan ∈ p.plan (some cond) vals) :
    pickedBy scan = some ⟨-1, SQLITE_INDEX_CONSTRAINT_EQ, vals.getD k .null⟩ := by
  unfold pickedBy
  rw [p.plan_rowid cond vals k htop hrowids scan hscan]
  rfl

/-! ## Plans for small cases -/

/-- The plans leave out no row. -/
def Covering : Prop :=
  ∀ cond vals, Plan.Covers p.sqlite T.columns (p.plan cond vals) (meets p T cond vals)

theorem covering_rowidPlan (hplan : p.plan = rowidPlan) : Covering p T := by
  intro cond vals id row hmeets
  rw [hplan]
  have hfull : ∃ scan ∈ ([[]] : Plan), scan.Admits p.sqlite T.columns id row :=
    Plan.covers_full p.sqlite T.columns (fun _ _ => true) id row rfl
  cases cond with
  | none => exact hfull
  | some cond =>
    unfold rowidPlan
    dsimp only
    split
    · refine ⟨_, List.mem_singleton_self _, ?_⟩
      intro c hc hop
      obtain ⟨⟨op, k⟩, hr, rfl⟩ := List.mem_map.mp hc
      obtain rfl := CmpOp.eq_of_constraint hop
      have hvalue : (T.table []).value id row (lit "rowid") = .integer id := if_pos (.inl rfl)
      have hholds : p.sqlite.compare .eq ((T.table []).value id row (lit "rowid"))
          (vals.getD k .null) = true := Cond.holds_of_mem_rowids hmeets hr
      rw [hvalue] at hholds
      exact hholds
    · exact hfull

end VirtualTable

/-! ## Small cases -/

/-- A platform for small cases. -/
def Platform.plain : Platform where
  toPlanner := Planner.plain
  sqlite := Behaviour.plain
  value_int64 v :=
    match v with
    | .integer i => i
    | _ => 0
  value_int64_eq := by
    intro i v h
    cases v with
    | integer j => exact (of_decide_eq_true ((Behaviour.plain.compare_integer i j).symm.trans h)).symm
    | null => cases h
    | real bits => cases h
    | text s => cases h
    | blob data => cases h
  behind := 0
  env := ⟨0, fun _ => 0⟩
  fuel := 40
  printed := fun _ => []
  aes_encrypt := fun _ block => block
  key := MemoryBuffer.create 32

/-- A virtual table of the blob table, for the objects of a type. -/
def names (type : BitVec 32) : VirtualTable where
  name := lit "names"
  type := type
  blobTable := lit "blobs"
  columns := [lit "name"]
  name_isName := by decide
  name_ne := by decide
  columns_isName := by decide
  columns_upper := by decide
  columns_ne_nil := by decide
  rowid_upper := by decide

/-- A plain blob, as a row. -/
def plainBlob (data : Bytes) : Row :=
  Row.assign (fun _ => .null) [(lit "data", .blob data), (lit "mode", .integer 0),
    (lit "size", .integer (BitVec.ofNat 64 data.length))]

/-- A blob table with some plain blobs. -/
def blobsDb (rows : List (BitVec 64 × Bytes)) : Db where
  tables := fun table =>
    if table = lit "blobs" then
      some ⟨lit "id", [lit "mode", lit "size", lit "salt", lit "data"],
        rows.map (fun r => (r.1, plainBlob r.2))⟩
    else none
  succeeds := fun _ => true
  calls := 0

theorem blobsDb_hasBlobTable (rows : List (BitVec 64 × Bytes)) :
    HasBlobTable (blobsDb rows) (lit "blobs") :=
  ⟨by decide, _, rfl, rfl, rfl⟩

/-- `{"_$type": 2}` -/
def VirtualTable.ofTypeTwo : Bytes :=
  [0x7B, 0x23, 0x69, 1, 0x69, 6, 0x5F, 0x24, 0x74, 0x79, 0x70, 0x65, 0x6C, 0, 0, 0, 2]

end Zway.Ubj.Store
