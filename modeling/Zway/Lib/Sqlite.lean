import Zway.Lib.Chunk
import Zway.Lib.OrdMap
import Zway.Lib.Sql
import Mathlib.Logic.Function.Basic

/-!
# What SQLite does

Tables, the statements of `Zway.Sql` on them, and incremental I/O on a column that
holds a blob.

Any call may fail. Which ones do is part of the state, as an oracle that is asked once
for every call: `Db.succeeds`. A failed call changes nothing. What the documentation
leaves to SQLite, such as the comparison of values of different types, is a parameter:
`Behaviour`.
-/

namespace Zway.Sql

/-! ## Tables -/

/-- A value in a row. Floating point numbers are their bit patterns. -/
inductive Val where
  | null
  | integer (i : BitVec 64)
  | real (bits : BitVec 64)
  | text (s : Bytes)
  | blob (data : Bytes)
  deriving Repr, DecidableEq

/-- The bytes that incremental I/O works on. -/
def Val.bytes : Val → Option Bytes
  | text s => some s
  | blob data => some data
  | _ => none

/-- The same kind of value with other bytes. -/
def Val.setBytes : Val → Bytes → Val
  | text _, data => .text data
  | _, data => .blob data

/-- The columns of a row other than its rowid. -/
abbrev Row := Bytes → Val

/-- Assign several columns, from left to right. -/
def Row.assign : Row → List (Bytes × Val) → Row
  | row, [] => row
  | row, (column, v) :: rest => Row.assign (Function.update row column v) rest

/-- Give several columns their values. Of a column that is named twice the first one counts. -/
def Row.fill : Row → List (Bytes × Val) → Row
  | row, [] => row
  | row, (column, v) :: rest => Function.update (Row.fill row rest) column v

/-- If no column is named twice, it is the same as to assign them. -/
theorem Row.fill_eq_assign (row : Row) : ∀ {columns : List (Bytes × Val)},
    (columns.map (·.1)).Nodup → Row.fill row columns = Row.assign row columns := by
  intro columns
  induction columns generalizing row with
  | nil => exact fun _ => rfl
  | cons c columns ih =>
    intro hnodup
    obtain ⟨hnew, hnodup⟩ := List.nodup_cons.mp hnodup
    have hlater : ∀ (row : Row) {columns : List (Bytes × Val)}, c.1 ∉ columns.map (·.1) →
        Function.update (Row.assign row columns) c.1 c.2
          = Row.assign (Function.update row c.1 c.2) columns := by
      intro row columns
      induction columns generalizing row with
      | nil => exact fun _ => rfl
      | cons d columns ih =>
        intro hnew
        rw [List.map_cons, List.mem_cons, not_or] at hnew
        rw [Row.assign, Row.assign, ih _ hnew.2, Function.update_comm hnew.1]
    rw [Row.fill, Row.assign, ih row hnodup, hlater row hnew]

/-- The names that a rowid has besides those that are declared. -/
def rowidNames : List Bytes := [lit "ROWID", lit "OID", lit "_ROWID_"]

/-- A table. The column `key` is the `INTEGER PRIMARY KEY`, that is the rowid by another name. No two
columns differ only in case, and none has a name in common with the rowid, other than `key`. -/
structure Table where
  key : Bytes
  columns : List Bytes
  rows : List (BitVec 64 × Row)

namespace Table

/-- The row with a rowid. -/
def find? (t : Table) (id : BitVec 64) : Option Row := OrdMap.find? t.rows id

/-- The value of a column. -/
def value (t : Table) (id : BitVec 64) (row : Row) (column : Bytes) : Val :=
  if column = t.key ∨ column = lit "rowid" then .integer id else row column

/-- A column, as it was declared. The rowid is `rowid`. -/
def declares (t : Table) (column : Bytes) : Bool :=
  decide (column = t.key ∨ column = lit "rowid" ∨ column ∈ t.columns)

/-- The column that a name stands for. Case does not matter, and a name of the rowid stands for it
where no column has been given that name. -/
def resolve (t : Table) (name : Bytes) : Option Bytes :=
  if t.declares name then some name
  else
    match (t.key :: t.columns).find? (fun c => decide (upper c = upper name)) with
    | some c => some c
    | none => if upper name ∈ rowidNames then some (lit "rowid") else none

theorem resolve_of_declares {t : Table} {column : Bytes} (h : t.declares column = true) :
    t.resolve column = some column := if_pos h

/-- What a column of a result is called. -/
def label (t : Table) (column : Bytes) : Bytes := if column = lit "rowid" then t.key else column

/-- Change the rows that meet a condition. -/
def modify (t : Table) (p : BitVec 64 → Row → Bool) (f : Row → Row) : Table :=
  { t with rows := t.rows.map (fun r => (r.1, if p r.1 r.2 then f r.2 else r.2)) }

/-- Keep the rows that do not meet a condition. -/
def delete (t : Table) (p : BitVec 64 → Row → Bool) : Table :=
  { t with rows := t.rows.filter (fun r => !p r.1 r.2) }

/-- Add a row. -/
def append (t : Table) (id : BitVec 64) (row : Row) : Table :=
  { t with rows := t.rows ++ [(id, row)] }

theorem find?_modify (t : Table) (p : BitVec 64 → Row → Bool) (f : Row → Row) (id : BitVec 64) :
    (t.modify p f).find? id = (t.find? id).map (fun row => if p id row then f row else row) := by
  unfold find? modify
  dsimp only
  induction t.rows with
  | nil => rfl
  | cons r rows ih =>
    rw [List.map_cons, OrdMap.find?, OrdMap.find?]
    by_cases hid : r.1 = id
    · rw [if_pos hid, if_pos hid, hid]
      rfl
    · rw [if_neg hid, if_neg hid]
      exact ih

/-- A new row, if its rowid is new, is found, and the others still are. -/
theorem find?_append {t : Table} {id : BitVec 64} (h : t.find? id = none) (row : Row)
    (id' : BitVec 64) :
    (t.append id row).find? id' = if id' = id then some row else t.find? id' := by
  unfold find? append at *
  dsimp only
  generalize t.rows = rows at h
  induction rows with
  | nil =>
    show (if id = id' then some row else none) = _
    by_cases hid : id' = id
    · rw [if_pos hid.symm, if_pos hid]
    · rw [if_neg (fun h => hid h.symm), if_neg hid]
      rfl
  | cons r rows ih =>
    rw [OrdMap.find?] at h
    have hne : r.1 ≠ id := by
      intro heq
      rw [if_pos heq] at h
      exact absurd h (by simp)
    rw [if_neg hne] at h
    rw [List.cons_append, OrdMap.find?, OrdMap.find?, ih h]
    by_cases hid : r.1 = id'
    · rw [if_pos hid, if_pos hid, if_neg (fun h => hne (hid.trans h))]
    · rw [if_neg hid, if_neg hid]

/-- Deleting by rowid. -/
theorem find?_delete (t : Table) {p : BitVec 64 → Row → Bool} (id : BitVec 64)
    (hp : ∀ row, p id row = false) : (t.delete p).find? id = t.find? id := by
  unfold find? delete
  dsimp only
  induction t.rows with
  | nil => rfl
  | cons r rows ih =>
    by_cases hid : r.1 = id
    · have hkeep : (!p r.1 r.2) = true := by rw [hid, hp]; rfl
      rw [List.filter_cons_of_pos (by exact hkeep), OrdMap.find?, OrdMap.find?, if_pos hid,
        if_pos hid]
    · by_cases hkeep : (!p r.1 r.2) = true
      · rw [List.filter_cons_of_pos (by exact hkeep), OrdMap.find?, OrdMap.find?, if_neg hid,
          if_neg hid]
        exact ih
      · rw [List.filter_cons_of_neg (by exact hkeep), OrdMap.find?, if_neg hid]
        exact ih

end Table

abbrev Tables := Bytes → Option Table

/-! ## Statements -/

/-- What is bound to a parameter: a value, or so many zeros. -/
inductive Param where
  | value (v : Val)
  | zeroblob (size : Nat)
  deriving Repr, DecidableEq

/-- What SQLite does beyond what is modelled here. -/
structure Behaviour where
  /-- Whether a comparison of two values holds. -/
  compare : CmpOp → Val → Val → Bool
  /-- Integers are equal if they are the same. -/
  compare_integer : ∀ i j, compare .eq (.integer i) (.integer j) = decide (i = j)
  /-- Nothing is equal to NULL. -/
  compare_null : ∀ v, compare .eq v .null = false
  /-- The largest blob. -/
  maxLength : Nat
  /-- No build of SQLite allows more. -/
  maxLength_lt : maxLength < 2 ^ 31
  /-- The rowid of the next row, given those there are. -/
  newRowid : List (BitVec 64) → Option (BitVec 64)
  /-- It is not one of them. -/
  newRowid_notMem : ∀ ids id, newRowid ids = some id → id ∉ ids

/-- The rowid after the largest one. -/
def nextRowid (ids : List (BitVec 64)) : Option (BitVec 64) :=
  if (ids.map (·.toNat)).foldr max 0 + 1 < 2 ^ 63 then
    some (BitVec.ofNat 64 ((ids.map (·.toNat)).foldr max 0 + 1))
  else none

theorem nextRowid_notMem (ids : List (BitVec 64)) (id : BitVec 64) (h : nextRowid ids = some id) :
    id ∉ ids := by
  have hle : ∀ i ∈ ids, i.toNat ≤ (ids.map (·.toNat)).foldr max 0 := by
    clear h
    induction ids with
    | nil => exact fun i hi => absurd hi List.not_mem_nil
    | cons j ids ih =>
      intro i hi
      rw [List.map_cons, List.foldr_cons]
      rcases List.mem_cons.mp hi with rfl | hi
      · exact Nat.le_max_left ..
      · exact Nat.le_trans (ih i hi) (Nat.le_max_right ..)
  intro hmem
  unfold nextRowid at h
  by_cases hlt : (ids.map (·.toNat)).foldr max 0 + 1 < 2 ^ 63
  · rw [if_pos hlt] at h
    have hid := hle id hmem
    rw [← Option.some.inj h, BitVec.toNat_ofNat] at hid
    omega
  · rw [if_neg hlt] at h
    exact absurd h (by simp)

/-- After small rowids comes a small one. -/
theorem nextRowid_small {ids : List (BitVec 64)} {n : Nat} (h : ∀ id ∈ ids, id.toNat ≤ n)
    (hn : n + 1 < 2 ^ 63) : ∃ id, nextRowid ids = some id ∧ 0 < id.toNat ∧ id.toNat ≤ n + 1 := by
  have hmax : (ids.map (·.toNat)).foldr max 0 ≤ n := by
    induction ids with
    | nil => exact Nat.zero_le n
    | cons id ids ih =>
      have hrest := ih (fun i hi => h i (List.mem_cons_of_mem _ hi))
      rw [List.map_cons, List.foldr_cons]
      exact Nat.max_le.mpr ⟨h id List.mem_cons_self, hrest⟩
  refine ⟨BitVec.ofNat 64 ((ids.map (·.toNat)).foldr max 0 + 1), if_pos (by omega), ?_⟩
  rw [BitVec.toNat_ofNat]
  omega

/-- A SQLite for small cases, which orders integers and otherwise only tells values apart. -/
def Behaviour.plain : Behaviour where
  compare op v w :=
    match op, v, w with
    | _, .null, _ => false
    | _, _, .null => false
    | .eq, v, w => decide (v = w)
    | .ne, v, w => decide (v ≠ w)
    | .gt, .integer i, .integer j => j.slt i
    | .ge, .integer i, .integer j => j.sle i
    | .lt, .integer i, .integer j => i.slt j
    | .le, .integer i, .integer j => i.sle j
    | _, _, _ => false
  compare_integer i j := by
    show decide (Val.integer i = Val.integer j) = decide (i = j)
    simp
  compare_null v := by cases v <;> rfl
  maxLength := 1000000000
  maxLength_lt := by decide
  newRowid := nextRowid
  newRowid_notMem := nextRowid_notMem

/-- What comes of a statement. -/
structure Outcome where
  tables : Tables
  changes : Nat
  lastRowid : BitVec 64
  rows : List (List (Bytes × Val))

section

variable (sqlite : Behaviour)

/-- The value of a parameter; none if it is too big. -/
def Param.val : Param → Option Val
  | value v => some v
  | zeroblob size =>
      if size ≤ sqlite.maxLength then some (.blob (List.replicate size 0)) else none

omit sqlite in
/-- Columns with the values of their parameters. A parameter that is not bound is NULL. -/
def assignmentsOf (columns : List Bytes) (vals : List Val) : List (Bytes × Val) :=
  columns.zipIdx.map (fun c => (c.1, vals.getD c.2 .null))

omit sqlite in
/-- Each column gets the value of its parameter. -/
theorem assignmentsOf_eq_zip {columns : List Bytes} {vals : List Val}
    (h : vals.length = columns.length) : assignmentsOf columns vals = columns.zip vals := by
  unfold assignmentsOf
  refine List.ext_getElem (by simp [h]) ?_
  intro i hi hi'
  have hlt : i < vals.length := by
    rw [List.length_zip] at hi'
    omega
  simp [List.getElem?_eq_getElem hlt]

/-- Whether a row meets a condition. -/
def Table.meets (t : Table) (cond : Option Cond) (vals : List Val) (id : BitVec 64) (row : Row) :
    Bool :=
  match cond with
  | none => true
  | some c =>
      c.eval (fun column op k => sqlite.compare op (t.value id row column) (vals.getD k .null))

/-- What a row is reported as. No columns stand for all of them. -/
def Table.report (t : Table) (columns : List Bytes) (id : BitVec 64) (row : Row) :
    List (Bytes × Val) :=
  (if columns.isEmpty then t.key :: t.columns else columns).map
    (fun c => (t.label c, t.value id row c))

/-- Run a statement with the values of its parameters. -/
def exec (tables : Tables) (stmt : Stmt) (vals : List Val) : Option Outcome :=
  match stmt with
  | .insert table columns =>
      (tables table).bind fun t =>
        (sqlite.newRowid (t.rows.map (·.1))).map fun id =>
          { tables := Function.update tables table
              (some (t.append id (Row.fill (fun _ => .null) (assignmentsOf columns vals))))
            changes := 1
            lastRowid := id
            rows := [] }
  | .update table columns cond =>
      (tables table).map fun t =>
        { tables := Function.update tables table
            (some (t.modify (t.meets sqlite cond vals)
              (Row.assign · (assignmentsOf columns vals))))
          changes := (t.rows.filter (fun r => t.meets sqlite cond vals r.1 r.2)).length
          lastRowid := 0
          rows := [] }
  | .delete table cond =>
      (tables table).map fun t =>
        { tables := Function.update tables table (some (t.delete (t.meets sqlite cond vals)))
          changes := (t.rows.filter (fun r => t.meets sqlite cond vals r.1 r.2)).length
          lastRowid := 0
          rows := [] }
  | .select columns table cond =>
      (tables table).map fun t =>
        { tables := tables
          changes := 0
          lastRowid := 0
          rows := (t.rows.filter (fun r => t.meets sqlite cond vals r.1 r.2)).map
            (fun r => t.report columns r.1 r.2) }
  | .count table cond =>
      (tables table).map fun t =>
        { tables := tables
          changes := 0
          lastRowid := 0
          rows := [[(lit "COUNT(1)", .integer (BitVec.ofNat 64
            (t.rows.filter (fun r => t.meets sqlite cond vals r.1 r.2)).length))]] }

end

/-- The columns of a condition. -/
def Cond.columns : Cond → List Bytes
  | compare column _ _ => [column]
  | and a b => a.columns ++ b.columns
  | or a b => a.columns ++ b.columns

def Stmt.table : Stmt → Bytes
  | insert table _ => table
  | update table _ _ => table
  | delete table _ => table
  | select _ table _ => table
  | count table _ => table

/-- The columns a statement names. -/
def Stmt.columns : Stmt → List Bytes
  | insert _ columns => columns
  | update _ columns cond => columns ++ (cond.map Cond.columns).getD []
  | delete _ cond => (cond.map Cond.columns).getD []
  | select columns _ cond => columns ++ (cond.map Cond.columns).getD []
  | count _ cond => (cond.map Cond.columns).getD []

/-- The table is there, and the columns are named as they were declared. -/
def Stmt.declared (tables : Tables) (stmt : Stmt) : Bool :=
  (tables stmt.table).any (fun t => stmt.columns.all t.declares)

/-- Each column by another name. -/
def Cond.rename (f : Bytes → Option Bytes) : Cond → Option Cond
  | compare column op param => (f column).map (.compare · op param)
  | and a b => (a.rename f).bind fun a => (b.rename f).map (.and a ·)
  | or a b => (a.rename f).bind fun a => (b.rename f).map (.or a ·)

/-- The same for a condition that may not be there. -/
def renameWhere (f : Bytes → Option Bytes) : Option Cond → Option (Option Cond)
  | none => some none
  | some c => (c.rename f).map some

def Stmt.rename (f : Bytes → Option Bytes) : Stmt → Option Stmt
  | insert table columns => (columns.mapM f).map (.insert table ·)
  | update table columns cond =>
      (columns.mapM f).bind fun columns => (renameWhere f cond).map (.update table columns ·)
  | delete table cond => (renameWhere f cond).map (.delete table ·)
  | select columns table cond =>
      (columns.mapM f).bind fun columns => (renameWhere f cond).map (.select columns table ·)
  | count table cond => (renameWhere f cond).map (.count table ·)

/-- The statement with the columns that its names stand for. -/
def Stmt.resolve (tables : Tables) (stmt : Stmt) : Option Stmt :=
  (tables stmt.table).bind fun t => stmt.rename t.resolve

/-! ### Names that stand for themselves -/

theorem mapM_eq_map {f : Bytes → Option Bytes} {g : Bytes → Bytes} : ∀ {columns : List Bytes},
    (∀ c ∈ columns, f c = some (g c)) → columns.mapM f = some (columns.map g)
  | [], _ => rfl
  | c :: columns, h => by
      rw [List.mapM_cons, h c (List.mem_cons_self ..),
        mapM_eq_map (fun d hd => h d (List.mem_cons_of_mem _ hd))]
      rfl

theorem mapM_of_all {f : Bytes → Option Bytes} {columns : List Bytes}
    (h : ∀ c ∈ columns, f c = some c) : columns.mapM f = some columns :=
  (mapM_eq_map (g := fun c => c) h).trans (congrArg some (List.map_id' _))

/-- Where one name stands for nothing, there is no list. -/
theorem isSome_of_mapM {f : Bytes → Option Bytes} : ∀ {columns columns' : List Bytes},
    columns.mapM f = some columns' → ∀ c ∈ columns, (f c).isSome = true
  | c :: columns, columns', h, d, hd => by
      rw [List.mapM_cons] at h
      obtain ⟨x, hx, h⟩ := Option.bind_eq_some_iff.mp h
      obtain ⟨rest, hrest, -⟩ := Option.bind_eq_some_iff.mp h
      rcases List.mem_cons.mp hd with rfl | hd
      · rw [hx]
        rfl
      · exact isSome_of_mapM hrest d hd

theorem Cond.rename_of_all {f : Bytes → Option Bytes} : ∀ {cond : Cond},
    (∀ c ∈ cond.columns, f c = some c) → cond.rename f = some cond
  | compare column op param, h => by
      rw [rename, h column (List.mem_singleton_self _)]
      rfl
  | and a b, h => by
      rw [rename, a.rename_of_all (fun c hc => h c (List.mem_append_left _ hc)),
        b.rename_of_all (fun c hc => h c (List.mem_append_right _ hc))]
      rfl
  | or a b, h => by
      rw [rename, a.rename_of_all (fun c hc => h c (List.mem_append_left _ hc)),
        b.rename_of_all (fun c hc => h c (List.mem_append_right _ hc))]
      rfl

theorem renameWhere_of_all {f : Bytes → Option Bytes} {cond : Option Cond}
    (h : ∀ c ∈ (cond.map Cond.columns).getD [], f c = some c) :
    renameWhere f cond = some cond := by
  cases cond with
  | none => rfl
  | some cond =>
    rw [renameWhere, Cond.rename_of_all h]
    rfl

theorem Stmt.rename_of_all {f : Bytes → Option Bytes} {stmt : Stmt}
    (h : ∀ c ∈ stmt.columns, f c = some c) : stmt.rename f = some stmt := by
  cases stmt with
  | insert table columns =>
    have hcolumns : columns.mapM f = some columns := mapM_of_all h
    rw [rename, hcolumns]
    rfl
  | update table columns cond =>
    rw [rename, mapM_of_all (fun c hc => h c (List.mem_append_left _ hc)),
      renameWhere_of_all (fun c hc => h c (List.mem_append_right _ hc))]
    rfl
  | delete table cond =>
    have hcond : renameWhere f cond = some cond := renameWhere_of_all h
    rw [rename, hcond]
    rfl
  | select columns table cond =>
    rw [rename, mapM_of_all (fun c hc => h c (List.mem_append_left _ hc)),
      renameWhere_of_all (fun c hc => h c (List.mem_append_right _ hc))]
    rfl
  | count table cond =>
    have hcond : renameWhere f cond = some cond := renameWhere_of_all h
    rw [rename, hcond]
    rfl

/-- A statement that names the columns as they were declared means these. -/
theorem Stmt.resolve_of_declared {tables : Tables} {stmt : Stmt}
    (h : stmt.declared tables = true) : stmt.resolve tables = some stmt := by
  unfold declared at h
  unfold resolve
  cases ht : tables stmt.table with
  | none =>
    rw [ht] at h
    cases h
  | some t =>
    rw [ht] at h
    exact rename_of_all (fun c hc => Table.resolve_of_declares (List.all_eq_true.mp h c hc))

/-- The names do not concern the table. -/
theorem Stmt.rename_table {f : Bytes → Option Bytes} {stmt stmt' : Stmt}
    (h : stmt.rename f = some stmt') : stmt'.table = stmt.table := by
  cases stmt with
  | insert table columns =>
    obtain ⟨columns', -, rfl⟩ := Option.map_eq_some_iff.mp h
    rfl
  | update table columns cond =>
    obtain ⟨columns', -, h⟩ := Option.bind_eq_some_iff.mp h
    obtain ⟨cond', -, rfl⟩ := Option.map_eq_some_iff.mp h
    rfl
  | delete table cond =>
    obtain ⟨cond', -, rfl⟩ := Option.map_eq_some_iff.mp h
    rfl
  | select columns table cond =>
    obtain ⟨columns', -, h⟩ := Option.bind_eq_some_iff.mp h
    obtain ⟨cond', -, rfl⟩ := Option.map_eq_some_iff.mp h
    rfl
  | count table cond =>
    obtain ⟨cond', -, rfl⟩ := Option.map_eq_some_iff.mp h
    rfl

theorem Stmt.resolve_table {tables : Tables} {stmt stmt' : Stmt}
    (h : stmt.resolve tables = some stmt') : stmt'.table = stmt.table := by
  obtain ⟨t, -, hrename⟩ := Option.bind_eq_some_iff.mp h
  exact rename_table hrename

/-- A selection stays one. -/
theorem Stmt.resolve_select {tables : Tables} {columns : List Bytes} {table : Bytes}
    {cond : Option Cond} {stmt : Stmt} (h : (select columns table cond).resolve tables = some stmt) :
    ∃ columns' cond', stmt = .select columns' table cond' := by
  obtain ⟨t, -, hrename⟩ := Option.bind_eq_some_iff.mp h
  obtain ⟨columns', -, hrename⟩ := Option.bind_eq_some_iff.mp hrename
  obtain ⟨cond', -, rfl⟩ := Option.map_eq_some_iff.mp hrename
  exact ⟨columns', cond', rfl⟩

/-! ## A connection -/

structure Db where
  tables : Tables
  /-- Whether each call, counted from the first one, does what it should. -/
  succeeds : Nat → Bool
  /-- How many calls there were. -/
  calls : Nat

namespace Db

/-- Whether the next call will succeed. -/
def ok (db : Db) : Bool := db.succeeds db.calls

/-- After a call, which may have changed the tables. -/
def called (db : Db) (tables : Tables) : Db := { db with tables := tables, calls := db.calls + 1 }

/-- `sqlite3_prepare_v2`. -/
def prepare (db : Db) (text : Bytes) : Option Stmt × Db :=
  (if db.ok then (parse (tokens text)).bind (Stmt.resolve db.tables) else none,
    db.called db.tables)

/-- `sqlite3_step`, until there is nothing more to do. -/
def step (sqlite : Behaviour) (db : Db) (stmt : Stmt) (params : List Param) :
    Option Outcome × Db :=
  match if db.ok then (params.mapM (Param.val sqlite)).bind (exec sqlite db.tables stmt) else none with
  | some o => (some o, db.called o.tables)
  | none => (none, db.called db.tables)

/-- The value in a column of a row. -/
def value (db : Db) (table column : Bytes) (id : BitVec 64) : Option Val :=
  (db.tables table).bind (fun t => (t.find? id).map (· column))

/-- `sqlite3_blob_open` -/
def blobOpen (db : Db) (table column : Bytes) (id : BitVec 64) : Bool × Db :=
  (db.ok && ((db.value table column id).bind Val.bytes).isSome, db.called db.tables)

/-- `sqlite3_blob_read`. The sizes are an `int`. -/
def blobRead (db : Db) (table column : Bytes) (id : BitVec 64) (size offset : UInt32) :
    Option Bytes × Db :=
  (if db.ok then
    ((db.value table column id).bind Val.bytes).bind (fun data =>
      if size.toNat < 2 ^ 31 ∧ offset.toNat + size.toNat ≤ data.length then
        some ((data.drop offset.toNat).take size.toNat)
      else none)
    else none,
    db.called db.tables)

/-- The row after `sqlite3_blob_write`. -/
def overwriteRow (column : Bytes) (offset : Nat) (data : Bytes) (row : Row) : Row :=
  Function.update row column
    ((row column).setBytes (overwrite (((row column).bytes).getD []) offset data))

/-- `sqlite3_blob_write`, which cannot change the size. -/
def blobWrite (db : Db) (table column : Bytes) (id : BitVec 64) (data : Bytes) (offset : UInt32) :
    Bool × Db :=
  match db.tables table, (db.value table column id).bind Val.bytes with
  | some t, some old =>
      if db.ok ∧ data.length < 2 ^ 31 ∧ offset.toNat + data.length ≤ old.length then
        (true, db.called (Function.update db.tables table
          (some (t.modify (fun id' _ => id' == id) (overwriteRow column offset.toNat data)))))
      else (false, db.called db.tables)
  | _, _ => (false, db.called db.tables)

end Db

end Zway.Sql
