import Zway.Store.Blob

/-!
# What the functions on blobs do to a row

Every function here touches one row of one table, so what it does is a function on
that row: `Db.modified` is the database after it. A call that fails leaves the row, but
not the number of calls.
-/

namespace Zway.Sql

/-! ## One row of one table -/

namespace Db

/-- A row of a table. -/
def row (db : Db) (table : Bytes) (id : BitVec 64) : Option Row :=
  (db.tables table).bind (·.find? id)

/-- After so many calls. -/
def after (db : Db) (calls : Nat) : Db := { db with calls := calls }

/-- After so many calls, that have changed one row. -/
def modified (db : Db) (table : Bytes) (id : BitVec 64) (f : Row → Row) (calls : Nat) : Db where
  tables := Function.update db.tables table
    ((db.tables table).map (fun t => t.modify (fun id' _ => id' == id) f))
  succeeds := db.succeeds
  calls := calls

theorem row_after (db : Db) (calls : Nat) (table : Bytes) (id : BitVec 64) :
    (db.after calls).row table id = db.row table id := rfl

theorem value_eq (db : Db) (table column : Bytes) (id : BitVec 64) :
    db.value table column id = (db.row table id).map (· column) := by
  unfold value row
  cases db.tables table with
  | none => rfl
  | some t => rfl

theorem row_modified (db : Db) (table : Bytes) (id : BitVec 64) (f : Row → Row) (calls : Nat) :
    (db.modified table id f calls).row table id = (db.row table id).map f := by
  unfold row modified
  dsimp only
  rw [Function.update_self]
  cases db.tables table with
  | none => rfl
  | some t =>
    show (t.modify _ f).find? id = (t.find? id).map f
    rw [Table.find?_modify]
    cases t.find? id with
    | none => rfl
    | some row => exact congrArg some (if_pos (beq_self_eq_true id))

/-- Other rows are as they were. -/
theorem row_modified_of_ne (db : Db) (table : Bytes) {id id' : BitVec 64} (h : id' ≠ id)
    (f : Row → Row) (calls : Nat) :
    (db.modified table id f calls).row table id' = db.row table id' := by
  unfold row modified
  dsimp only
  rw [Function.update_self]
  cases db.tables table with
  | none => rfl
  | some t =>
    show (t.modify _ f).find? id' = t.find? id'
    rw [Table.find?_modify]
    cases t.find? id' with
    | none => rfl
    | some row => exact congrArg some (if_neg (fun he => h (eq_of_beq he)))

end Db

end Zway.Sql

namespace Zway.Ubj.Store

open Sql

/-! ## Blob tables -/

/-- A table that `Store::createBlobTable` made. -/
structure HasBlobTable (db : Db) (table : Bytes) : Prop where
  name : isName table = true
  exists_table : ∃ t, db.tables table = some t ∧ t.key = lit "id"
    ∧ t.columns = [lit "mode", lit "size", lit "salt", lit "data"]

theorem HasBlobTable.after {db : Db} {table : Bytes} (h : HasBlobTable db table) (calls : Nat) :
    HasBlobTable (db.after calls) table := ⟨h.name, h.exists_table⟩

theorem HasBlobTable.modified {db : Db} {table : Bytes} (h : HasBlobTable db table)
    (id : BitVec 64) (f : Row → Row) (calls : Nat) :
    HasBlobTable (db.modified table id f calls) table := by
  obtain ⟨t, ht, hkey, hcolumns⟩ := h.exists_table
  refine ⟨h.name, t.modify (fun id' _ => id' == id) f, ?_, hkey, hcolumns⟩
  unfold Db.modified
  dsimp only
  rw [Function.update_self, ht]
  rfl

/-! ## Statements -/

/-- Both calls of a statement will succeed. -/
def acts (db : Db) : Bool := db.succeeds db.calls && db.succeeds (db.calls + 1)

/-- As long as no call fails. -/
theorem acts_of_succeeds {db : Db} (hok : ∀ n, db.succeeds n = true) : acts db = true := by
  unfold acts
  rw [hok, hok]
  rfl

/-- How many calls there are after a statement. What cannot be prepared is not stepped. -/
def statementCalls (db : Db) : Nat := if db.succeeds db.calls then db.calls + 2 else db.calls + 1

section

variable (sqlite : Behaviour) (behind : BitVec 32) {db : Db} {table : Bytes} {id : BitVec 64}

/-- The values of the parameters. -/
def paramVals (bound : List Value) : Option (List Val) :=
  (bindUbjToStmt behind sqlite false bound).mapM (Param.val sqlite)

/-- **What comes of an action** whose text says `stmt`. -/
theorem runAction_eq {sql : Part} {stmt : Stmt} (hparse : parse (tokens sql.1) = some stmt)
    (hvalid : stmt.declared db.tables = true) :
    runAction sqlite behind false db sql =
      match if acts db then (paramVals sqlite behind sql.2).bind (exec sqlite db.tables stmt)
        else none with
      | some o => (some o, ⟨o.tables, db.succeeds, db.calls + 2⟩)
      | none => (none, db.after (statementCalls db)) := by
  have hfilter : (parse (tokens sql.1)).bind (Stmt.resolve db.tables) = some stmt := by
    rw [hparse]
    exact Stmt.resolve_of_declared hvalid
  unfold runAction Db.prepare acts statementCalls
  rw [hfilter]
  by_cases hfirst : db.succeeds db.calls = true
  · have hok : db.ok = true := hfirst
    rw [if_pos hok, hfirst, Bool.true_and]
    dsimp only
    unfold Db.step
    by_cases hsecond : db.succeeds (db.calls + 1) = true
    · have hok' : (db.called db.tables).ok = true := hsecond
      rw [if_pos hok', if_pos hsecond]
      show (match (paramVals sqlite behind sql.2).bind (exec sqlite db.tables stmt) with
        | some o => _
        | none => _) = _
      cases (paramVals sqlite behind sql.2).bind (exec sqlite db.tables stmt) with
      | none => rfl
      | some o => rfl
    · have hok' : ¬ (db.called db.tables).ok = true := hsecond
      rw [if_neg hok', if_neg hsecond]
      rfl
  · have hok : ¬ db.ok = true := hfirst
    have hand : ¬ (db.succeeds db.calls && db.succeeds (db.calls + 1)) = true := by
      intro h
      exact hfirst (Bool.and_eq_true .. ▸ h).1
    rw [if_neg hok, if_neg hand, if_neg hfirst]
    rfl

/-- The rows that the condition on a rowid selects. -/
theorem meets_rowid (t : Table) {vals : List Val} {k : Nat}
    (hid : vals.getD k .null = .integer id) :
    t.meets sqlite (some (.compare (lit "rowid") .eq k)) vals = fun id' _ => id' == id := by
  funext id' row
  have hvalue : t.value id' row (lit "rowid") = .integer id' := if_pos (.inr rfl)
  show sqlite.compare .eq (t.value id' row (lit "rowid")) (vals.getD k .null) = _
  rw [hvalue, hid, sqlite.compare_integer]
  rfl

theorem meets_null (t : Table) {vals : List Val} {k : Nat} (hid : vals.getD k .null = .null) :
    t.meets sqlite (some (.compare (lit "rowid") .eq k)) vals = fun _ _ => false := by
  funext id' row
  show sqlite.compare .eq (t.value id' row (lit "rowid")) (vals.getD k .null) = _
  rw [hid, sqlite.compare_null]

/-- The columns that are set are those of a blob table. -/
def OfBlobTable (obj : Object) : Prop :=
  ∀ p ∈ obj, p.1 ∈ [lit "mode", lit "size", lit "salt", lit "data"]

theorem OfBlobTable.named {obj : Object} (h : OfBlobTable obj) : Named obj := by
  have hall : ∀ c ∈ [lit "mode", lit "size", lit "salt", lit "data"], isName c = true := by decide
  exact fun p hp => hall p.1 (h p hp)

/-- An update of the row with an id is a valid statement. -/
theorem declared_update (htable : HasBlobTable db table) {obj : Object} (h : OfBlobTable obj) :
    (Stmt.update table (obj.map (·.1)) (some (.compare (lit "rowid") .eq obj.length))).declared
      db.tables = true := by
  obtain ⟨t, ht, -, hcolumns⟩ := htable.exists_table
  unfold Stmt.declared
  show (db.tables table).any _ = true
  rw [ht]
  show List.all (obj.map (·.1) ++ [lit "rowid"]) t.declares = true
  rw [List.all_eq_true]
  intro c hc
  refine decide_eq_true ?_
  rcases List.mem_append.mp hc with hc | hc
  · obtain ⟨p, hp, rfl⟩ := List.mem_map.mp hc
    exact .inr (.inr (hcolumns ▸ h p hp))
  · exact .inr (.inl (List.mem_singleton.mp hc))

section

variable (htable : HasBlobTable db table) {obj : Object} (h : OfBlobTable obj) (hne : obj ≠ [])
include htable h hne

/-- What an update of a row comes down to. -/
theorem runAction_update :
    runAction sqlite behind false db
        (UpdateAction.sql table obj [(lit "rowid", .int64 id)]) =
      match if acts db then (paramVals sqlite behind (obj.map (·.2) ++ [.int64 id])).bind
          (exec sqlite db.tables (.update table (obj.map (·.1))
            (some (.compare (lit "rowid") .eq obj.length))))
        else none with
      | some o => (some o, ⟨o.tables, db.succeeds, db.calls + 2⟩)
      | none => (none, db.after (statementCalls db)) := by
  have hparse := parse_update htable.name h.named hne (parseWhere_rowid id obj.length)
  exact runAction_eq sqlite behind hparse (declared_update htable h)

/-- **An update of the row with an id.** -/
theorem update_eq {vals : List Val}
    (hvals : paramVals sqlite behind (obj.map (·.2) ++ [.int64 id]) = some vals)
    (hid : vals.getD obj.length .null = .integer id) :
    (update sqlite behind db table obj [(lit "rowid", .int64 id)]).2 =
      if acts db then
        db.modified table id (Row.assign · (assignmentsOf (obj.map (·.1)) vals)) (db.calls + 2)
      else db.after (statementCalls db) := by
  obtain ⟨t, ht, -, -⟩ := htable.exists_table
  unfold update
  rw [runAction_update sqlite behind htable h hne]
  by_cases hacts : acts db = true
  · rw [if_pos hacts, if_pos hacts, hvals, Option.bind_some]
    unfold exec Db.modified
    dsimp only
    rw [ht]
    simp only [Option.map_some]
    rw [meets_rowid sqlite t hid]
  · rw [if_neg hacts, if_neg hacts]

/-- An update whose condition has no value. -/
theorem update_eq_of_null {vals : List Val}
    (hvals : paramVals sqlite behind (obj.map (·.2) ++ [.int64 id]) = some vals)
    (hid : vals.getD obj.length .null = .null) :
    (update sqlite behind db table obj [(lit "rowid", .int64 id)]).2
      = db.after (statementCalls db) := by
  obtain ⟨t, ht, -, -⟩ := htable.exists_table
  unfold update
  rw [runAction_update sqlite behind htable h hne]
  by_cases hacts : acts db = true
  · have hfirst : db.succeeds db.calls = true := (Bool.and_eq_true .. ▸ hacts).1
    have hsame : t.modify (fun _ _ => false)
        (Row.assign · (assignmentsOf (obj.map (·.1)) vals)) = t := by
      unfold Table.modify
      simp only [Bool.false_eq_true, if_false]
      rw [List.map_id']
    rw [if_pos hacts, hvals, Option.bind_some]
    unfold exec statementCalls Db.after
    dsimp only
    rw [ht]
    simp only [Option.map_some]
    rw [meets_null sqlite t hid, if_pos hfirst]
    show Db.mk (Function.update db.tables table (some (t.modify _ _))) _ _ = _
    rw [hsame, ← ht, Function.update_eq_self]
  · rw [if_neg hacts]

/-- An update with a value that is too big. -/
theorem update_eq_of_none
    (hvals : paramVals sqlite behind (obj.map (·.2) ++ [.int64 id]) = none) :
    (update sqlite behind db table obj [(lit "rowid", .int64 id)]).2
      = db.after (statementCalls db) := by
  unfold update
  rw [runAction_update sqlite behind htable h hne, hvals]
  by_cases hacts : acts db = true
  · rw [if_pos hacts]
    rfl
  · rw [if_neg hacts]

end

/-! ## Opening a blob -/

/-- What `Store::getBlobInfo` reports of a row. -/
def info (row : Row) : Object :=
  rowToUbj [(lit "mode", row (lit "mode")), (lit "size", row (lit "size")),
    (lit "salt", row (lit "salt"))]

/-- The first row a condition on a rowid selects. -/
theorem head_filter_rowid (t : Table) (id : BitVec 64) :
    (t.rows.filter (fun r => r.1 == id)).head? = (t.find? id).map (fun row => (id, row)) := by
  unfold Table.find?
  induction t.rows with
  | nil => rfl
  | cons r rows ih =>
    rw [OrdMap.find?]
    by_cases hid : r.1 = id
    · rw [List.filter_cons_of_pos (by exact beq_iff_eq.mpr hid), if_pos hid]
      show some r = some (id, r.2)
      rw [← hid]
    · rw [List.filter_cons_of_neg (by exact fun hb => hid (beq_iff_eq.mp hb)), if_neg hid]
      exact ih

theorem getBlobInfo_eq (htable : HasBlobTable db table) :
    getBlobInfo sqlite behind db table id =
      (if acts db then (db.row table id).map info else none, db.after (statementCalls db)) := by
  obtain ⟨t, ht, hkey, hcolumns⟩ := htable.exists_table
  have hnames : ∀ c ∈ [lit "mode", lit "size", lit "salt"], isName c = true := by decide
  have hparse := parse_query htable.name hnames (List.cons_ne_nil _ _) (parseWhere_rowid id 0)
  have hvalid : (Stmt.select [lit "mode", lit "size", lit "salt"] table
      (some (.compare (lit "rowid") .eq 0))).declared db.tables = true := by
    unfold Stmt.declared
    show (db.tables table).any _ = true
    rw [ht]
    show List.all ([lit "mode", lit "size", lit "salt"] ++ [lit "rowid"]) t.declares = true
    unfold Table.declares
    rw [hkey, hcolumns]
    decide
  unfold getBlobInfo
  rw [runAction_eq sqlite behind hparse hvalid]
  by_cases hacts : acts db = true
  · have hfirst : db.succeeds db.calls = true := (Bool.and_eq_true .. ▸ hacts).1
    have hvals : paramVals sqlite behind
        (QueryAction.sql table [(lit "rowid", .int64 id)] []
          [lit "mode", lit "size", lit "salt"] 0 0).2 = some [.integer id] := rfl
    rw [if_pos hacts, if_pos hacts, hvals, Option.bind_some]
    unfold exec statementCalls Db.row
    dsimp only
    rw [ht]
    simp only [Option.map_some]
    rw [meets_rowid sqlite t rfl, if_pos hfirst]
    have hhead := head_filter_rowid t id
    show ((((t.rows.filter (fun r => r.1 == id)).map _).head?).map rowToUbj, _) = _
    rw [List.head?_map, hhead, Option.map_map, Option.map_map]
    refine Prod.ext ?_ rfl
    show Option.map _ (t.find? id) = (t.find? id).map info
    congr 1
    funext row
    show rowToUbj (t.report [lit "mode", lit "size", lit "salt"] id row) = info row
    have hvalue : ∀ c ∈ [lit "mode", lit "size", lit "salt"], t.value id row c = row c := by
      intro c hc
      refine if_neg ?_
      rw [hkey]
      revert c
      decide
    unfold info Table.report
    show rowToUbj [(_, t.value id row _), (_, t.value id row _), (_, t.value id row _)] = _
    rw [hvalue _ (by decide), hvalue _ (by decide), hvalue _ (by decide)]
    rfl
  · rw [if_neg hacts, if_neg hacts]

end

/-- The bytes in the data column. -/
def dataOf (row : Row) : Option Bytes := (row (lit "data")).bytes

/-- The mode of a row, whether it is enciphered. -/
def modeOf (row : Row) : Bool := (field (info row) (lit "mode")).toInt != 0

def sizeOf (row : Row) : UInt32 := UInt32.ofBitVec (field (info row) (lit "size")).toInt

def saltOf (row : Row) : Option MemoryBuffer :=
  (buffer (field (info row) (lit "salt"))).map MemoryBuffer.ofData

/-- The three calls that open a blob will succeed. -/
def opens (db : Db) : Bool := acts db && db.succeeds (db.calls + 2)

theorem opens_of_succeeds {db : Db} (hok : ∀ n, db.succeeds n = true) : opens db = true := by
  unfold opens
  rw [acts_of_succeeds hok, hok]
  rfl

section

variable (sqlite : Behaviour) (behind : BitVec 32) (aes_encrypt : Bytes → Bytes → Bytes)
  (key : MemoryBuffer) {db : Db} {table : Bytes} {id : BitVec 64}

/-- The blob that is opened on a row. -/
def blobOf (table : Bytes) (id : BitVec 64) (row : Row) : Blob :=
  Blob.opened key table id (modeOf row) (sizeOf row) (saltOf row)

theorem openBlob_some (htable : HasBlobTable db table) (h : opens db = true) {row : Row}
    (hrow : db.row table id = some row) {data : Bytes} (hdata : dataOf row = some data) :
    openBlob sqlite behind key db table id =
      (some (blobOf key table id row), db.after (db.calls + 3)) := by
  obtain ⟨hacts, hopen⟩ := Bool.and_eq_true .. ▸ h
  have hfirst : db.succeeds db.calls = true := (Bool.and_eq_true .. ▸ hacts).1
  have hcalls : statementCalls db = db.calls + 2 := if_pos hfirst
  have hblob : (db.after (db.calls + 2)).blobOpen table (lit "data") id
      = (true, db.after (db.calls + 3)) := by
    unfold Db.blobOpen
    rw [Db.value_eq, Db.row_after, hrow]
    show (db.succeeds (db.calls + 2) && (dataOf row).isSome, _) = _
    rw [hopen, hdata]
    rfl
  unfold openBlob
  rw [getBlobInfo_eq sqlite behind htable, if_pos hacts, hrow, hcalls]
  dsimp only [Option.map_some]
  rw [hblob]
  rfl

theorem openBlob_none (htable : HasBlobTable db table)
    (h : opens db = true → (db.row table id).bind dataOf = none) :
    ∃ calls, openBlob sqlite behind key db table id = (none, db.after calls) := by
  unfold openBlob
  rw [getBlobInfo_eq sqlite behind htable]
  by_cases hacts : acts db = true
  · have hfirst : db.succeeds db.calls = true := (Bool.and_eq_true .. ▸ hacts).1
    have hcalls : statementCalls db = db.calls + 2 := if_pos hfirst
    rw [if_pos hacts, hcalls]
    cases hrow : db.row table id with
    | none => exact ⟨_, rfl⟩
    | some row =>
      have hblob : (db.after (db.calls + 2)).blobOpen table (lit "data") id
          = (false, db.after (db.calls + 3)) := by
        unfold Db.blobOpen
        rw [Db.value_eq, Db.row_after, hrow]
        show (db.succeeds (db.calls + 2) && (dataOf row).isSome, _) = _
        by_cases hopen : db.succeeds (db.calls + 2) = true
        · have hnone := h (by unfold opens; rw [hacts, hopen]; rfl)
          rw [hrow] at hnone
          have hdata : dataOf row = none := hnone
          rw [hdata, Option.isSome_none, Bool.and_false]
          rfl
        · rw [Bool.eq_false_iff.mpr hopen]
          rfl
      dsimp only [Option.map_some]
      rw [hblob]
      exact ⟨_, rfl⟩
  · rw [if_neg hacts]
    exact ⟨_, rfl⟩

/-! ## Reading a blob -/

theorem Blob.read_some (b : Blob) {db db' : Db} {size offset : UInt32} {data : Bytes}
    (h : db.blobRead b.table (lit "data") b.id size offset = (some data, db')) :
    b.read aes_encrypt db size offset =
      if b.mode then
        (((b.aes.decrypt aes_encrypt AES.noCallback data size ()).1,
          overwrite data 0 (b.aes.decrypt aes_encrypt AES.noCallback data size ()).2.2.1),
          { b with aes := (b.aes.decrypt aes_encrypt AES.noCallback data size ()).2.1 }, db')
      else ((true, data), b, db') := by
  unfold Blob.read
  rw [h]

theorem Blob.read_none (b : Blob) {db db' : Db} {size offset : UInt32}
    (h : db.blobRead b.table (lit "data") b.id size offset = (none, db')) :
    b.read aes_encrypt db size offset = ((false, []), b, db') := by
  unfold Blob.read
  rw [h]

/-- What is read from a row, if every call succeeds. -/
def contents (row : Row) : Option MemoryBuffer :=
  (dataOf row).map fun data =>
    (MemoryBuffer.create (sizeOf row)).blit
      (if (sizeOf row).toNat < 2 ^ 31 ∧ (sizeOf row).toNat ≤ data.length then
        if modeOf row then
          overwrite (data.take (sizeOf row).toNat) 0
            ((blobOf key [] 0 row).aes.decrypt aes_encrypt AES.noCallback
              (data.take (sizeOf row).toNat) (sizeOf row) ()).2.2.1
        else data.take (sizeOf row).toNat
      else []) 0

/-- **What `Store::getBlobData` reads.** It depends on the row alone. -/
theorem getBlobData_eq (htable : HasBlobTable db table) (hok : ∀ n, db.succeeds n = true) :
    (getBlobData sqlite behind aes_encrypt key db table id).1 =
      (db.row table id).bind (contents aes_encrypt key) := by
  have hopens := opens_of_succeeds hok
  unfold getBlobData
  cases hdata : (db.row table id).bind dataOf with
  | none =>
    obtain ⟨calls, hopen⟩ := openBlob_none sqlite behind key htable (fun _ => hdata)
    rw [hopen]
    cases hrow : db.row table id with
    | none => rfl
    | some row =>
      rw [hrow] at hdata
      have hnone : dataOf row = none := hdata
      show none = contents aes_encrypt key row
      unfold contents
      rw [hnone]
      rfl
  | some data =>
    obtain ⟨row, hrow, hsome⟩ := Option.bind_eq_some_iff.mp hdata
    have hread : (db.after (db.calls + 3)).blobRead table (lit "data") id (sizeOf row) 0
        = (if (sizeOf row).toNat < 2 ^ 31 ∧ (sizeOf row).toNat ≤ data.length then
            some (data.take (sizeOf row).toNat) else none, db.after (db.calls + 4)) := by
      have hok' : (db.after (db.calls + 3)).ok = true := hok _
      have hzero : (0 : UInt32).toNat = 0 := rfl
      unfold Db.blobRead
      rw [if_pos hok', Db.value_eq, Db.row_after, hrow]
      show ((dataOf row).bind _, _) = _
      rw [hsome, Option.bind_some, hzero, Nat.zero_add, List.drop_zero]
      rfl
    rw [openBlob_some sqlite behind key htable hopens hrow hsome, hrow]
    dsimp only [Option.bind_some]
    unfold contents
    rw [hsome]
    dsimp only [Option.map_some]
    by_cases hfits : (sizeOf row).toNat < 2 ^ 31 ∧ (sizeOf row).toNat ≤ data.length
    · rw [if_pos hfits] at hread ⊢
      have hblob := Blob.read_some aes_encrypt (blobOf key table id row) hread
      show some ((MemoryBuffer.create (sizeOf row)).blit
        (Blob.read aes_encrypt (blobOf key table id row) (db.after (db.calls + 3)) (sizeOf row)
          0).1.2 0) = _
      rw [hblob]
      by_cases hmode : modeOf row = true
      · rw [if_pos (show (blobOf key table id row).mode = true from hmode), if_pos hmode]
        rfl
      · rw [if_neg (show ¬ (blobOf key table id row).mode = true from hmode), if_neg hmode]
    · rw [if_neg hfits] at hread ⊢
      have hblob := Blob.read_none aes_encrypt (blobOf key table id row) hread
      show some ((MemoryBuffer.create (sizeOf row)).blit
        (Blob.read aes_encrypt (blobOf key table id row) (db.after (db.calls + 3)) (sizeOf row)
          0).1.2 0) = _
      rw [hblob]

end

end Zway.Ubj.Store
