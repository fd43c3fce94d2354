import Zway.Lib.VirtualTable
import Zway.Store.Blob
import Zway.Ubj.Reader
import Zway.Ubj.Wire

/-!
# `VirtualTableModule`

A virtual table shows the objects of one type that lie in a blob table. Each blob is a
UBJ object, and its field `_$type` says which virtual table it belongs to; nothing else
tells the objects of one table from those of another.

`m_indexes` and `m_hitmap` are never filled: what would fill them is commented out. So
`xBestIndex` knows only of the rowid, and `xFilter` of the ids in `m_ids`.
-/

namespace Zway.Ubj

/-- `(double)f`. Every float is a double. -/
def floatToDouble (bits : BitVec 32) : BitVec 64 :=
  let sign := bits.toNat / 2 ^ 31
  let exponent := bits.toNat / 2 ^ 23 % 2 ^ 8
  let fraction := bits.toNat % 2 ^ 23
  -- the exponent and the fraction of the double
  let wide : Nat × Nat :=
    if exponent = 255 then (2047, fraction * 2 ^ 29)
    else if exponent ≠ 0 then (exponent + 896, fraction * 2 ^ 29)
    else if fraction = 0 then (0, 0)
    else (fraction.log2 + 874, (fraction - 2 ^ fraction.log2) * 2 ^ (52 - fraction.log2))
  BitVec.ofNat 64 (sign * 2 ^ 63 + wide.1 * 2 ^ 52 + wide.2)

/-- `Value::toStr`, on what `operator<<` makes of a double. -/
def Value.toStr (printed : BitVec 64 → Bytes) : Value → Bytes
  | .string s => s
  | .int32 i => lit (toString i.toInt)
  | .int64 i => lit (toString i.toInt)
  | .float32 bits => printed (floatToDouble bits)
  | .float64 bits => printed bits
  | _ => []

namespace Store

open Sql

/-- What the store runs on, and what it is opened with. -/
structure Platform extends Planner where
  sqlite : Behaviour
  /-- `sqlite3_value_int64`. -/
  value_int64 : Val → BitVec 64
  /-- What is equal to an integer is converted to it. -/
  value_int64_eq : ∀ i v, sqlite.compare .eq (.integer i) v = true → value_int64 v = i
  /-- What lies behind the four bytes of a `float`. -/
  behind : BitVec 32
  /-- What lies behind a document, and how deep the parser can go. -/
  env : UbjrEnv
  fuel : Nat
  /-- What a stream makes of a `double`. -/
  printed : BitVec 64 → Bytes
  aes_encrypt : Bytes → Bytes → Bytes
  /-- `m_key`. -/
  key : MemoryBuffer

namespace Platform

variable (p : Platform)

/-- `Value::read` into an `Object`. -/
def readObject (data : Bytes) : Option Object :=
  match Value.read p.env p.fuel .null data with
  | (true, v) => some v.toObject
  | (false, _) => none

/-- `Store::getBlobData` into an `Object`. -/
def getBlobObject (db : Db) (table : Bytes) (id : BitVec 64) : Option Object × Db :=
  let data := getBlobData p.sqlite p.behind p.aes_encrypt p.key db table id
  (data.1.bind (fun data => p.readObject data.data), data.2)

/-- `Store::updateBlobData` with an `Object`. -/
def updateBlobObject (random : Option SaltBytes) (db : Db) (table : Bytes) (id : BitVec 64)
    (obj : Object) : BitVec 32 × Db :=
  updateBlobData p.sqlite p.behind p.aes_encrypt p.key random db table id
    (some (MemoryBuffer.ofData (Writer.write (.object obj)))) true

/-- `Store::getBlobIds`. -/
def getBlobIds (db : Db) (table : Bytes) : List Value × Db :=
  match runAction p.sqlite p.behind false db (QueryAction.sql table [] [] [lit "id"] 0 0) with
  | (some o, db) => (o.rows.map (fun row => field (rowToUbj row) (lit "id")), db)
  | (none, db) => ([], db)

end Platform

/-- `VirtualTableModule`, as `createVTables` makes one: its name, `m_type`, `m_blobTable` and
`m_columns`. SQLite refuses columns that differ only in case. A column that is called `rowid` would
take the place of the rowid. -/
structure VirtualTable where
  name : Bytes
  type : BitVec 32
  blobTable : Bytes
  columns : List Bytes
  name_isName : isName name = true
  name_ne : name ≠ blobTable
  columns_isName : ∀ c ∈ columns, isName c = true
  columns_upper : (columns.map upper).Nodup
  columns_ne_nil : columns ≠ []
  rowid_upper : lit "ROWID" ∉ columns.map upper

namespace VirtualTable

theorem columns_nodup (T : VirtualTable) : T.columns.Nodup := T.columns_upper.of_map

theorem rowid_notMem (T : VirtualTable) : lit "rowid" ∉ T.columns :=
  fun h => T.rowid_upper (List.mem_map.mpr ⟨_, h, by decide⟩)

variable (p : Platform) (T : VirtualTable)

/-! ## Which blobs are rows -/

/-- `VirtualTableModule::addIndexItem`. -/
def addIndexItem (index : Object) (val : Bytes) (id : BitVec 32) : Object :=
  match OrdMap.find? index val with
  | none => OrdMap.insert val (.array [.int32 id]) index
  | some (.array items) =>
      if items.any (fun v => v.toInt == id) then index
      else OrdMap.insert val (.array (items ++ [.int32 id])) index
  | some _ => index

/-- The loop of `VirtualTableModule::createIndex`. -/
def createIndexLoop (column : Bytes) : List Value → Object → Db → Object × Db
  | [], res, db => (res, db)
  | v :: ids, res, db =>
      let data := p.getBlobObject db T.blobTable (v.toInt.setWidth 64)
      match data.1.bind (OrdMap.find? · column) with
      | some val => createIndexLoop column ids (addIndexItem res (val.toStr p.printed) v.toInt) data.2
      | none => createIndexLoop column ids res data.2

/-- `VirtualTableModule::createIndex`. -/
def createIndex (column : Bytes) (ids : List Value) (db : Db) : Object × Db :=
  let blobIds := if ids.isEmpty then p.getBlobIds db T.blobTable else (ids, db)
  createIndexLoop p T column blobIds.1 [] blobIds.2

/-- `Array(const Value &)`. -/
def toArray : Value → List Value
  | .array items => items
  | _ => []

/-- `VirtualTableModule::updateIds`: what is then in `m_ids`. -/
def updateIds (db : Db) : List Value × Db :=
  let ids := p.getBlobIds db T.blobTable
  let index := createIndex p T (lit "_$type") ids.1 ids.2
  (toArray (field index.1 ((Value.int32 T.type).toStr p.printed)), index.2)

/-! ## A scan -/

/-- `VirtualTableModule::xBestIndex`: `idxNum`, and the constraint whose operator goes to `idxStr` and
whose value to `argv`. It does not look at `usable`. -/
def xBestIndex {α : Type} (iColumn : α → Int) (constraints : List α) : Int × Option α :=
  constraints.foldl (fun best c => if iColumn c = -1 then (-1, some c) else best) (0, none)

/-- The ids `VirtualTableModule::xFilter` goes through. -/
def filterIds (ids : List Value) (scan : Scan) : List Value :=
  let picked :=
    match xBestIndex Constraint.iColumn scan with
    | (-1, some c) =>
        if c.op = SQLITE_INDEX_CONSTRAINT_EQ then [.int64 (p.value_int64 c.rhs)] else []
    | _ => []
  if picked.isEmpty then ids else picked

/-- The loop of `VirtualTableModule::xFilter`: `rowIds` and `rows`. -/
def filterRows : List Value → Db → List (BitVec 32 × Object) × Db
  | [], db => ([], db)
  | v :: ids, db =>
      let data := p.getBlobObject db T.blobTable (v.toInt.setWidth 64)
      let rest := filterRows ids data.2
      match data.1 with
      | some obj => ((v.toInt, obj) :: rest.1, rest.2)
      | none => rest

/-- `VirtualTableModule::xFilter`. -/
def xFilter (ids : List Value) (scan : Scan) (db : Db) : List (BitVec 32 × Object) × Db :=
  filterRows p T (filterIds p ids scan) db

/-- `sqlite3_result_double`. There are no NaNs in SQLite. -/
def resultDouble (bits : BitVec 64) : Val := if isNaN64 bits then .null else .real bits

/-- What `VirtualTableModule::xColumn` makes of a value. -/
def columnVal : Value → Val
  | .object fields => .blob (Writer.write (.object fields))
  | .array items => .blob (Writer.write (.array items))
  | .buffer data => .blob (Writer.write (.buffer data))
  | .int32 i => .integer (i.signExtend 64)
  | .int64 i => .integer i
  | .float32 bits => resultDouble (floatToDouble bits)
  | .float64 bits => resultDouble bits
  | .string s => .text s
  | _ => .null

/-- `VirtualTableModule::xColumn`. Where it sets no result, that is NULL. -/
def xColumn (obj : Object) (key : Bytes) : Val :=
  match OrdMap.find? obj key with
  | some v => columnVal v
  | none => .null

/-- `VirtualTableModule::xRowid`. -/
def xRowid (id : BitVec 32) : BitVec 64 := id.setWidth 64

/-- The rows of a scan, as SQLite gets them. -/
def scanRows (rows : List (BitVec 32 × Object)) : List (BitVec 64 × Row) :=
  rows.map (fun r => (xRowid r.1, xColumn r.2))

/-- The scans of a plan, one after the other. -/
def scanAll (ids : List Value) : Plan → Db → List (List (BitVec 64 × Row)) × Db
  | [], db => ([], db)
  | scan :: plan, db =>
      let rows := xFilter p T ids scan db
      let rest := scanAll ids plan rows.2
      (scanRows rows.1 :: rest.1, rest.2)

/-! ## Statements -/

/-- The table that statements see, with some rows. -/
def table (rows : List (BitVec 64 × Row)) : Table := ⟨lit "rowid", T.columns, rows⟩

/-- The condition of a statement. -/
def condOf : Stmt → Option Cond
  | .insert _ _ => none
  | .update _ _ cond => cond
  | .delete _ cond => cond
  | .select _ _ cond => cond
  | .count _ cond => cond

/-- SQLite goes on with what `xBestIndex` picks, unless it was not usable. -/
def planned (stmt : Stmt) : Bool :=
  (p.offers (condOf stmt)).all (fun offer => (xBestIndex Offer.iColumn offer).2.all (·.usable))

/-- The tables with this one among them. -/
def visible (tables : Tables) : Tables := Function.update tables T.name (some (T.table []))

/-- `Action::prepareStmt`. -/
def prepare (db : Db) (text : Bytes) : Option Stmt × Db :=
  (if db.ok then
    ((parse (tokens text)).bind (Stmt.resolve (T.visible db.tables))).filter (planned p)
    else none,
    db.called db.tables)

/-- The values of the parameters. -/
def paramVals (bound : List Value) : Option (List Val) :=
  (bindUbjToStmt p.behind p.sqlite true bound).mapM (Param.val p.sqlite)

/-- The rows that `sqlite3_step` gives for a condition; none if the call fails. -/
def select (ids : List Value) (cond : Option Cond) (bound : List Value) (db : Db) :
    Option (List (BitVec 64 × Row)) × Db :=
  match if db.ok then paramVals p bound else none with
  | some vals =>
      let scans := scanAll p T ids (p.plan cond vals) (db.called db.tables)
      (some ((gather scans.1).filter
        (fun r => (T.table []).meets p.sqlite cond vals r.1 r.2)), scans.2)
  | none => (none, db.called db.tables)

/-- A column of `Action::rowToUbj`, for a virtual table. -/
def columnToUbj (prior : Value) : Val → Option Value
  | .integer i => some (.int64 i)
  | .text s => some (Value.ofString s)
  | .blob data => some (Value.read p.env p.fuel prior data).2
  | .real _ => none
  | .null => none

/-- `Action::rowToUbj`, for a virtual table. -/
def rowToUbj (row : List (Bytes × Val)) : Object :=
  row.foldl (fun obj column =>
    match columnToUbj p (field obj column.1) column.2 with
    | some v => OrdMap.insert column.1 v obj
    | none => obj) []

/-- A row as it is reported. No columns stand for all of them. -/
def report (columns : List Bytes) (r : BitVec 64 × Row) : Object :=
  rowToUbj p ((T.table []).report (if columns.isEmpty then T.columns else columns) r.1 r.2)

/-- The columns of a result. -/
def resultOf : Stmt → List Bytes
  | .select columns _ _ => columns
  | _ => []

/-- A statement of the store on the table, after `updateIds`: whether it can be prepared, and the rows
it goes through. -/
def runSelect (db : Db) (sql : Part) : Option (Stmt × Option (List (BitVec 64 × Row))) × Db :=
  let ids := updateIds p T db
  match prepare p T ids.2 sql.1 with
  | (some stmt, db) =>
      let rows := select p T ids.1 (condOf stmt) sql.2 db
      (some (stmt, rows.1), rows.2)
  | (none, db) => (none, db)

/-- `Store::query`. Only a statement that cannot be prepared is an error. -/
def query (db : Db) (where_ : Object) (fieldsToReturn : List Bytes) : Option (List Object) × Db :=
  match runSelect p T db (QueryAction.sql T.name where_ [] fieldsToReturn 0 0) with
  | (some (stmt, rows), db) => (some ((rows.getD []).map (report p T (resultOf stmt))), db)
  | (none, db) => (none, db)

/-- `Store::count`. -/
def count (db : Db) (where_ : Object) : BitVec 32 × Db :=
  match runSelect p T db (CountAction.sql T.name where_) with
  | (some (_, some rows), db) => (BitVec.ofNat 32 rows.length, db)
  | (_, db) => (-1, db)

/-! ## Inserting -/

/-- A column of `VirtualTableModule::xUpdate`. -/
def setColumn (obj : Object) (key : Bytes) : Val → Object
  | .integer i => OrdMap.insert key (.int64 i) obj
  | .text s => OrdMap.insert key (Value.ofString (cstr s)) obj
  | .blob data => OrdMap.insert key (Value.read p.env p.fuel (field obj key) data).2 obj
  | .real _ => obj
  | .null => obj

/-- The object that `VirtualTableModule::xUpdate` makes of a row. -/
def insertedObject (row : Row) : Object :=
  OrdMap.insert (lit "_$type") (.int32 T.type)
    (T.columns.foldl (fun obj key => setColumn p obj key (row key)) [])

/-- `VirtualTableModule::xUpdate` for an insertion. The result is zero if it fails. -/
def xUpdate (random : Option SaltBytes) (row : Row) (db : Db) : BitVec 64 × Db :=
  createBlob p.sqlite p.behind p.aes_encrypt p.key random db T.blobTable
    (some (MemoryBuffer.ofData (Writer.write (.object (insertedObject p T row))))) true

/-- `Store::insert`. -/
def insert (random : Option SaltBytes) (db : Db) (obj : Object) : BitVec 64 × Db :=
  match prepare p T db (InsertAction.sql T.name obj).1 with
  | (some (.insert _ columns), db) =>
      match if db.ok then paramVals p (InsertAction.sql T.name obj).2 else none with
      | some vals =>
          xUpdate p T random (Row.fill (fun _ => .null) (assignmentsOf columns vals))
            (db.called db.tables)
      | none => (0, db.called db.tables)
  | (_, db) => (0, db)

end VirtualTable

end Store

end Zway.Ubj
