import Zway.Lib.Sqlite
import Zway.Ubj.Writer

/-!
# `Action`

A store action turns a query, an object to insert or an object of changes into the
text of a statement, and keeps the values for its parameters in `m_bound`, in the
order in which it puts down the `?`s. A function of the source that appends to
`m_bound` returns what it appends here, next to the text.
-/

namespace Zway.Ubj.Store

open Sql

/-- A part of a statement: its text, and what it appends to `m_bound`. -/
abbrev Part := Bytes × List Value

/-! ## The parts of a statement -/

/-- `Action::fieldsToReturnPart`. -/
def fieldsToReturnPart : List Bytes → Bytes
  | [] => []
  | [field] => field
  | field :: fields => field ++ lit "," ++ fieldsToReturnPart fields

/-- The operators of `Action::wherePart`, in the order of the map. -/
def ops : List (Bytes × Bytes) :=
  [(lit "$ge", lit ">=?"), (lit "$gt", lit ">?"), (lit "$le", lit "<=?"),
    (lit "$like", lit " like ?"), (lit "$lt", lit "<?"), (lit "$ne", lit "<>?")]

/-- The loop over the operators, which stops at the first one the object has. -/
def firstOp (key : Bytes) (fields : Object) : List (Bytes × Bytes) → Part
  | [] => ([], [])
  | (op, text) :: rest =>
      match OrdMap.find? fields op with
      | some v => (key ++ text, [v])
      | none => firstOp key fields rest

mutual

/-- `Action::wherePart`. -/
def wherePart : Object → Part
  | [] => ([], [])
  | [(key, v)] => whereEntry key v
  | (key, v) :: rest =>
      ((whereEntry key v).1 ++ lit " AND " ++ (wherePart rest).1,
        (whereEntry key v).2 ++ (wherePart rest).2)

/-- One turn of its loop. -/
def whereEntry (key : Bytes) : Value → Part
  | .array [] => ([], [])
  | .array [v] => if key = lit "$or" then whereItem v else ([], [])
  | .array (v :: items) =>
      if key = lit "$or" then
        (lit "(" ++ (whereItems (v :: items)).1 ++ lit ")", (whereItems (v :: items)).2)
      else ([], [])
  | .buffer _ => ([], [])
  | .object (field :: fields) => firstOp key (field :: fields) ops
  | v => (key ++ lit "=?", [v])

/-- An alternative. What is no object converts to an empty one. -/
def whereItem : Value → Part
  | .object fields => wherePart fields
  | _ => ([], [])

/-- The loop over the alternatives. -/
def whereItems : List Value → Part
  | [] => ([], [])
  | [v] => whereItem v
  | v :: items =>
      ((whereItem v).1 ++ lit " OR " ++ (whereItems items).1,
        (whereItem v).2 ++ (whereItems items).2)

end

/-- `Action::orderPart`. -/
def orderPart (order : Object) : Bytes :=
  order.flatMap (fun field =>
    field.1 ++ if 0 < field.2.toInt.toInt then lit " ASC " else lit " DESC ")

/-- The names of `Action::insertPart`, and the `?`s. -/
def insertLists : Object → Bytes × Bytes
  | [] => ([], [])
  | [(key, _)] => (key, lit "?")
  | (key, _) :: rest =>
      (key ++ lit "," ++ (insertLists rest).1, lit "?" ++ lit "," ++ (insertLists rest).2)

/-- `Action::insertPart`. -/
def insertPart (insert : Object) : Part :=
  (if (insertLists insert).1.isEmpty then []
    else lit "(" ++ (insertLists insert).1 ++ lit ") VALUES(" ++ (insertLists insert).2 ++ lit ")",
    insert.map (·.2))

/-- The text of `Action::updatePart`. -/
def updateText : Object → Bytes
  | [] => []
  | [(key, _)] => key ++ lit "=?"
  | (key, _) :: rest => key ++ lit "=?" ++ lit "," ++ updateText rest

/-- `Action::updatePart`. -/
def updatePart (update : Object) : Part := (updateText update, update.map (·.2))

/-! ## Binding -/

section

-- what lies in memory behind the four bytes of a `float`
variable (behind : BitVec 32)

/-- What `Action::bindUbjToStmt` binds for a value, if it binds anything. -/
def bindUbj (vtab : Bool) : Value → Option Param
  | .object fields =>
      match OrdMap.find? fields (lit "$zeroBlob") with
      | some size => some (.zeroblob (size.toLong.setWidth 32).toInt.toNat)
      | none =>
          if (OrdMap.find? fields (lit "$bindNull")).isSome then some (.value .null)
          else if vtab then some (.value (.blob (Writer.write (.object fields))))
          else none
  | .buffer data =>
      if !data.isEmpty then some (.value (.blob data))
      else if vtab then some (.value (.blob (Writer.write (.buffer data))))
      else none
  | .array items => if vtab then some (.value (.blob (Writer.write (.array items)))) else none
  | .bool b => some (.value (.integer (if b then 1 else 0)))
  | .int32 i => some (.value (.integer (i.signExtend 64)))
  | .int64 i => some (.value (.integer i))
  | .float32 bits => some (.value (.real (behind ++ bits)))
  | .float64 bits => some (.value (.real bits))
  | .string s => some (.value (.text s))
  | .null => some (.value .null)

/-- `Action::bindUbjToStmt`: what the parameters are bound to, from the first one on. A value for
which nothing is bound does not use up a parameter. -/
def bindUbjToStmt (sqlite : Behaviour) (vtab : Bool) (bound : List Value) : List Param :=
  (bound.filterMap (bindUbj behind vtab)).map (fun p =>
    match p with
    -- `sqlite3_bind_blob` refuses what is too big, and the parameter stays NULL
    | .value (.blob data) => if data.length ≤ sqlite.maxLength then p else .value .null
    | p => p)

end

/-! ## Reading a row -/

/-- `Value::buffer`. -/
def buffer : Value → Option Bytes
  | .int32 i => some (leBytes 4 i.toNat)
  | .int64 i => some (leBytes 8 i.toNat)
  | .float32 bits => some (leBytes 4 bits.toNat)
  | .float64 bits => some (leBytes 8 bits.toNat)
  | .string s => some s
  | .buffer data => some data
  | _ => none

/-- A column of `Action::rowToUbj`, for a table that is not virtual. There is nothing for a float
and for NULL. -/
def columnToUbj : Val → Option Value
  | .integer i => some (.int64 i)
  | .text s => some (Value.ofString s)
  | .blob data => some (.buffer data)
  | .real _ => none
  | .null => none

/-- `Action::rowToUbj`, for a table that is not virtual. -/
def rowToUbj (row : List (Bytes × Val)) : Object :=
  row.foldl (fun obj column =>
    match columnToUbj column.2 with
    | some v => OrdMap.insert column.1 v obj
    | none => obj) []

/-- `Object::operator[]`. -/
def field (obj : Object) (key : Bytes) : Value := (OrdMap.find? obj key).getD .null

/-! ## The statements -/

/-- The condition of a statement, if there is any. -/
def whereText (query : Object) : Bytes :=
  if (wherePart query).1.isEmpty then [] else lit " WHERE " ++ (wherePart query).1

/-- `InsertAction::InsertAction`. -/
def InsertAction.sql (table : Bytes) (insert : Object) : Part :=
  (lit "INSERT INTO " ++ table ++ lit " " ++ (insertPart insert).1, (insertPart insert).2)

/-- `UpdateAction::UpdateAction`. -/
def UpdateAction.sql (table : Bytes) (update query : Object) : Part :=
  (lit "UPDATE " ++ table ++ lit " SET " ++ (updatePart update).1 ++ whereText query,
    (updatePart update).2 ++ (wherePart query).2)

/-- `RemoveAction::RemoveAction`. -/
def RemoveAction.sql (table : Bytes) (query : Object) : Part :=
  (lit "DELETE FROM " ++ table ++ whereText query, (wherePart query).2)

/-- `CountAction::CountAction`. -/
def CountAction.sql (table : Bytes) (query : Object) : Part :=
  (lit "SELECT COUNT(1) FROM " ++ table ++ whereText query, (wherePart query).2)

/-- `QueryAction::QueryAction`. -/
def QueryAction.sql (table : Bytes) (query order : Object) (fieldsToReturn : List Bytes)
    (limit offset : BitVec 32) : Part :=
  (lit "SELECT "
      ++ (if (fieldsToReturnPart fieldsToReturn).isEmpty then lit "* FROM " ++ table
        else fieldsToReturnPart fieldsToReturn ++ lit " FROM " ++ table)
      ++ whereText query
      ++ (if (orderPart order).isEmpty then [] else lit " ORDER BY " ++ orderPart order)
      ++ (if 0 < limit.toInt then lit " LIMIT " ++ lit limit.toNat.repr else [])
      ++ (if 0 < offset.toInt then lit " OFFSET " ++ lit offset.toNat.repr else []),
    (wherePart query).2)

end Zway.Ubj.Store
