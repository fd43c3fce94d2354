import Zway.Client.Rows
import Zway.Store.VirtualScan
import Zway.Store.VirtualRows

/-!
# Nodes of the file tree

`Store::createVfsNode` asks the store whether there is the node that it is going to insert, with
all of its fields: also with the time of the call and with what the caller has put into `data`.

The objects of all virtual tables lie in `blob2`; here they are as `xUpdate` has made them. A
call of the store may fail.
-/

namespace Zway.Client

open Ubj Ubj.Store Sql

/-- The virtual table `vfs`. -/
def vfs : VirtualTable where
  name := lit "vfs"
  type := 8100
  blobTable := lit "blob2"
  columns := [lit "id", lit "type", lit "parent", lit "status", lit "time", lit "name", lit "size",
    lit "hash", lit "data"]
  name_isName := by decide
  name_ne := by decide
  columns_isName := by decide
  columns_upper := by decide
  columns_ne_nil := List.cons_ne_nil _ _
  rowid_upper := by decide

structure NodeStore where
  /-- `blob2`, with the rowids. -/
  rows : List (BitVec 64 × Object)
  low : ∀ r ∈ rows, r.1.setWidth 32 ≠ (0 : BitVec 32)

/-- A call of `Store::createVfsNode`. -/
structure NodeCall where
  type : BitVec 32
  name : Bytes
  parent : BitVec 64
  data : Object
  /-- `time(nullptr)`. -/
  time : BitVec 64
  /-- Whether the store answers the query, and makes the insertion. -/
  counts : Bool
  inserts : Bool

/-- The node that is looked for and inserted. -/
def NodeCall.node (c : NodeCall) : Object :=
  override c.data
    [(lit "type", .int32 c.type), (lit "parent", .int64 c.parent), (lit "status", .int32 0),
      (lit "time", .int64 c.time), (lit "name", Value.ofString c.name)]

namespace NodeStore

variable (p : Platform)

/-- `Action::prepareStmt`. -/
def prepare (text : Bytes) : Option Stmt :=
  ((parse (tokens text)).bind (Stmt.resolve (vfs.visible fun _ => none))).filter
    (VirtualTable.planned p)

/-- The object is one of `vfs`. -/
def ofVfs (obj : Object) : Bool :=
  decide (VirtualTable.typeOf p obj = some (VirtualTable.typeText p vfs))

/-- The nodes that the table lists. -/
def listed (s : NodeStore) : List (BitVec 32 × Object) :=
  Rows.scan s.rows (fun obj => if ofVfs p obj then some obj else none)

/-- The row for an id, of whatever table it is. -/
def rowOf (s : NodeStore) (id : BitVec 32) : Option (BitVec 64 × Row) :=
  (Rows.record s.rows id).map (fun obj => (id.setWidth 64, VirtualTable.xColumn obj))

/-- The ids that a scan goes through: the one it asks for, or all of the table. -/
def scanIds (s : NodeStore) (scan : Scan) : List (BitVec 32) :=
  match VirtualTable.pickedBy scan with
  | some c => [(p.value_int64 c.rhs).setWidth 32]
  | none => (s.listed p).map (·.1)

/-- The rows that a statement goes through. -/
def selected (s : NodeStore) (cond : Option Cond) (vals : List Val) : List (BitVec 64 × Row) :=
  (gather ((p.plan cond vals).map (fun scan => (s.scanIds p scan).filterMap s.rowOf))).filter
    (fun r => VirtualTable.meets p vfs cond vals r.1 r.2)

/-- `Store::count`. -/
def count (s : NodeStore) (works : Bool) (where_ : Object) : BitVec 32 :=
  match if works then prepare p (CountAction.sql vfs.name where_).1 else none with
  | none => -1
  | some stmt =>
      match VirtualTable.paramVals p (CountAction.sql vfs.name where_).2 with
      | none => -1
      | some vals => BitVec.ofNat 32 (s.selected p (VirtualTable.condOf stmt) vals).length

/-- The object that `xUpdate` makes for `Store::insert`, if it comes to that. -/
def inserted (obj : Object) : Option Object :=
  match prepare p (InsertAction.sql vfs.name obj).1 with
  | some (.insert _ columns) =>
      (VirtualTable.paramVals p (InsertAction.sql vfs.name obj).2).map (fun vals =>
        VirtualTable.insertedObject p vfs (Row.fill (fun _ => .null) (assignmentsOf columns vals)))
  | _ => none

/-- A row that `createBlob` makes. -/
def append (s : NodeStore) (id : BitVec 64) (obj : Object)
    (h : Rows.newId p.sqlite s.rows = some id) : NodeStore where
  rows := s.rows ++ [(id, obj)]
  low := by
    intro r hr
    rcases List.mem_append.mp hr with hold | hnew
    · exact s.low r hold
    · rw [List.mem_singleton.mp hnew]
      exact (Rows.newId_spec h).2.1

/-- `Store::insert`. -/
def insert (s : NodeStore) (works : Bool) (obj : Object) : BitVec 64 × NodeStore :=
  match if works then inserted p obj else none with
  | none => (0, s)
  | some obj =>
      match h : Rows.newId p.sqlite s.rows with
      | none => (0, s)
      | some id => (id, s.append p id obj h)

/-- `Store::createVfsNode`. -/
def createVfsNode (s : NodeStore) (c : NodeCall) : BitVec 64 × NodeStore :=
  if 0 < (s.count p c.counts c.node).toNat then (0, s) else s.insert p c.inserts c.node

/-- A run is a sequence of such calls. -/
def step (s : NodeStore) (c : NodeCall) : Option NodeStore := some (s.createVfsNode p c).2

end NodeStore

end Zway.Client
