import Zway.Lib.OrdMap
import Zway.Lib.Run

/-!
# Resources, messages and files

The rows of the virtual tables all lie in `blob2`, and are told apart by their `_$type`. A
condition on a rowid looks a row up by the low 32 bits of the id, whatever table it is of; a
condition on another column goes through the ids of the table. The contents of resources and
files lie in `blob3`; a row has the id of its blob in `data`, and several rows may have one.

Every operation of the store is taken to succeed.
-/

namespace Zway.Client

/-! ## Rows -/

/-- The tables that are looked into here. -/
inductive FileTable where
  | messages
  | resources
  | histories
  | vfs
  | other
  deriving Repr, DecidableEq

/-- The columns that are looked at here. -/
inductive FileColumn where
  | id
  | type
  | parent
  | request
  | history
  | data
  deriving Repr, DecidableEq

structure FileRow where
  /-- `_$type`. -/
  table : FileTable
  value : FileColumn → Option (BitVec 64)

/-- `Value::toInt` of a column. -/
def FileRow.toInt (row : FileRow) (c : FileColumn) : BitVec 32 := ((row.value c).getD 0).setWidth 32

/-- The conditions that are used. -/
inductive FileWhere where
  | rowid (v : BitVec 64)
  | column (c : FileColumn) (v : BitVec 64)

/-- `Value(uint32_t)`, as it is bound to a parameter. -/
def uint32Value (v : BitVec 32) : BitVec 64 := v.signExtend 64

@[ext]
structure FileStore where
  /-- `blob2`, with the rowids. -/
  rows : List (BitVec 64 × FileRow)
  nodup : (rows.map (·.1)).Nodup
  /-- The rowids of `blob3`. -/
  blobs : List (BitVec 64)

namespace FileStore

/-- `Store::getBlobData` of `blob2` with a `uint32_t`. -/
def record (s : FileStore) (id : BitVec 32) : Option FileRow := OrdMap.find? s.rows (id.setWidth 64)

/-- `VirtualTableModule::addIndexItem`. -/
def addIndexItem (ids : List (BitVec 32)) (id : BitVec 32) : List (BitVec 32) :=
  if id ∈ ids then ids else ids ++ [id]

/-- `m_ids` after `VirtualTableModule::updateIds`. -/
def ids (s : FileStore) (t : FileTable) : List (BitVec 32) :=
  ((s.rows.map (·.1.setWidth 32)).filter (fun id => (s.record id).any (·.table = t))).foldl
    addIndexItem []

/-- What a query reports, with the rowids. -/
def scan (s : FileStore) (t : FileTable) : FileWhere → List (BitVec 32 × FileRow)
  | .rowid v =>
      match s.record (v.setWidth 32) with
      | some row => if (v.setWidth 32).setWidth 64 = v then [(v.setWidth 32, row)] else []
      | none => []
  | .column c v =>
      (s.ids t).filterMap (fun id =>
        (s.record id).bind (fun row => if row.value c = some v then some (id, row) else none))

/-- `Store::query` of one row. -/
def query (s : FileStore) (t : FileTable) (w : FileWhere) : Option FileRow :=
  ((s.scan t w).head?).map (·.2)

/-- `Store::count`. -/
def count (s : FileStore) (t : FileTable) (w : FileWhere) : Nat := (s.scan t w).length

theorem nodup_filter {α β : Type} {l : List (α × β)} (h : (l.map (·.1)).Nodup) (p : α × β → Bool) :
    ((l.filter p).map (·.1)).Nodup :=
  h.sublist (List.filter_sublist.map _)

/-- `Store::remove`, and how many rows it has found. -/
def remove (s : FileStore) (t : FileTable) (w : FileWhere) : Nat × FileStore :=
  let rowIds := (s.scan t w).map (fun r => r.1.setWidth 64)
  (rowIds.length,
    { s with
      rows := s.rows.filter (fun r => r.1 ∉ rowIds)
      nodup := nodup_filter s.nodup _ })

/-- `Store::removeBlob` of `blob3`. -/
def removeBlob (s : FileStore) (id : BitVec 64) : Bool × FileStore :=
  (decide (id ∈ s.blobs), { s with blobs := s.blobs.filter (· ≠ id) })

/-! ## Deleting -/

/-- `Store::deleteResource`. -/
def deleteResource (s : FileStore) (id : BitVec 32) : Bool × FileStore :=
  match s.query .resources (.column .id (uint32Value id)) with
  | none => (false, s)
  | some row =>
      let blobId := row.toInt .data
      let b :=
        if blobId ≠ 0 ∧ s.count .vfs (.column .data (uint32Value blobId)) = 0 then
          s.removeBlob (blobId.setWidth 64)
        else (true, s)
      if b.1 then
        let r := b.2.remove .resources (.column .id (uint32Value id))
        (r.1 != 0, r.2)
      else (false, b.2)

/-- `Store::deleteMessage`. What `deleteResource` returns is not looked at. -/
def deleteMessage (s : FileStore) (id : BitVec 32) : Bool × FileStore :=
  match s.query .messages (.column .id (uint32Value id)) with
  | none => (false, s)
  | some _ =>
      let resources := (s.scan .resources (.column .request (uint32Value id))).map (·.2.toInt .id)
      let s := resources.foldl (fun s id => (s.deleteResource id).2) s
      let r := s.remove .messages (.column .id (uint32Value id))
      (r.1 != 0, r.2)

/-- `Store::deleteHistory`. What `deleteMessage` returns is not looked at. -/
def deleteHistory (s : FileStore) (history : BitVec 64) : Bool × FileStore :=
  match s.query .histories (.rowid history) with
  | none => (false, s)
  | some _ =>
      let messages := (s.scan .messages (.column .history history)).map (·.2.toInt .id)
      let s := messages.foldl (fun s id => (s.deleteMessage id).2) s
      let r := s.remove .histories (.rowid history)
      (r.1 != 0, r.2)

def Directory : BitVec 32 := 1

def File : BitVec 32 := 2

/-- The loop over the children in `Store::deleteVfsNode`, which stops at a failure. -/
def deleteChildren (deleteNode : FileStore → BitVec 64 → Option (Bool × FileStore)) :
    FileStore → List (BitVec 64) → Option (Bool × FileStore)
  | s, [] => some (true, s)
  | s, child :: rest =>
      match deleteNode s child with
      | some (true, s) => deleteChildren deleteNode s rest
      | r => r

/-- The end of `Store::deleteVfsNode` for a file. -/
def deleteFile (s : FileStore) (id : BitVec 64) (node : FileRow) : Bool × FileStore :=
  let blobId := node.toInt .data
  let r := s.remove .vfs (.rowid id)
  if r.1 = 0 then (false, r.2)
  else if blobId ≠ 0 ∧ r.2.count .vfs (.column .data (uint32Value blobId)) = 0
      ∧ r.2.count .resources (.column .data (uint32Value blobId)) = 0 then
    r.2.removeBlob (blobId.setWidth 64)
  else (true, r.2)

/-- `Store::deleteVfsNode`, to a depth. Directories that contain each other are never deleted. -/
def deleteVfsNode : Nat → FileStore → BitVec 64 → Bool → Option (Bool × FileStore)
  | 0, _, _, _ => none
  | depth + 1, s, id, recursive =>
      match s.query .vfs (.rowid id) with
      | none => some (false, s)
      | some node =>
          if node.toInt .type = Directory then
            let children :=
              if recursive then
                (s.scan .vfs (.column .parent id)).map (fun r => r.1.signExtend 64)
              else []
            match deleteChildren (fun s id => deleteVfsNode depth s id true) s children with
            | some (true, s) =>
                let r := s.remove .vfs (.rowid id)
                some (r.1 != 0, r.2)
            | r => r
          else if node.toInt .type = File then some (s.deleteFile id node)
          else some (false, s)

end FileStore

/-- The calls that delete something. -/
inductive FileCall where
  | deleteResource (id : BitVec 32)
  | deleteMessage (id : BitVec 32)
  | deleteHistory (history : BitVec 64)
  | deleteVfsNode (id : BitVec 64) (recursive : Bool)

/-- The store after a call, if it comes to an end at this depth. -/
def FileStore.step (depth : Nat) (s : FileStore) : FileCall → Option FileStore
  | .deleteResource id => some (s.deleteResource id).2
  | .deleteMessage id => some (s.deleteMessage id).2
  | .deleteHistory history => some (s.deleteHistory history).2
  | .deleteVfsNode id recursive => (deleteVfsNode depth s id recursive).map (·.2)

end Zway.Client
