import Zway.Crypto.Aes
import Zway.Store.ActionProof

/-!
# Blobs

`Blob` and the functions of `Store` that create, update and read the rows of a blob
table: `id`, `mode`, `size`, `salt`, `data`. The data of a row whose mode is set are
enciphered with the key of the store and the salt of the row.

A blob table is an ordinary table, so the branches of `Store::insert`, `Store::update`
and `Store::remove` for virtual tables are not taken here.
-/

namespace Zway.Ubj.Store

open Sql

/-- The bytes `Random::random` puts at the beginning of a salt. -/
abbrev SaltBytes := { bytes : Bytes // bytes.length = 12 }

/-- A salt: twelve random bytes and a counter that starts at zero. -/
def newSalt (random : SaltBytes) : MemoryBuffer := (MemoryBuffer.create 16).blit random.1 0

/-- `Value(data->size())`. -/
def sizeValue (data : MemoryBuffer) : Value := .int32 (BitVec.ofNat 32 data.size)

/-! ## Statements -/

section

variable (sqlite : Behaviour) (behind : BitVec 32)

/-- `Action::prepareStmt` and `Action::step`. -/
def runAction (vtab : Bool) (db : Db) (sql : Part) : Option Outcome × Db :=
  match db.prepare sql.1 with
  | (some stmt, db) => db.step sqlite stmt (bindUbjToStmt behind sqlite vtab sql.2)
  | (none, db) => (none, db)

/-- `Store::insert`. The result is zero if it fails. -/
def insert (db : Db) (table : Bytes) (obj : Object) : BitVec 64 × Db :=
  match runAction sqlite behind false db (InsertAction.sql table obj) with
  | (some o, db) => (o.lastRowid, db)
  | (none, db) => (0, db)

/-- `Store::update`. The result is `-1` if it fails. -/
def update (db : Db) (table : Bytes) (obj query : Object) : BitVec 32 × Db :=
  match runAction sqlite behind false db (UpdateAction.sql table obj query) with
  | (some o, db) => (BitVec.ofNat 32 o.changes, db)
  | (none, db) => (-1, db)

/-- `Store::remove`. -/
def remove (db : Db) (table : Bytes) (query : Object) : BitVec 32 × Db :=
  match runAction sqlite behind false db (RemoveAction.sql table query) with
  | (some o, db) => (BitVec.ofNat 32 o.changes, db)
  | (none, db) => (0, db)

/-- `Store::getBlobInfo`. -/
def getBlobInfo (db : Db) (table : Bytes) (id : BitVec 64) : Option Object × Db :=
  match runAction sqlite behind false db
    (QueryAction.sql table [(lit "rowid", .int64 id)] []
      [lit "mode", lit "size", lit "salt"] 0 0) with
  | (some o, db) => (o.rows.head?.map rowToUbj, db)
  | (none, db) => (none, db)

/-- `Store::removeBlob`. -/
def removeBlob (db : Db) (table : Bytes) (id : BitVec 64) : Bool × Db :=
  let res := remove sqlite behind db table [(lit "rowid", .int64 id)]
  (res.1 != 0, res.2)

end

/-! ## Incremental I/O -/

/-- `Store::Blob`, once it is open. -/
structure Blob where
  table : Bytes
  id : BitVec 64
  mode : Bool
  size : UInt32
  salt : Option MemoryBuffer
  aes : AES

section

variable (sqlite : Behaviour) (behind : BitVec 32) (aes_encrypt : Bytes → Bytes → Bytes)
  (key : MemoryBuffer)

/-- The end of `Blob::open`. -/
def Blob.opened (table : Bytes) (id : BitVec 64) (mode : Bool) (size : UInt32)
    (salt : Option MemoryBuffer) : Blob where
  table := table
  id := id
  mode := mode
  size := size
  salt := salt
  aes := (AES.new.setCtr salt).setKey (some key)

/-- `Store::openBlob`, and `Blob::open` with its `meta`. -/
def openBlob (db : Db) (table : Bytes) (id : BitVec 64) : Option Blob × Db :=
  match getBlobInfo sqlite behind db table id with
  | (none, db) => (none, db)
  | (some info, db) =>
      match db.blobOpen table (lit "data") id with
      | (false, db) => (none, db)
      | (true, db) =>
          (some (Blob.opened key table id
            ((field info (lit "mode")).toInt != 0)
            (UInt32.ofBitVec (field info (lit "size")).toInt)
            ((buffer (field info (lit "salt"))).map MemoryBuffer.ofData)), db)

/-- `Blob::read`: whether it succeeds, and what is then at `data`. -/
def Blob.read (b : Blob) (db : Db) (size offset : UInt32) : (Bool × Bytes) × Blob × Db :=
  match db.blobRead b.table (lit "data") b.id size offset with
  | (none, db) => ((false, []), b, db)
  | (some data, db) =>
      if b.mode then
        let d := b.aes.decrypt aes_encrypt AES.noCallback data size ()
        ((d.1, overwrite data 0 d.2.2.1), { b with aes := d.2.1 }, db)
      else ((true, data), b, db)

/-- The callback in `Blob::write`. -/
def Blob.writeChunk (b : Blob) (offset : UInt32) (encryptedData : Bytes)
    (bytesEncrypted bytesEncryptedTotal _bytesToEncrypt : UInt32) (db : Db) : Bool × Db :=
  db.blobWrite b.table (lit "data") b.id (encryptedData.take bytesEncrypted.toNat)
    (offset + bytesEncryptedTotal - bytesEncrypted)

/-- `Blob::write`. -/
def Blob.write (b : Blob) (db : Db) (data : Bytes) (size offset : UInt32) : Bool × Blob × Db :=
  if b.mode then
    let e := b.aes.encrypt aes_encrypt (b.writeChunk offset) data size db
    (e.1, { b with aes := e.2.1 }, e.2.2.2)
  else
    let w := db.blobWrite b.table (lit "data") b.id (data.take size.toNat) offset
    (w.1, b, w.2)

/-! ## `Store` -/

/-- `Store::getBlobData`. -/
def getBlobData (db : Db) (table : Bytes) (id : BitVec 64) : Option MemoryBuffer × Db :=
  match openBlob sqlite behind key db table id with
  | (none, db) => (none, db)
  | (some blob, db) =>
      let r := blob.read aes_encrypt db blob.size 0
      (some ((MemoryBuffer.create blob.size).blit r.1.2 0), r.2.2)

/-- `Store::writeBlob`, with the callback of `Store::updateBlobData`. -/
def writeBlob (db : Db) (table : Bytes) (id : BitVec 64) (data : MemoryBuffer) : Db :=
  match openBlob sqlite behind key db table id with
  | (none, db) => db
  | (some blob, db) => (blob.write aes_encrypt db data.data (UInt32.ofNat data.size) 0).2.2

/-- What `Store::updateBlobData` changes in the row of an encrypted blob. -/
def encryptedRec (data salt : MemoryBuffer) : Object :=
  OrdMap.insert (lit "salt") (.buffer salt.data)
    (OrdMap.insert (lit "data") (.object [(lit "$zeroBlob", sizeValue data)])
      (OrdMap.insert (lit "size") (sizeValue data)
        (OrdMap.insert (lit "mode") (.bool true) [])))

/-- What it changes in the row of a plain one. -/
def plainRec (data : MemoryBuffer) : Object :=
  OrdMap.insert (lit "salt") (.object [(lit "$bindNull", .int32 1)])
    (OrdMap.insert (lit "data") (.buffer data.data)
      (OrdMap.insert (lit "size") (sizeValue data)
        (OrdMap.insert (lit "mode") (.bool false) [])))

/-- `Store::updateBlobData`, given what comes of `Random::random`. The id is returned as a
`uint32_t`. -/
def updateBlobData (random : Option SaltBytes) (db : Db) (table : Bytes) (id : BitVec 64)
    (data : Option MemoryBuffer) (encrypt : Bool) : BitVec 32 × Db :=
  match data with
  | none => (0, db)
  | some data =>
      if encrypt then
        match random with
        | none => (0, db)
        | some random =>
            let u := update sqlite behind db table (encryptedRec data (newSalt random))
              [(lit "rowid", .int64 id)]
            (id.setWidth 32, writeBlob sqlite behind aes_encrypt key u.2 table id data)
      else
        let u := update sqlite behind db table (plainRec data) [(lit "rowid", .int64 id)]
        (id.setWidth 32, u.2)

/-- What `Store::createBlob` inserts. -/
def createRec (data : Option MemoryBuffer) (encrypt : Bool) : Object :=
  match data with
  | none => OrdMap.insert (lit "mode") (.bool encrypt) []
  | some data =>
      let obj := OrdMap.insert (lit "size") (sizeValue data)
        (OrdMap.insert (lit "mode") (.bool encrypt) [])
      if encrypt then obj else OrdMap.insert (lit "data") (.buffer data.data) obj

/-- `Store::createBlob` with data. The result is zero if it fails. -/
def createBlob (random : Option SaltBytes) (db : Db) (table : Bytes) (data : Option MemoryBuffer)
    (encrypt : Bool) : BitVec 64 × Db :=
  let i := insert sqlite behind db table (createRec data encrypt)
  if i.1 = 0 then (0, i.2)
  else if data.isSome ∧ encrypt = true then
    let u := updateBlobData sqlite behind aes_encrypt key random i.2 table i.1 data encrypt
    if u.1 = 0 then (0, (removeBlob sqlite behind u.2 table i.1).2) else (i.1, u.2)
  else i

end

end Zway.Ubj.Store
