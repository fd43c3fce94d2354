import Zway.Store.BlobRoundTrip
import Zway.Store.VirtualScan
import Zway.Ubj.RoundTrip

/-!
# `Store::init` and `Store::open`

A store has a random key. Its file has that key and the key that is derived from the
password, both enciphered with the derived one by one context, in the second blob of
`__main`.

Neither of the two functions depends on a handler: with one, an action is executed by
another thread before `processAction` returns.
-/

namespace Zway.Ubj.Store

open Sql

/-- So many bytes. -/
abbrev BytesOf (n : Nat) := { bytes : Bytes // bytes.length = n }

/-- A buffer with these bytes. -/
def BytesOf.buffer {n : Nat} (bytes : BytesOf n) : MemoryBuffer := MemoryBuffer.ofData bytes.1

/-! ## Steps -/

/-- One after the other, until one fails. -/
def steps : List (Db → Bool × Db) → Db → Bool × Db
  | [], db => (true, db)
  | step :: rest, db =>
      match step db with
      | (true, db) => steps rest db
      | (false, db) => (false, db)

/-- `Store::createBlobTable`. -/
def createBlobTable (name : Bytes) (db : Db) : Bool × Db :=
  if db.ok && isName name then
    (true, db.called (Function.update db.tables name (some ((db.tables name).getD
      ⟨lit "id", [lit "mode", lit "size", lit "salt", lit "data"], []⟩))))
  else (false, db.called db.tables)

/-- `Store::createInternalBlobTables`. -/
def createInternalBlobTables : Db → Bool × Db :=
  steps [createBlobTable (lit "__main"), createBlobTable (lit "__indexes")]

/-- `Store::createBlob` with an object, in `__main` and not encrypted. -/
def createMainBlob (p : Platform) (obj : Object) (db : Db) : Bool × Db :=
  let b := createBlob p.sqlite p.behind p.aes_encrypt p.key none db (lit "__main")
    (some (MemoryBuffer.ofData (Writer.write (.object obj)))) false
  (b.1 != 0, b.2)

/-! ## The keys -/

section

variable (aes_encrypt : Bytes → Bytes → Bytes)

/-- The context that both functions start with. -/
def keyAes (pwd : MemoryBuffer) : AES := (AES.new.setCtr (some (MemoryBuffer.create 16))).setKey (some pwd)

/-- How `Store::init` enciphers the key, and then the derived key in place. -/
def encryptKeys (pwd key : MemoryBuffer) : MemoryBuffer × MemoryBuffer :=
  let e := (keyAes pwd).encrypt aes_encrypt AES.noCallback key.data 32 ()
  let e' := e.2.1.encrypt aes_encrypt AES.noCallback pwd.data 32 ()
  ((MemoryBuffer.create 32).blit e.2.2.1 0, pwd.blit e'.2.2.1 0)

/-- How `Store::open` deciphers both, in copies and in place. -/
def decryptKeys (pwd : MemoryBuffer) (key tmp : Bytes) : MemoryBuffer × MemoryBuffer :=
  let d := (keyAes pwd).decrypt aes_encrypt AES.noCallback key 32 ()
  let d' := d.2.1.decrypt aes_encrypt AES.noCallback tmp 32 ()
  ((MemoryBuffer.ofData key).blit d.2.2.1 0, (MemoryBuffer.ofData tmp).blit d'.2.2.1 0)

end

/-- `Value::bufferSize`. -/
def bufferSize : Value → Nat
  | .buffer data => data.length
  | _ => 0

/-- `UBJ_OBJ("salt" << salt << "key" << key << "pwd" << pwd)` -/
def rootData (salt key pwd : MemoryBuffer) : Object :=
  OrdMap.insert (lit "pwd") (.buffer pwd.data)
    (OrdMap.insert (lit "key") (.buffer key.data)
      (OrdMap.insert (lit "salt") (.buffer salt.data) []))

/-- `Store::RootNodeId` -/
def RootNodeId : BitVec 64 := 2

/-! ## `Store` -/

/-- A file, if it exists, and how the calls of SQLite that are to come will end. -/
structure Disk where
  file : Option Tables
  succeeds : Nat → Bool
  calls : Nat

/-- `sqlite3_open_v2`, with `SQLITE_OPEN_CREATE` or without it. -/
def Disk.openDb (disk : Disk) (create : Bool) : Option Db :=
  if disk.succeeds disk.calls then
    match disk.file with
    | some tables => some ⟨tables, disk.succeeds, disk.calls + 1⟩
    | none => if create then some ⟨fun _ => none, disk.succeeds, disk.calls + 1⟩ else none
  else none

/-- The file that a connection has to. -/
def Disk.of (db : Db) : Disk := ⟨some db.tables, db.succeeds, db.calls⟩

/-- What `Store` keeps: whether `m_db` is set, and `m_key`. -/
structure StoreState where
  db : Bool
  key : Option MemoryBuffer
  deriving DecidableEq

/-- The constructor. -/
def StoreState.new : StoreState where
  db := false
  key := none

/-- `Store::close`. -/
def StoreState.close (_ : StoreState) : StoreState where
  db := false
  key := none

/-- A virtual table: its blob table, and whether it is indexed. -/
structure VTab where
  blobTable : Bytes
  index : Bool
  isName : isName blobTable = true

/-- `VirtualTableModule::create`: `sqlite3_create_module`, and what is not indexed asks for the ids. -/
def createVTable (p : Platform) (vtab : VTab) (db : Db) : Bool × Db :=
  if db.ok then
    (true, if vtab.index then db.called db.tables
      else (p.getBlobIds (db.called db.tables) vtab.blobTable).2)
  else (false, db.called db.tables)

/-- `Store::createInternalVTables`. -/
def createInternalVTables (p : Platform) : Db → Bool × Db :=
  steps [createVTable p ⟨lit "__indexes", false, by decide⟩]

section

variable (p : Platform) (pbkdf2 : Bytes → Bytes → BytesOf 32)
  -- the tables that a subclass creates in `createBlobTables` and `createVTables`
  (blobTables : List Bytes) (vtabs : List VTab)

/-- What a subclass creates. -/
def createTables : List (Db → Bool × Db) :=
  blobTables.map createBlobTable ++ vtabs.map (createVTable p)

/-- `Store::init`, with what `Random::random` gives for the salt and for the key. -/
def init (password : Bytes) (salt : Option (BytesOf 16)) (key : Option (BytesOf 32)) (disk : Disk) :
    Bool × StoreState × Disk :=
  if disk.file.isSome then (false, .new, disk)
  else
    match disk.openDb true with
    | none => (false, { StoreState.new with db := true }, { disk with calls := disk.calls + 1 })
    | some db =>
        match steps [createInternalBlobTables, createInternalVTables p,
          createMainBlob p [(lit "version", .int32 1)]] db, salt, key with
        | (true, db), some salt, some key =>
            let pwd := (pbkdf2 password salt.1).buffer
            let e := encryptKeys p.aes_encrypt pwd key.buffer
            let store : StoreState := ⟨true, some key.buffer⟩
            match steps (createMainBlob p (rootData salt.buffer e.1 e.2)
              :: createTables p blobTables vtabs) db with
            | (true, db) => (true, store, Disk.of db)
            | (false, db) => (false, store.close, Disk.of db)
        | (_, db), _, _ => (false, StoreState.new.close, Disk.of db)

/-- The end of `Store::open`, with what it has read from the file. There is no result where it uses a
null pointer. -/
def unlock (password : Bytes) (root : Object) (db : Db) : Option (Bool × StoreState × Disk) :=
  if bufferSize (field root (lit "key")) = 0 ∨ bufferSize (field root (lit "pwd")) = 0 then
    some (false, StoreState.new.close, Disk.of db)
  else do
    let salt ← buffer (field root (lit "salt"))
    let key ← buffer (field root (lit "key"))
    let tmp ← buffer (field root (lit "pwd"))
    let pwd := (pbkdf2 password salt).buffer
    let d := decryptKeys p.aes_encrypt pwd key tmp
    if d.2.data.take 32 ≠ pwd.data then pure (false, StoreState.new.close, Disk.of db)
    else
      let store : StoreState := ⟨true, some d.1⟩
      match steps (createTables p blobTables vtabs) db with
      | (true, db) => pure (true, store, Disk.of db)
      | (false, db) => pure (false, store.close, Disk.of db)

/-- `Store::open`. -/
def openFile (password : Bytes) (disk : Disk) : Option (Bool × StoreState × Disk) :=
  match disk.openDb false with
  | none => some (false, { StoreState.new with db := true }, { disk with calls := disk.calls + 1 })
  | some db =>
      match steps [createInternalBlobTables, createInternalVTables p] db with
      | (false, db) => some (false, StoreState.new.close, Disk.of db)
      | (true, db) =>
          -- `m_key` is not set yet, so the context of the blob has the key it is made with
          match { p with key := MemoryBuffer.create 0 }.getBlobObject db (lit "__main") RootNodeId with
          | (none, db) => some (false, StoreState.new.close, Disk.of db)
          | (some root, db) => unlock p pbkdf2 blobTables vtabs password root db

end

/-! ## The keys come back -/

section

variable (aes_encrypt : Bytes → Bytes → Bytes)

theorem BytesOf.buffer_data {n : Nat} (hn : n < 2 ^ 32) (bytes : BytesOf n) :
    bytes.buffer.data = bytes.1 := MemoryBuffer.ofData_data (by rw [bytes.2]; exact hn)

theorem BytesOf.buffer_size {n : Nat} (hn : n < 2 ^ 32) (bytes : BytesOf n) :
    bytes.buffer.size = n := (congrArg List.length (bytes.buffer_data hn)).trans bytes.2

/-- Two texts of 32 bytes, one after the other with one context. -/
def cryptBoth (a : AES) (x y : Bytes) : Bytes × Bytes :=
  ((a.ctr_crypt aes_encrypt x).2, ((a.ctr_crypt aes_encrypt x).1.ctr_crypt aes_encrypt y).2)

theorem cryptBoth_cryptBoth (a : AES) (x y : Bytes) :
    cryptBoth aes_encrypt a (cryptBoth aes_encrypt a x y).1 (cryptBoth aes_encrypt a x y).2
      = (x, y) := by
  unfold cryptBoth
  dsimp only
  rw [AES.ctr_crypt_ctr_crypt]
  dsimp only
  rw [AES.ctr_crypt_ctr_crypt]

theorem cryptBoth_length (a : AES) (x y : Bytes) :
    (cryptBoth aes_encrypt a x y).1.length = x.length
      ∧ (cryptBoth aes_encrypt a x y).2.length = y.length :=
  ⟨Ctr.crypt_length .., Ctr.crypt_length ..⟩

theorem keyAes_ctr (pwd : MemoryBuffer) : (keyAes pwd).ctr.length = 16 := rfl

/-- What both functions compute. -/
theorem crypt_both {a : AES} (ha : a.ctr.length = 16) {x y : Bytes} (hx : x.length = 32)
    (hy : y.length = 32) :
    let e := a.encrypt aes_encrypt AES.noCallback x 32 ()
    (e.2.2.1, (e.2.1.encrypt aes_encrypt AES.noCallback y 32 ()).2.2.1)
      = cryptBoth aes_encrypt a x y := by
  have hx' : (32 : UInt32).toNat ≤ x.length := Nat.le_of_eq hx.symm
  have hy' : (32 : UInt32).toNat ≤ y.length := Nat.le_of_eq hy.symm
  have ha' : (a.ctr_crypt aes_encrypt x).1.ctr.length = 16 :=
    Ctr.crypt_ctr_length (aes_encrypt a.key) a.ctr x
  have hxall : x.take (32 : UInt32).toNat = x := List.take_of_length_le (Nat.le_of_eq hx)
  have hyall : y.take (32 : UInt32).toNat = y := List.take_of_length_le (Nat.le_of_eq hy)
  dsimp only
  rw [AES.encrypt_noCallback aes_encrypt hx' ha, hxall]
  dsimp only
  rw [AES.encrypt_noCallback aes_encrypt hy' ha', hyall]
  rfl

/-- A buffer that is filled again. -/
theorem blit_data {b : MemoryBuffer} {bs : Bytes} (h : bs.length = b.size) : (b.blit bs 0).data = bs :=
  overwrite_all h

theorem encryptKeys_data {pwd key : MemoryBuffer} (hpwd : pwd.size = 32) (hkey : key.size = 32) :
    ((encryptKeys aes_encrypt pwd key).1.data, (encryptKeys aes_encrypt pwd key).2.data)
      = cryptBoth aes_encrypt (keyAes pwd) key.data pwd.data := by
  have hboth := crypt_both aes_encrypt (keyAes_ctr pwd) hkey hpwd
  have hlen := cryptBoth_length aes_encrypt (keyAes pwd) key.data pwd.data
  rw [← hboth] at hlen ⊢
  exact Prod.ext (blit_data (hlen.1.trans hkey)) (blit_data hlen.2)

theorem encryptKeys_size {pwd key : MemoryBuffer} (hpwd : pwd.size = 32) (hkey : key.size = 32) :
    (encryptKeys aes_encrypt pwd key).1.size = 32 ∧ (encryptKeys aes_encrypt pwd key).2.size = 32 := by
  have hlen := cryptBoth_length aes_encrypt (keyAes pwd) key.data pwd.data
  rw [← encryptKeys_data aes_encrypt hpwd hkey] at hlen
  exact ⟨hlen.1.trans hkey, hlen.2.trans hpwd⟩

theorem decryptKeys_data (pwd : MemoryBuffer) {key tmp : Bytes} (hkey : key.length = 32)
    (htmp : tmp.length = 32) :
    ((decryptKeys aes_encrypt pwd key tmp).1.data, (decryptKeys aes_encrypt pwd key tmp).2.data)
      = cryptBoth aes_encrypt (keyAes pwd) key tmp := by
  have hboth := crypt_both aes_encrypt (keyAes_ctr pwd) hkey htmp
  have hlen := cryptBoth_length aes_encrypt (keyAes pwd) key tmp
  have hsize : ∀ {bs : Bytes}, bs.length = 32 → bs.length = (MemoryBuffer.ofData bs).size := by
    intro bs hbs
    show bs.length = (MemoryBuffer.ofData bs).data.length
    rw [MemoryBuffer.ofData_data (by omega)]
  rw [← hboth] at hlen ⊢
  exact Prod.ext (blit_data (hlen.1.trans (hsize hkey))) (blit_data (hlen.2.trans (hsize htmp)))

/-- **What is enciphered is deciphered**, by the password it was enciphered with. -/
theorem decryptKeys_encryptKeys {pwd key : MemoryBuffer} (hpwd : pwd.size = 32)
    (hkey : key.size = 32) :
    decryptKeys aes_encrypt pwd (encryptKeys aes_encrypt pwd key).1.data
      (encryptKeys aes_encrypt pwd key).2.data = (key, pwd) := by
  have henc := encryptKeys_data aes_encrypt hpwd hkey
  have hsize := encryptKeys_size aes_encrypt hpwd hkey
  have hdec := decryptKeys_data aes_encrypt pwd hsize.1 hsize.2
  have hback := cryptBoth_cryptBoth aes_encrypt (keyAes pwd) key.data pwd.data
  rw [← henc] at hback
  rw [hback] at hdec
  exact Prod.ext (MemoryBuffer.ext (congrArg Prod.fst hdec)) (MemoryBuffer.ext (congrArg Prod.snd hdec))

end

/-! ## What the steps leave alone -/

/-- `db'` has the tables of `db`. -/
structure Kept (db db' : Db) : Prop where
  succeeds : db'.succeeds = db.succeeds
  tables : ∀ table t, db.tables table = some t → db'.tables table = some t

theorem Kept.trans {db db' db'' : Db} (h : Kept db db') (h' : Kept db' db'') : Kept db db'' where
  succeeds := h'.succeeds.trans h.succeeds
  tables := fun table t ht => h'.tables table t (h.tables table t ht)

/-- `db'` has no other tables than `db`. -/
structure Same (db db' : Db) : Prop where
  succeeds : db'.succeeds = db.succeeds
  tables : db'.tables = db.tables

theorem Same.trans {db db' db'' : Db} (h : Same db db') (h' : Same db' db'') : Same db db'' where
  succeeds := h'.succeeds.trans h.succeeds
  tables := h'.tables.trans h.tables

theorem Same.kept {db db' : Db} (h : Same db db') : Kept db db' where
  succeeds := h.succeeds
  tables := fun table _ ht => (congrFun h.tables table).trans ht

/-- A step that does what it should as long as the calls succeed, or never does. -/
def Creates (step : Db → Bool × Db) (ok : Bool) : Prop :=
  ∀ db, (∀ n, db.succeeds n = true) → (step db).1 = ok ∧ Kept db (step db).2

theorem creates_createBlobTable (name : Bytes) : Creates (createBlobTable name) (isName name) := by
  intro db hok
  have hcalled : Kept db (db.called db.tables) := ⟨rfl, fun _ _ ht => ht⟩
  unfold createBlobTable
  rw [show db.ok = true from hok _, Bool.true_and]
  cases isName name with
  | false => exact ⟨rfl, hcalled⟩
  | true =>
    refine ⟨rfl, rfl, fun table t ht => ?_⟩
    by_cases htable : table = name
    · subst htable
      show Function.update db.tables table _ table = some t
      rw [Function.update_self, ht]
      rfl
    · exact (Function.update_of_ne htable ..).trans ht

/-- A selection changes no table. -/
theorem step_select_same (sqlite : Behaviour) (db : Db) (columns : List Bytes) (table : Bytes)
    (cond : Option Cond) (params : List Param) :
    Same db (db.step sqlite (.select columns table cond) params).2 := by
  unfold Db.step
  cases hexec : (if db.ok then (params.mapM (Param.val sqlite)).bind
      (exec sqlite db.tables (.select columns table cond)) else none) with
  | none => exact ⟨rfl, rfl⟩
  | some o =>
    have hsome : (params.mapM (Param.val sqlite)).bind
        (exec sqlite db.tables (.select columns table cond)) = some o := by
      by_cases hok : db.ok = true
      · rwa [if_pos hok] at hexec
      · rw [if_neg hok] at hexec
        cases hexec
    obtain ⟨vals, -, hrun⟩ := Option.bind_eq_some_iff.mp hsome
    obtain ⟨t, -, rfl⟩ := Option.map_eq_some_iff.mp hrun
    exact ⟨rfl, rfl⟩

/-- Nor does asking for the ids. -/
theorem getBlobIds_same (p : Platform) {table : Bytes} (hname : isName table = true) (db : Db) :
    Same db (p.getBlobIds db table).2 := by
  have hnames : ∀ c ∈ [lit "id"], isName c = true := by decide
  have hwhere : parseWhere 0 (tokens (whereText [])) = some none := rfl
  have hparse := parse_query hname hnames (List.cons_ne_nil _ _) hwhere
  have hcalled : Same db (db.called db.tables) := ⟨rfl, rfl⟩
  have hrun : Same db (runAction p.sqlite p.behind false db
      (QueryAction.sql table [] [] [lit "id"] 0 0)).2 := by
    unfold runAction Db.prepare
    rw [show parse (tokens (QueryAction.sql table [] [] [lit "id"] 0 0).1) = _ from hparse]
    cases hstmt : (if db.ok then (some (Stmt.select [lit "id"] table none)).bind
        (Stmt.resolve db.tables) else none) with
    | none => exact hcalled
    | some stmt =>
      have hselect : ∃ columns cond, stmt = .select columns table cond := by
        by_cases hok : db.ok = true
        · rw [if_pos hok] at hstmt
          exact Stmt.resolve_select hstmt
        · rw [if_neg hok] at hstmt
          cases hstmt
      obtain ⟨columns, cond, rfl⟩ := hselect
      exact hcalled.trans (step_select_same p.sqlite _ _ _ _ _)
  unfold Platform.getBlobIds
  generalize runAction p.sqlite p.behind false db (QueryAction.sql table [] [] [lit "id"] 0 0) = r at hrun
  obtain ⟨_ | o, db'⟩ := r
  · exact hrun
  · exact hrun

/-- A virtual table has no rows of its own. -/
theorem createVTable_same (p : Platform) (vtab : VTab) (db : Db) :
    Same db (createVTable p vtab db).2 := by
  have hcalled : Same db (db.called db.tables) := ⟨rfl, rfl⟩
  unfold createVTable
  cases db.ok with
  | false => exact hcalled
  | true =>
    cases vtab.index with
    | true => exact hcalled
    | false => exact hcalled.trans (getBlobIds_same p vtab.isName _)

theorem creates_createVTable (p : Platform) (vtab : VTab) : Creates (createVTable p vtab) true := by
  intro db hok
  have hfirst : (createVTable p vtab db).1 = true := by
    unfold createVTable
    rw [if_pos (show db.ok = true from hok _)]
  exact ⟨hfirst, (createVTable_same p vtab db).kept⟩

theorem steps_createVTable_same (p : Platform) (vtabs : List VTab) : ∀ db,
    Same db (steps (vtabs.map (createVTable p)) db).2 := by
  induction vtabs with
  | nil => exact fun _ => ⟨rfl, rfl⟩
  | cons vtab vtabs ih =>
    intro db
    have hfirst := createVTable_same p vtab db
    rw [List.map_cons, steps]
    generalize createVTable p vtab db = r at hfirst
    obtain ⟨_ | _, db'⟩ := r
    · exact hfirst
    · exact hfirst.trans (ih db')

theorem createInternalVTables_same (p : Platform) (db : Db) :
    Same db (createInternalVTables p db).2 :=
  steps_createVTable_same p [⟨lit "__indexes", false, by decide⟩] db

theorem steps_cons {step : Db → Bool × Db} {rest : List (Db → Bool × Db)} {db : Db}
    (h : (step db).1 = true) : steps (step :: rest) db = steps rest (step db).2 := by
  rw [steps]
  generalize step db = r at h ⊢
  obtain ⟨_ | _, db'⟩ := r
  · cases h
  · rfl

theorem creates_nil : Creates (steps []) true := fun _ _ => ⟨rfl, rfl, fun _ _ ht => ht⟩

/-- Steps that do what they should do it together. -/
theorem Creates.cons {step : Db → Bool × Db} {rest : List (Db → Bool × Db)} {ok ok' : Bool}
    (h : Creates step ok) (h' : Creates (steps rest) ok') :
    Creates (steps (step :: rest)) (ok && ok') := by
  intro db hok
  obtain ⟨hfirst, hkept⟩ := h db hok
  rw [steps]
  generalize step db = r at hfirst hkept
  obtain ⟨b, db'⟩ := r
  obtain rfl : b = ok := hfirst
  cases b with
  | false => exact ⟨rfl, hkept⟩
  | true =>
    obtain ⟨hsecond, hkept'⟩ := h' db' (fun n => by rw [hkept.succeeds]; exact hok n)
    exact ⟨hsecond, hkept.trans hkept'⟩

/-- What a subclass creates can be created, or not, whatever is there. -/
theorem creates_createTables (p : Platform) (blobTables : List Bytes) (vtabs : List VTab) :
    Creates (steps (createTables p blobTables vtabs)) (blobTables.all isName) := by
  unfold createTables
  induction blobTables with
  | nil =>
    induction vtabs with
    | nil => exact creates_nil
    | cons vtab vtabs ih => exact (creates_createVTable p vtab).cons ih
  | cons name names ih => exact (creates_createBlobTable name).cons ih

theorem creates_internalBlobTables : Creates createInternalBlobTables true :=
  (creates_createBlobTable (lit "__main")).cons
    ((creates_createBlobTable (lit "__indexes")).cons creates_nil)

theorem creates_internalVTables (p : Platform) : Creates (createInternalVTables p) true :=
  (creates_createVTable p _).cons creates_nil

/-- In a new file there is nothing in `__main`. -/
theorem createInternalBlobTables_main {db : Db} (hok : ∀ n, db.succeeds n = true)
    (hnone : db.tables (lit "__main") = none) :
    (createInternalBlobTables db).2.tables (lit "__main")
      = some ⟨lit "id", [lit "mode", lit "size", lit "salt", lit "data"], []⟩ := by
  have hfirst : createBlobTable (lit "__main") db = (true, db.called (Function.update db.tables
      (lit "__main") (some ⟨lit "id", [lit "mode", lit "size", lit "salt", lit "data"], []⟩))) := by
    unfold createBlobTable
    rw [show db.ok = true from hok _, hnone]
    rfl
  have hkept := ((creates_createBlobTable (lit "__indexes")).cons creates_nil
    (db.called (Function.update db.tables (lit "__main")
      (some ⟨lit "id", [lit "mode", lit "size", lit "salt", lit "data"], []⟩))) hok).2
  unfold createInternalBlobTables
  rw [steps, hfirst]
  exact hkept.tables _ _ (Function.update_self (lit "__main") _ db.tables)

/-- A blob table that is created is not another one. -/
theorem createBlobTable_others {name table : Bytes} (hne : table ≠ name) (db : Db) :
    (createBlobTable name db).2.tables table = db.tables table := by
  unfold createBlobTable
  cases db.ok && isName name with
  | false => rfl
  | true => exact Function.update_of_ne hne ..

theorem createInternalBlobTables_others {table : Bytes} (hmain : table ≠ lit "__main")
    (hindexes : table ≠ lit "__indexes") {db : Db} :
    (createInternalBlobTables db).2.tables table = db.tables table := by
  have hfirst := createBlobTable_others hmain db
  unfold createInternalBlobTables
  rw [steps]
  generalize createBlobTable (lit "__main") db = r at hfirst
  obtain ⟨_ | _, db'⟩ := r
  · exact hfirst
  · have hsecond := createBlobTable_others hindexes db'
    dsimp only
    rw [steps]
    generalize createBlobTable (lit "__indexes") db' = r at hsecond
    obtain ⟨_ | _, db''⟩ := r
    · exact hsecond.trans hfirst
    · exact hsecond.trans hfirst

/-! ## The blobs in `__main` -/

/-- What `createMainBlob` does. -/
theorem createMainBlob_run (p : Platform) {db : Db} (hok : ∀ n, db.succeeds n = true) {t : Table}
    (ht : db.tables (lit "__main") = some t) (hkey : t.key = lit "id")
    (hcolumns : t.columns = [lit "mode", lit "size", lit "salt", lit "data"]) {obj : Object}
    (hpos : 0 < (Writer.write (.object obj)).length)
    (hmax : (Writer.write (.object obj)).length ≤ p.sqlite.maxLength) {id : BitVec 64}
    (hnew : p.sqlite.newRowid (t.rows.map (·.1)) = some id) (hid : id ≠ 0) :
    ∃ row, (createMainBlob p obj db).1 = true
      ∧ (createMainBlob p obj db).2.succeeds = db.succeeds
      ∧ (createMainBlob p obj db).2.tables (lit "__main") = some (t.append id row)
      ∧ (∀ table, table ≠ lit "__main" → (createMainBlob p obj db).2.tables table = db.tables table)
      ∧ ∀ key, readBack p.aes_encrypt key (some row) = some (Writer.write (.object obj)) := by
  have hlt := Nat.lt_of_le_of_lt hmax p.sqlite.maxLength_lt
  have hdata : (MemoryBuffer.ofData (Writer.write (.object obj))).data = Writer.write (.object obj) :=
    MemoryBuffer.ofData_data (by omega)
  have hsize : (MemoryBuffer.ofData (Writer.write (.object obj))).size
      = (Writer.write (.object obj)).length := congrArg List.length hdata
  have htable : HasBlobTable db (lit "__main") := ⟨by decide, t, ht, hkey, hcolumns⟩
  have hacts := acts_of_succeeds hok
  have hinsert := insert_run p.sqlite p.behind htable
    (createRec_ofBlobTable (MemoryBuffer.ofData (Writer.write (.object obj))) false)
    (List.cons_ne_nil _ _)
    (paramVals_createRec_plain p.sqlite p.behind (by rw [hsize]; exact hpos)) ht
  rw [if_pos hacts, hnew] at hinsert
  -- without a cipher the insertion is all there is
  unfold createMainBlob createBlob
  dsimp only at hinsert ⊢
  rw [hinsert]
  dsimp only
  rw [if_neg hid, if_neg (fun h => Bool.false_ne_true h.2)]
  refine ⟨_, bne_iff_ne.mpr hid, rfl, Function.update_self (lit "__main") _ db.tables,
    fun table htable => Function.update_of_ne htable .., fun key => ?_⟩
  rw [readBack_plain p.aes_encrypt key p.sqlite (by rw [hsize]; exact hmax) rfl rfl rfl, hdata]

/-! ## The documents -/

section

variable {salt key pwd : MemoryBuffer}

theorem rootData_eq : rootData salt key pwd = [(lit "key", .buffer key.data),
    (lit "pwd", .buffer pwd.data), (lit "salt", .buffer salt.data)] := rfl

theorem rootData_roundTrip (hsalt : salt.size = 16) (hkey : key.size = 32) (hpwd : pwd.size = 32) :
    RoundTrip (.object (rootData salt key pwd)) := by
  have hbuffer : ∀ {b : MemoryBuffer}, 0 < b.size → RoundTrip (.buffer b.data) :=
    fun hb => .buffer (List.ne_nil_of_length_pos hb)
  have hsorted : OrdMap.Sorted (rootData salt key pwd) :=
    ((OrdMap.Sorted.insert List.Pairwise.nil ..).insert ..).insert ..
  refine .object hsorted (.cons (by unfold Carried; decide) (hbuffer (by omega)) ?_)
  exact .cons (by unfold Carried; decide) (hbuffer (by omega))
    (.cons (by unfold Carried; decide) (hbuffer (by omega)) .nil)

theorem encode_rootData_length (hsalt : salt.size = 16) (hkey : key.size = 32) (hpwd : pwd.size = 32) :
    (encode (.object (rootData salt key pwd))).length = 118 := by
  have hbuffer : ∀ {b : MemoryBuffer}, 0 < b.size → b.size < 128 →
      (encode (.buffer b.data)).length = b.size + 6 := by
    intro b hb hlt
    unfold MemoryBuffer.size at hb hlt ⊢
    have hlen : (encodeLength b.data.length).length = 2 := by
      have hsmall : (BitVec.ofNat 64 b.data.length).toInt.natAbs < 0x80 := by
        rw [BitVec.toInt_eq_toNat_of_lt (by rw [BitVec.toNat_ofNat]; omega), BitVec.toNat_ofNat]
        omega
      unfold encodeLength encodeInteger
      rw [if_pos hsmall]
      rfl
    rw [encode, if_neg (show b.data.length ≠ 0 by omega)]
    simp only [List.length_append, List.length_cons, hlen]
    omega
  have hfields : ∀ (k : Bytes) (v : Value) (fs : Object), (encodeFields ((k, v) :: fs)).length
      = (encodeString k).length + (encode v).length + (encodeFields fs).length := by
    intro k v fs
    rw [encodeFields, List.length_append, List.length_append]
  have hbody : (encode (.object (rootData salt key pwd))).length
      = 4 + (encodeFields (rootData salt key pwd)).length := by
    rw [encode, encodeBody, rootData_eq, if_neg (by simp)]
    simp only [List.length_append, List.length_cons]
    rw [show (encodeLength _).length = 2 from rfl]
    omega
  rw [hbody, rootData_eq, hfields, hfields, hfields, hbuffer (by omega) (by omega),
    hbuffer (by omega) (by omega), hbuffer (by omega) (by omega), hsalt, hkey, hpwd]
  rfl

theorem write_rootData (hsalt : salt.size = 16) (hkey : key.size = 32) (hpwd : pwd.size = 32) :
    Writer.write (.object (rootData salt key pwd)) = encode (.object (rootData salt key pwd))
      ∧ (Writer.write (.object (rootData salt key pwd))).length = 118 := by
  have htrip := rootData_roundTrip hsalt hkey hpwd
  have hlen := encode_rootData_length hsalt hkey hpwd
  have hdepth : depth (.object (rootData salt key pwd)) = 2 := rfl
  have hcollect := collect_eq_encode htrip rfl (by
    rw [hdepth]
    decide)
  obtain ⟨hwrite, -⟩ := write_eq_encode htrip rfl (by rw [hdepth]; decide)
    (by rw [hcollect, hlen]; decide)
  exact ⟨hwrite, (congrArg List.length hwrite).trans hlen⟩

end

/-! ## A store is opened again -/

section

variable (p : Platform) (pbkdf2 : Bytes → Bytes → BytesOf 32) (blobTables : List Bytes)
  (vtabs : List VTab)

/-- The object in a blob that holds an encoding. -/
theorem readObject_encode {fields : Object} (hv : RoundTrip (.object fields))
    (hlen : (encode (.object fields)).length < 2 ^ 32) (hfuel : fuelOf (.object fields) ≤ p.fuel) :
    p.readObject (encode (.object fields)) = some fields := by
  have hread := read_encode hv rfl hlen p.env .null [] hfuel
  rw [List.append_nil] at hread
  unfold Platform.readObject Value.read
  rw [hread]
  rfl

/-- What `Store::init` leaves in the file. -/
structure Created (p : Platform) (pbkdf2 : Bytes → Bytes → BytesOf 32) (password : Bytes)
    (salt : BytesOf 16) (key : BytesOf 32) (db : Db) : Prop where
  succeeds : ∀ n, db.succeeds n = true
  blobTable : HasBlobTable db (lit "__main")
  root : ∀ key', readBack p.aes_encrypt key' (db.row (lit "__main") RootNodeId)
    = some (Writer.write (.object (rootData salt.buffer
      (encryptKeys p.aes_encrypt (pbkdf2 password salt.1).buffer key.buffer).1
      (encryptKeys p.aes_encrypt (pbkdf2 password salt.1).buffer key.buffer).2)))

omit blobTables vtabs in
theorem Created.kept {password : Bytes} {salt : BytesOf 16} {key : BytesOf 32} {db db' : Db}
    (h : Created p pbkdf2 password salt key db) (hkept : Kept db db') :
    Created p pbkdf2 password salt key db' := by
  obtain ⟨hname, t, ht, hkey, hcolumns⟩ := h.blobTable
  have hrow : db'.row (lit "__main") RootNodeId = db.row (lit "__main") RootNodeId := by
    unfold Db.row
    rw [hkept.tables _ t ht, ht]
  refine ⟨?_, ⟨hname, t, hkept.tables _ t ht, hkey, hcolumns⟩, ?_⟩
  · intro n
    rw [hkept.succeeds]
    exact h.succeeds n
  · rw [hrow]
    exact h.root

variable (hfirst : p.sqlite.newRowid [] = some 1) (hsecond : p.sqlite.newRowid [1] = some 2)
  (hmax : 118 ≤ p.sqlite.maxLength)
include hfirst hsecond hmax

omit blobTables vtabs pbkdf2 in
/-- The two blobs, in a file with an empty `__main`. -/
theorem createMainBlobs {db : Db} (hok : ∀ n, db.succeeds n = true)
    (hmain : db.tables (lit "__main")
      = some ⟨lit "id", [lit "mode", lit "size", lit "salt", lit "data"], []⟩)
    {salt key pwd : MemoryBuffer} (hsalt : salt.size = 16) (hkey : key.size = 32)
    (hpwd : pwd.size = 32) :
    ∃ db₁ db₂, createMainBlob p [(lit "version", .int32 1)] db = (true, db₁)
      ∧ createMainBlob p (rootData salt key pwd) db₁ = (true, db₂)
      ∧ (∀ n, db₂.succeeds n = true) ∧ HasBlobTable db₂ (lit "__main")
      ∧ (∀ table, table ≠ lit "__main" → db₂.tables table = db.tables table)
      ∧ ∀ key', readBack p.aes_encrypt key' (db₂.row (lit "__main") RootNodeId)
          = some (Writer.write (.object (rootData salt key pwd))) := by
  have hversion : (Writer.write (.object [(lit "version", .int32 1)])).length = 18 := by decide
  have hroot := (write_rootData hsalt hkey hpwd).2
  obtain ⟨row, hone, hsucceeds, htable, hothers, -⟩ := createMainBlob_run p hok hmain rfl rfl
    (by rw [hversion]; decide) (by rw [hversion]; omega) hfirst (by decide)
  have hok₁ := fun n => (congrFun hsucceeds n).trans (hok n)
  obtain ⟨row', htwo, hsucceeds', htable', hothers', hread⟩ := createMainBlob_run p hok₁ htable rfl rfl
    (by rw [hroot]; decide) (by rw [hroot]; exact hmax) hsecond (by decide)
  refine ⟨_, _, Prod.ext hone rfl, Prod.ext htwo rfl, ?_, ⟨by decide, _, htable', rfl, rfl⟩, ?_,
    fun key' => ?_⟩
  · exact fun n => (congrFun hsucceeds' n).trans (hok₁ n)
  · exact fun table hne => (hothers' table hne).trans (hothers table hne)
  · have hrow : (createMainBlob p (rootData salt key pwd)
        (createMainBlob p [(lit "version", .int32 1)] db).2).2.row (lit "__main") RootNodeId
          = some row' := by
      unfold Db.row
      rw [htable']
      rfl
    rw [hrow, hread]

/-- **`Store::init` on a new file.** Only what a subclass creates can still fail. -/
theorem init_run {disk : Disk} (hok : ∀ n, disk.succeeds n = true) (hnone : disk.file = none)
    (password : Bytes) (salt : BytesOf 16) (key : BytesOf 32) :
    ∃ db, Created p pbkdf2 password salt key db
      ∧ (∀ table, table ≠ lit "__main" → table ≠ lit "__indexes" → db.tables table = none)
      ∧ init p pbkdf2 blobTables vtabs password (some salt) (some key) disk =
        match steps (createTables p blobTables vtabs) db with
        | (true, db) => (true, ⟨true, some key.buffer⟩, Disk.of db)
        | (false, db) => (false, ⟨false, none⟩, Disk.of db) := by
  have hkeys := encryptKeys_size p.aes_encrypt ((pbkdf2 password salt.1).buffer_size (by decide))
    (key.buffer_size (by decide))
  have hopen : disk.openDb true = some ⟨fun _ => none, disk.succeeds, disk.calls + 1⟩ := by
    unfold Disk.openDb
    rw [hok, hnone]
    rfl
  have hempty := @createInternalBlobTables_main ⟨fun _ => none, disk.succeeds, disk.calls + 1⟩
    hok rfl
  obtain ⟨hfirst₁, hblobs⟩ := creates_internalBlobTables
    ⟨fun _ => none, disk.succeeds, disk.calls + 1⟩ hok
  have hok₁ := fun n => (congrFun hblobs.succeeds n).trans (hok n)
  obtain ⟨hfirst₂, hvtabs⟩ := creates_internalVTables p _ hok₁
  have hok₂ := fun n => (congrFun hvtabs.succeeds n).trans (hok₁ n)
  obtain ⟨db₁, db₂, hone, htwo, hok₃, htable, hothers, hroot⟩ := createMainBlobs p hfirst hsecond hmax hok₂
    (hvtabs.tables _ _ hempty) (salt.buffer_size (by decide)) hkeys.1 hkeys.2
  have hbefore : steps [createInternalBlobTables, createInternalVTables p,
      createMainBlob p [(lit "version", .int32 1)]] ⟨fun _ => none, disk.succeeds, disk.calls + 1⟩
        = (true, db₁) := by
    rw [steps_cons hfirst₁, steps_cons hfirst₂, steps_cons (congrArg Prod.fst hone), hone]
    rfl
  have hafter : steps (createMainBlob p (rootData salt.buffer
      (encryptKeys p.aes_encrypt (pbkdf2 password salt.1).buffer key.buffer).1
      (encryptKeys p.aes_encrypt (pbkdf2 password salt.1).buffer key.buffer).2)
        :: createTables p blobTables vtabs) db₁ = steps (createTables p blobTables vtabs) db₂ := by
    rw [steps_cons (congrArg Prod.fst htwo), htwo]
  refine ⟨db₂, ⟨hok₃, htable, hroot⟩, ?_, ?_⟩
  · intro table hmain hindexes
    rw [hothers table hmain, (createInternalVTables_same p _).tables,
      createInternalBlobTables_others hmain hindexes]
  unfold init
  rw [if_neg (by rw [hnone]; decide), hopen]
  dsimp only
  rw [hbefore]
  dsimp only
  rw [hafter]
  rfl

/-- **A store that is created** has its keys in the second blob. -/
theorem init_created {disk : Disk} (hok : ∀ n, disk.succeeds n = true) (password : Bytes)
    (salt : BytesOf 16) (key : BytesOf 32)
    (h : (init p pbkdf2 blobTables vtabs password (some salt) (some key) disk).1 = true) :
    ∃ db, (init p pbkdf2 blobTables vtabs password (some salt) (some key) disk).2
        = (⟨true, some key.buffer⟩, Disk.of db)
      ∧ Created p pbkdf2 password salt key db
      ∧ Creates (steps (createTables p blobTables vtabs)) true := by
  have hnone : disk.file = none := by
    cases hfile : disk.file with
    | none => rfl
    | some tables =>
      unfold init at h
      rw [hfile] at h
      cases h
  obtain ⟨db, hcreated, -, hinit⟩ := init_run p pbkdf2 blobTables vtabs hfirst hsecond hmax hok hnone
    password salt key
  have htables := creates_createTables p blobTables vtabs
  generalize blobTables.all isName = ok at htables
  obtain ⟨hsteps, hkept⟩ := htables db hcreated.succeeds
  rw [hinit] at h ⊢
  generalize steps (createTables p blobTables vtabs) db = r at h hsteps hkept ⊢
  obtain ⟨_ | _, db'⟩ := r
  · cases h
  · obtain rfl : true = ok := hsteps
    exact ⟨db', rfl, hcreated.kept p pbkdf2 hkept, htables⟩

/-- A store is created if what a subclass creates can be. -/
theorem init_true {disk : Disk} (hok : ∀ n, disk.succeeds n = true) (hnone : disk.file = none)
    (htables : Creates (steps (createTables p blobTables vtabs)) true) (password : Bytes)
    (salt : BytesOf 16) (key : BytesOf 32) :
    (init p pbkdf2 blobTables vtabs password (some salt) (some key) disk).1 = true := by
  obtain ⟨db, hcreated, -, hinit⟩ := init_run p pbkdf2 blobTables vtabs hfirst hsecond hmax hok hnone
    password salt key
  obtain ⟨hsteps, -⟩ := htables db hcreated.succeeds
  rw [hinit]
  generalize steps (createTables p blobTables vtabs) db = r at hsteps ⊢
  obtain ⟨_ | _, db'⟩ := r
  · cases hsteps
  · rfl

omit hfirst hsecond hmax

/-- What `Store::open` says of a password, and what it keeps. -/
def unlocked (salt : BytesOf 16) (keys : MemoryBuffer × MemoryBuffer) (password : Bytes) :
    Bool × StoreState :=
  let d := decryptKeys p.aes_encrypt (pbkdf2 password salt.1).buffer keys.1.data keys.2.data
  if d.2 = (pbkdf2 password salt.1).buffer then (true, ⟨true, some d.1⟩) else (false, ⟨false, none⟩)

/-- The end of `Store::open`, on what `Store::init` wrote. -/
theorem unlock_rootData (htables : Creates (steps (createTables p blobTables vtabs)) true)
    {salt : BytesOf 16} {keys : MemoryBuffer × MemoryBuffer} (hkey : keys.1.size = 32)
    (hpwd : keys.2.size = 32) (password : Bytes) {db : Db} (hok : ∀ n, db.succeeds n = true) :
    (unlock p pbkdf2 blobTables vtabs password (rootData salt.buffer keys.1 keys.2) db).map
      (fun r => (r.1, r.2.1)) = some (unlocked p pbkdf2 salt keys password) := by
  have hsalt : salt.buffer.data = salt.1 := salt.buffer_data (by decide)
  have hboth := decryptKeys_data p.aes_encrypt (pbkdf2 password salt.1).buffer hkey hpwd
  have hlen := (cryptBoth_length p.aes_encrypt (keyAes (pbkdf2 password salt.1).buffer) keys.1.data
    keys.2.data).2.trans hpwd
  rw [← hboth] at hlen
  have htake := List.take_of_length_le (Nat.le_of_eq hlen)
  have hsizes : ¬ (bufferSize (field (rootData salt.buffer keys.1 keys.2) (lit "key")) = 0
      ∨ bufferSize (field (rootData salt.buffer keys.1 keys.2) (lit "pwd")) = 0) := by
    intro hempty
    rcases hempty with hempty | hempty
    · exact absurd (hkey.symm.trans hempty) (by decide)
    · exact absurd (hpwd.symm.trans hempty) (by decide)
  obtain ⟨hcreated, -⟩ := htables db hok
  have hrun : unlock p pbkdf2 blobTables vtabs password (rootData salt.buffer keys.1 keys.2) db =
      (let pwd := (pbkdf2 password salt.buffer.data).buffer
       let d := decryptKeys p.aes_encrypt pwd keys.1.data keys.2.data
       if d.2.data.take 32 ≠ pwd.data then pure (false, StoreState.new.close, Disk.of db)
       else
         let store : StoreState := ⟨true, some d.1⟩
         match steps (createTables p blobTables vtabs) db with
         | (true, db) => pure (true, store, Disk.of db)
         | (false, db) => pure (false, store.close, Disk.of db)) := if_neg hsizes
  rw [hrun, hsalt]
  unfold unlocked
  dsimp only at htake ⊢
  rw [htake]
  by_cases hsame : (decryptKeys p.aes_encrypt (pbkdf2 password salt.1).buffer keys.1.data
      keys.2.data).2 = (pbkdf2 password salt.1).buffer
  · rw [if_neg (not_not_intro (congrArg MemoryBuffer.data hsame)), if_pos hsame]
    generalize steps (createTables p blobTables vtabs) db = r at hcreated
    obtain ⟨b, db'⟩ := r
    obtain rfl : b = true := hcreated
    rfl
  · rw [if_pos (fun h => hsame (MemoryBuffer.ext h)), if_neg hsame]
    rfl

/-- **A store that is created is opened**, or not, by what its keys say. -/
theorem openFile_created (hfuel : 60 ≤ p.fuel) {salt : BytesOf 16} {key : BytesOf 32}
    {password : Bytes} {db : Db} (h : Created p pbkdf2 password salt key db)
    (htables : Creates (steps (createTables p blobTables vtabs)) true) (other : Bytes) :
    (openFile p pbkdf2 blobTables vtabs other (Disk.of db)).map (fun r => (r.1, r.2.1))
      = some (unlocked p pbkdf2 salt
        (encryptKeys p.aes_encrypt (pbkdf2 password salt.1).buffer key.buffer) other) := by
  have hkeys := encryptKeys_size p.aes_encrypt ((pbkdf2 password salt.1).buffer_size (by decide))
    (key.buffer_size (by decide))
  generalize hk : encryptKeys p.aes_encrypt (pbkdf2 password salt.1).buffer key.buffer = keys at hkeys ⊢
  have hopen : (Disk.of db).openDb false = some (db.after (db.calls + 1)) := by
    unfold Disk.openDb
    rw [show (Disk.of db).succeeds (Disk.of db).calls = true from h.succeeds _]
    rfl
  have hok : ∀ n, (db.after (db.calls + 1)).succeeds n = true := h.succeeds
  -- nothing is created anew
  obtain ⟨hsteps, hkept⟩ := (creates_internalBlobTables.cons
    ((creates_internalVTables p).cons creates_nil)) _ hok
  unfold openFile
  rw [hopen]
  dsimp only
  generalize steps [createInternalBlobTables, createInternalVTables p] (db.after (db.calls + 1)) = r
    at hsteps hkept
  obtain ⟨b, db'⟩ := r
  obtain rfl : b = true := hsteps
  have hcreated := h.kept p pbkdf2
    ((⟨rfl, fun _ _ ht => ht⟩ : Kept db (db.after (db.calls + 1))).trans hkept)
  obtain ⟨calls, hget⟩ := { p with key := MemoryBuffer.create 0 }.getBlobObject_eq
    hcreated.succeeds hcreated.blobTable db'.calls RootNodeId
  -- the second blob has the keys
  have hdoc : { p with key := MemoryBuffer.create 0 }.doc db' (lit "__main") RootNodeId
      = some (rootData salt.buffer keys.1 keys.2) := by
    have htrip := rootData_roundTrip (salt.buffer_size (by decide)) hkeys.1 hkeys.2
    obtain ⟨hwrite, hlen⟩ := write_rootData (salt.buffer_size (by decide)) hkeys.1 hkeys.2
    have hroot := hcreated.root (MemoryBuffer.create 0)
    rw [hk] at hroot
    unfold Platform.doc
    rw [hroot, hwrite]
    exact readObject_encode _ htrip (by rw [← hwrite, hlen]; decide) hfuel
  have hget' : { p with key := MemoryBuffer.create 0 }.getBlobObject db' (lit "__main") RootNodeId
      = (some (rootData salt.buffer keys.1 keys.2), db'.after calls) := hdoc ▸ hget
  dsimp only
  rw [hget']
  exact unlock_rootData p pbkdf2 blobTables vtabs htables hkeys.1 hkeys.2 other
    hcreated.succeeds

include hfirst hsecond hmax in
/-- **The key of a store comes back** with the password it was created with. Another password opens
the store only if it deciphers its own derived key, and otherwise nothing is left open. -/
theorem key_recovered (hfuel : 60 ≤ p.fuel) {disk : Disk} (hok : ∀ n, disk.succeeds n = true)
    (password : Bytes) (salt : BytesOf 16) (key : BytesOf 32)
    (h : (init p pbkdf2 blobTables vtabs password (some salt) (some key) disk).1 = true) :
    let file := (init p pbkdf2 blobTables vtabs password (some salt) (some key) disk).2.2
    let keys := encryptKeys p.aes_encrypt (pbkdf2 password salt.1).buffer key.buffer
    (∃ disk', openFile p pbkdf2 blobTables vtabs password file
        = some (true, ⟨true, some key.buffer⟩, disk'))
      ∧ ∀ other, ∃ res store disk', openFile p pbkdf2 blobTables vtabs other file
          = some (res, store, disk')
        ∧ (res = true ↔ (decryptKeys p.aes_encrypt (pbkdf2 other salt.1).buffer keys.1.data
            keys.2.data).2 = (pbkdf2 other salt.1).buffer)
        ∧ (res = false → store.key = none ∧ store.db = false) := by
  obtain ⟨db, hinit, hcreated, htables⟩ := init_created p pbkdf2 blobTables vtabs hfirst hsecond hmax hok
    password salt key h
  rw [hinit]
  intro file keys
  have hopened := openFile_created p pbkdf2 blobTables vtabs hfuel hcreated htables
  constructor
  · obtain ⟨⟨res, store, disk'⟩, hopen, hres⟩ := Option.map_eq_some_iff.mp (hopened password)
    have hback := decryptKeys_encryptKeys p.aes_encrypt
      ((pbkdf2 password salt.1).buffer_size (by decide)) (key.buffer_size (by decide))
    unfold unlocked at hres
    rw [hback, if_pos rfl] at hres
    obtain ⟨rfl, rfl⟩ := Prod.mk.inj hres
    exact ⟨disk', hopen⟩
  · intro other
    obtain ⟨⟨res, store, disk'⟩, hopen, hres⟩ := Option.map_eq_some_iff.mp (hopened other)
    refine ⟨res, store, disk', hopen, ?_⟩
    unfold unlocked at hres
    by_cases hsame : (decryptKeys p.aes_encrypt (pbkdf2 other salt.1).buffer keys.1.data
        keys.2.data).2 = (pbkdf2 other salt.1).buffer
    · rw [if_pos hsame] at hres
      obtain ⟨rfl, rfl⟩ := Prod.mk.inj hres
      exact ⟨⟨fun _ => hsame, fun _ => rfl⟩, fun hfalse => absurd hfalse (by decide)⟩
    · rw [if_neg hsame] at hres
      obtain ⟨rfl, rfl⟩ := Prod.mk.inj hres
      exact ⟨⟨fun htrue => absurd htrue (by decide), fun h => absurd h hsame⟩, fun _ => ⟨rfl, rfl⟩⟩

end

/-- A derivation for small cases. -/
def plainPbkdf2 (password salt : Bytes) : BytesOf 32 :=
  ⟨(password ++ salt ++ List.replicate 32 0).take 32, by
    rw [List.length_take, List.length_append, List.length_replicate]
    omega⟩

/-- A file that does not exist. -/
def noFile : Disk := ⟨none, fun _ => true, 0⟩

/-- With the right password, and with others. -/
theorem key_recovered_secret :
    let p := { Platform.plain with fuel := 60 }
    let salt : BytesOf 16 := ⟨List.replicate 16 7, rfl⟩
    let key : BytesOf 32 := ⟨List.replicate 32 9, rfl⟩
    let file := (init p plainPbkdf2 [lit "blob1"] [] (lit "secret") (some salt) (some key) noFile).2.2
    let keys := encryptKeys p.aes_encrypt (plainPbkdf2 (lit "secret") salt.1).buffer key.buffer
    (∃ disk', openFile p plainPbkdf2 [lit "blob1"] [] (lit "secret") file
        = some (true, ⟨true, some key.buffer⟩, disk'))
      ∧ ∀ other, ∃ res store disk', openFile p plainPbkdf2 [lit "blob1"] [] other file
          = some (res, store, disk')
        ∧ (res = true ↔ (decryptKeys p.aes_encrypt (plainPbkdf2 other salt.1).buffer keys.1.data
            keys.2.data).2 = (plainPbkdf2 other salt.1).buffer)
        ∧ (res = false → store.key = none ∧ store.db = false) :=
  key_recovered { Platform.plain with fuel := 60 } plainPbkdf2 [lit "blob1"] [] rfl rfl (by decide)
    (by decide) (fun _ => rfl) (lit "secret") ⟨List.replicate 16 7, rfl⟩ ⟨List.replicate 32 9, rfl⟩
    (init_true { Platform.plain with fuel := 60 } plainPbkdf2 [lit "blob1"] [] rfl rfl (by decide)
      (fun _ => rfl) rfl ((creates_createBlobTable (lit "blob1")).cons creates_nil) (lit "secret")
      ⟨List.replicate 16 7, rfl⟩ ⟨List.replicate 32 9, rfl⟩)

end Zway.Ubj.Store
