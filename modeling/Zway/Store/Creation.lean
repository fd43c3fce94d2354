import Zway.Store.Open

/-!
# Creating a store again

`Store::init` refuses a file that exists, and nothing removes the file when it fails. So
an attempt that has made the file blocks those after it, and there is one that makes none.
-/

namespace Zway.Ubj.Store

open Sql

/-! ## Attempts -/

/-- What an attempt to create a store meets with. -/
structure Creation where
  password : Bytes
  /-- What comes of `Handler::create`, if a handler is asked for. -/
  handler : Option Bool
  /-- What `Random::random` gives for the salt and for the key. -/
  salt : Option (BytesOf 16)
  key : Option (BytesOf 32)
  /-- Which calls of SQLite succeed. -/
  succeeds : Nat → Bool
  /-- Whether `sqlite3_open_v2` has made the file when it fails. -/
  leaves : Bool

/-- All steps succeed. -/
structure Creation.Works (a : Creation) : Prop where
  succeeds : ∀ n, a.succeeds n = true
  handler : a.handler ≠ some false
  salt : a.salt.isSome = true
  key : a.key.isSome = true

section

variable (p : Platform) (pbkdf2 : Bytes → Bytes → BytesOf 32) (blobTables : List Bytes)
  (vtabs : List VTab)

/-- `Store::init`, on a file that exists or not. -/
def Creation.init (a : Creation) (file : Option Tables) : Bool × StoreState × Disk :=
  if file.isSome then (false, .new, ⟨file, a.succeeds, 0⟩)
  else
    match (Disk.mk file a.succeeds 0).openDb true with
    | none => (false, { StoreState.new with db := true },
        ⟨if a.leaves then some (fun _ => none) else none, a.succeeds, 1⟩)
    | some db =>
        if a.handler = some false then (false, StoreState.new.close, Disk.of db)
        else Store.init p pbkdf2 blobTables vtabs a.password a.salt a.key ⟨file, a.succeeds, 0⟩

/-! ## The file stays -/

/-- Once the file is open, it is there, however `Store::init` ends. -/
theorem init_file {disk : Disk} {db : Db} (hopen : disk.openDb true = some db) (password : Bytes)
    (salt : Option (BytesOf 16)) (key : Option (BytesOf 32)) :
    (Store.init p pbkdf2 blobTables vtabs password salt key disk).2.2.file ≠ none := by
  unfold Store.init
  by_cases hfile : disk.file.isSome = true
  · rw [if_pos hfile]
    exact Option.isSome_iff_ne_none.mp hfile
  · rw [if_neg hfile, hopen]
    dsimp only
    -- every exit keeps what the connection has made
    split
    · split
      · exact Option.some_ne_none _
      · exact Option.some_ne_none _
    · exact Option.some_ne_none _

/-- **What an attempt leaves.** There is a file afterwards, unless `sqlite3_open_v2` fails and has made
none. -/
theorem Creation.init_file (a : Creation) :
    (a.init p pbkdf2 blobTables vtabs none).2.2.file = none
      ↔ a.succeeds 0 = false ∧ a.leaves = false := by
  have hnone : ¬ (none : Option Tables).isSome = true := Bool.false_ne_true
  unfold Creation.init
  rw [if_neg hnone]
  cases hfirst : a.succeeds 0 with
  | false =>
    have hopen : (Disk.mk none a.succeeds 0).openDb true = none :=
      if_neg (Bool.eq_false_iff.mp hfirst)
    rw [hopen]
    cases a.leaves with
    | false => exact ⟨fun _ => ⟨rfl, rfl⟩, fun _ => rfl⟩
    | true => exact ⟨fun h => absurd h (Option.some_ne_none _), fun h => absurd h.2 (by decide)⟩
  | true =>
    have hopen : (Disk.mk none a.succeeds 0).openDb true
        = some ⟨fun _ => none, a.succeeds, 1⟩ := if_pos hfirst
    have hfile := Store.init_file p pbkdf2 blobTables vtabs hopen a.password a.salt a.key
    rw [hopen]
    dsimp only
    refine ⟨fun h => ?_, fun h => absurd h.1 (by decide)⟩
    by_cases hhandler : a.handler = some false
    · rw [if_pos hhandler] at h
      exact absurd h (Option.some_ne_none _)
    · rw [if_neg hhandler] at h
      exact absurd h hfile

/-- A file that exists is refused. -/
theorem Creation.init_refused (a : Creation) (tables : Tables) :
    (a.init p pbkdf2 blobTables vtabs (some tables)).1 = false := rfl

/-! ## A new file -/

section

variable (hnew : ∀ ids id, nextRowid ids = some id → p.sqlite.newRowid ids = some id)
  (hmax : 118 ≤ p.sqlite.maxLength)
include hnew hmax

/-- **An attempt on a new file**, whose steps succeed: what a subclass creates comes last. -/
theorem Creation.init_run {a : Creation} (ha : a.Works) : ∃ key db, (∀ n, db.succeeds n = true)
    ∧ (∀ table, table ≠ lit "__main" → table ≠ lit "__indexes" → db.tables table = none)
    ∧ a.init p pbkdf2 blobTables vtabs none =
      match steps (createTables p blobTables vtabs) db with
      | (true, db) => (true, ⟨true, some key⟩, Disk.of db)
      | (false, db) => (false, ⟨false, none⟩, Disk.of db) := by
  obtain ⟨salt, hsalt⟩ := Option.isSome_iff_exists.mp ha.salt
  obtain ⟨key, hkey⟩ := Option.isSome_iff_exists.mp ha.key
  have hopen : (Disk.mk none a.succeeds 0).openDb true
      = some ⟨fun _ => none, a.succeeds, 1⟩ := if_pos (ha.succeeds 0)
  have hok : ∀ n, (Disk.mk none a.succeeds 0).succeeds n = true := ha.succeeds
  obtain ⟨db, hcreated, hothers, hinit⟩ := Store.init_run p pbkdf2 blobTables vtabs
    (hnew [] 1 (by decide)) (hnew [1] 2 (by decide)) hmax hok rfl a.password salt key
  refine ⟨key.buffer, db, hcreated.succeeds, hothers, ?_⟩
  unfold Creation.init
  rw [if_neg (show ¬ (none : Option Tables).isSome = true from Bool.false_ne_true), hopen]
  dsimp only
  rw [if_neg ha.handler, hsalt, hkey]
  exact hinit

/-- It returns true if what a subclass creates can be created. -/
theorem Creation.init_true {a : Creation} (ha : a.Works)
    (htables : Creates (steps (createTables p blobTables vtabs)) true) :
    (a.init p pbkdf2 blobTables vtabs none).1 = true := by
  obtain ⟨key, db, hok, -, hinit⟩ := Creation.init_run p pbkdf2 blobTables vtabs hnew hmax ha
  obtain ⟨hsteps, -⟩ := htables db hok
  rw [hinit]
  generalize steps (createTables p blobTables vtabs) db = r at hsteps
  obtain ⟨b, db'⟩ := r
  obtain rfl : b = true := hsteps
  rfl

end

/-- The first blob table of a subclass is empty. -/
theorem createTables_empty {name : Bytes} {db : Db} (hok : ∀ n, db.succeeds n = true)
    (hname : isName name = true) (hnone : db.tables name = none)
    (htables : Creates (steps (createTables p blobTables vtabs)) true) :
    ∃ db', steps (createTables p (name :: blobTables) vtabs) db = (true, db')
      ∧ (∀ n, db'.succeeds n = true)
      ∧ db'.tables name = some ⟨lit "id", [lit "mode", lit "size", lit "salt", lit "data"], []⟩ := by
  have hfirst : createBlobTable name db = (true, db.called (Function.update db.tables name
      (some ⟨lit "id", [lit "mode", lit "size", lit "salt", lit "data"], []⟩))) := by
    unfold createBlobTable
    rw [show db.ok = true from hok _, hname, hnone]
    rfl
  obtain ⟨hrest, hkept⟩ := htables (db.called (Function.update db.tables name
    (some ⟨lit "id", [lit "mode", lit "size", lit "salt", lit "data"], []⟩))) hok
  have hcons : steps (createTables p (name :: blobTables) vtabs) db
      = steps (createTables p blobTables vtabs) (createBlobTable name db).2 :=
    steps_cons (congrArg Prod.fst hfirst)
  rw [hcons, hfirst]
  refine ⟨_, Prod.ext hrest rfl, fun n => (congrFun hkept.succeeds n).trans (hok n), ?_⟩
  exact hkept.tables _ _ (Function.update_self name _ db.tables)

end

/-! ## Two blobs in an empty table -/

/-- **An encrypted blob that is created** gets the next rowid, if its low bits are not zero. -/
theorem createBlob_encrypted (p : Platform) {db : Db} {table : Bytes}
    (hok : ∀ n, db.succeeds n = true) (htable : HasBlobTable db table) {t : Table}
    (ht : db.tables table = some t) {id : BitVec 64}
    (hnew : p.sqlite.newRowid (t.rows.map (·.1)) = some id) (hid : id.setWidth 32 ≠ 0)
    (random : SaltBytes) (data : MemoryBuffer) :
    (createBlob p.sqlite p.behind p.aes_encrypt p.key (some random) db table (some data) true).1 = id
      ∧ ∃ row, RowSet db table id row (createBlob p.sqlite p.behind p.aes_encrypt p.key (some random)
          db table (some data) true).2 := by
  have hof := createRec_ofBlobTable data true
  have hcons : createRec (some data) true ≠ [] := List.cons_ne_nil _ _
  have hvals := paramVals_createRec_encrypted p.sqlite p.behind data
  have hne : id ≠ 0 := by
    rintro rfl
    exact hid rfl
  have hacts := acts_of_succeeds hok
  have hinsert : (insert p.sqlite p.behind db table (createRec (some data) true)).1 = id := by
    rw [insert_run p.sqlite p.behind htable hof hcons hvals ht, if_pos hacts, hnew]
  have hset := insert_eq p.sqlite p.behind htable hof hcons hvals (by rw [hinsert]; exact hne)
  rw [hinsert] at hset
  have hrandom : true = true → (some random).isSome = true := fun _ => rfl
  obtain ⟨-, row, hset', -⟩ := updateBlobData_readBack p.sqlite p.behind p.aes_encrypt p.key
    hset.blobTable id data hrandom
  have hupdate : ∀ db' : Db, (updateBlobData p.sqlite p.behind p.aes_encrypt p.key (some random) db'
      table id (some data) true).1 = id.setWidth 32 := fun _ => rfl
  unfold createBlob
  dsimp only
  rw [hinsert, if_neg hne, if_pos ⟨rfl, rfl⟩, hupdate, if_neg hid]
  exact ⟨rfl, row, hset.trans hset'⟩

end Zway.Ubj.Store
