import Zway.Store.Creation

/-!
# Does a store that could not be created block the next one?

`Zway::Store` has three blob tables and nine virtual ones, and `Store::init` adds two
blobs. An attempt that has made the file is refused the next time, whatever the reason it
failed for: `init_again_iff`.
-/

namespace Zway.Client

open Sql Ubj Ubj.Store

/-! ## `Zway::Store` -/

/-- `Store::createBlobTables`. -/
def blobTables : List Bytes := [lit "blob1", lit "blob2", lit "blob3"]

/-- `Store::createVTables`: requests, contact requests, add codes, contacts, histories, messages,
resources, files and thumbnails. -/
def vtabs : List VTab := List.replicate 9 ⟨lit "blob2", true, by decide⟩

/-- `Store::createBlob` with an object, in `blob1`. -/
def createDataBlob (p : Platform) (random : Option SaltBytes) (data : Object) (db : Db) : Bool × Db :=
  let b := createBlob p.sqlite p.behind p.aes_encrypt p.key random db (lit "blob1")
    (some (MemoryBuffer.ofData (Writer.write (.object data)))) true
  (b.1 != 0, b.2)

/-- An attempt to create a store with the data of an account. -/
structure NewStore extends Creation where
  data : Object
  /-- What `Random::random` gives for the salts of the two blobs. -/
  dataSalt : Option SaltBytes
  configSalt : Option SaltBytes

/-- All steps succeed. -/
structure NewStore.Works (a : NewStore) : Prop extends a.toCreation.Works where
  dataSalt : a.dataSalt.isSome = true
  configSalt : a.configSalt.isSome = true

section

variable (p : Platform) (pbkdf2 : Bytes → Bytes → BytesOf 32)

/-- `Store::init`. -/
def NewStore.init (a : NewStore) (file : Option Sql.Tables) : Bool × StoreState × Disk :=
  match a.toCreation.init p pbkdf2 blobTables vtabs file with
  | (true, store, ⟨some tables, succeeds, calls⟩) =>
      let p := { p with key := store.key.getD (MemoryBuffer.create 0) }
      match steps [createDataBlob p a.dataSalt a.data, createDataBlob p a.configSalt []]
        ⟨tables, succeeds, calls⟩ with
      | (true, db) => (true, store, Disk.of db)
      | (false, db) => (false, store.close, Disk.of db)
  | (_, store, disk) => (false, store, disk)

/-- **What an attempt leaves**, which is what `Store::init` of the base class leaves. -/
theorem NewStore.init_file (a : NewStore) :
    (a.init p pbkdf2 none).2.2.file = none ↔ a.succeeds 0 = false ∧ a.leaves = false := by
  rw [← a.toCreation.init_file p pbkdf2 blobTables vtabs]
  unfold NewStore.init
  generalize a.toCreation.init p pbkdf2 blobTables vtabs none = r
  obtain ⟨_ | _, store, _ | tables, succeeds, calls⟩ := r
  · exact Iff.rfl
  · exact Iff.rfl
  · exact Iff.rfl
  · dsimp only
    split
    · exact ⟨fun h => absurd h (Option.some_ne_none _), fun h => absurd h (Option.some_ne_none _)⟩
    · exact ⟨fun h => absurd h (Option.some_ne_none _), fun h => absurd h (Option.some_ne_none _)⟩

section

variable (hnew : ∀ ids id, nextRowid ids = some id → p.sqlite.newRowid ids = some id)
include hnew

/-- A blob in `blob1`, if the rowids there are small. -/
theorem createDataBlob_run {db : Db} (hok : ∀ n, db.succeeds n = true)
    (htable : HasBlobTable db (lit "blob1")) {n : Nat} (hn : n + 1 < 2 ^ 32)
    (hids : ∀ id, (db.row (lit "blob1") id).isSome = true → id.toNat ≤ n)
    (random : SaltBytes) (data : Object) :
    (createDataBlob p (some random) data db).1 = true
      ∧ (∀ n, (createDataBlob p (some random) data db).2.succeeds n = true)
      ∧ HasBlobTable (createDataBlob p (some random) data db).2 (lit "blob1")
      ∧ ∀ id, ((createDataBlob p (some random) data db).2.row (lit "blob1") id).isSome = true →
        id.toNat ≤ n + 1 := by
  obtain ⟨t, ht, -, -⟩ := htable.exists_table
  have hrows : ∀ id ∈ t.rows.map (·.1), id.toNat ≤ n := by
    intro id hid
    refine hids id (mem_blobIds.mp ?_)
    unfold blobIds
    rw [ht]
    exact hid
  obtain ⟨id, hnext, hpos, hle⟩ := nextRowid_small hrows (by omega)
  have hlow : id.setWidth 32 ≠ 0 := by
    intro h
    have hnat := congrArg BitVec.toNat h
    rw [BitVec.toNat_setWidth, Nat.mod_eq_of_lt (by omega)] at hnat
    exact absurd hnat (Nat.ne_of_gt hpos)
  obtain ⟨hid, row, hset⟩ := createBlob_encrypted p hok htable ht (hnew _ _ hnext) hlow random
    (MemoryBuffer.ofData (Writer.write (.object data)))
  have hne : id ≠ 0 := by
    rintro rfl
    exact hlow rfl
  unfold createDataBlob
  dsimp only
  rw [hid]
  refine ⟨bne_iff_ne.mpr hne, fun n => (congrFun hset.succeeds n).trans (hok n), hset.blobTable,
    fun id' hid' => ?_⟩
  by_cases heq : id' = id
  · rw [heq]
    exact hle
  · rw [hset.others id' heq] at hid'
    exact Nat.le_succ_of_le (hids id' hid')

/-- **An attempt on a new file**, whose steps succeed, returns true. -/
theorem NewStore.init_true (hmax : 118 ≤ p.sqlite.maxLength) {a : NewStore} (ha : a.Works) :
    (a.init p pbkdf2 none).1 = true := by
  obtain ⟨dataSalt, hdata⟩ := Option.isSome_iff_exists.mp ha.dataSalt
  obtain ⟨configSalt, hconfig⟩ := Option.isSome_iff_exists.mp ha.configSalt
  obtain ⟨key, db, hok, hnone, hinit⟩ := Creation.init_run p pbkdf2 blobTables vtabs hnew hmax
    ha.toWorks
  obtain ⟨db₁, hsteps, hok₁, hempty⟩ := createTables_empty p [lit "blob2", lit "blob3"] vtabs hok
    (show isName (lit "blob1") = true by decide) (hnone _ (by decide) (by decide))
    (creates_createTables p [lit "blob2", lit "blob3"] vtabs)
  have htable : HasBlobTable db₁ (lit "blob1") := ⟨by decide, _, hempty, rfl, rfl⟩
  have hids : ∀ id, (db₁.row (lit "blob1") id).isSome = true → id.toNat ≤ 0 := by
    intro id hid
    unfold Db.row at hid
    rw [hempty] at hid
    cases hid
  -- the key of the store does not matter here
  obtain ⟨hone, hok₂, htable₂, hids₂⟩ := @createDataBlob_run { p with key := key } hnew _ hok₁ htable 0
    (by decide) hids dataSalt a.data
  obtain ⟨htwo, -⟩ := @createDataBlob_run { p with key := key } hnew _ hok₂ htable₂ 1 (by decide) hids₂
    configSalt []
  have hblobs : (steps [createDataBlob { p with key := key } (some dataSalt) a.data,
      createDataBlob { p with key := key } (some configSalt) []] db₁).1 = true := by
    rw [steps_cons hone, steps_cons htwo]
    rfl
  unfold NewStore.init
  rw [hinit, show steps (createTables p blobTables vtabs) db = (true, db₁) from hsteps, hdata, hconfig]
  change (match steps [createDataBlob { p with key := key } (some dataSalt) a.data,
      createDataBlob { p with key := key } (some configSalt) []] db₁ with
    | (true, db) => (true, StoreState.mk true (some key), Disk.of db)
    | (false, db) => (false, StoreState.close ⟨true, some key⟩, Disk.of db)).1 = true
  generalize steps _ db₁ = r at hblobs ⊢
  obtain ⟨b, db'⟩ := r
  obtain rfl : b = true := hblobs
  rfl

end

/-! ## A second attempt -/

/-- **An attempt that fails blocks those after it**, unless `sqlite3_open_v2` is what fails, and it has
made no file. So it is with every subclass. -/
theorem init_again_iff (hnew : ∀ ids id, nextRowid ids = some id → p.sqlite.newRowid ids = some id)
    (hmax : 118 ≤ p.sqlite.maxLength) :
    (∀ (names : List Bytes) (vtabs : List VTab), names.all isName = true → ∀ a b : Creation,
      (a.init p pbkdf2 names vtabs none).1 = false → b.Works →
        ((b.init p pbkdf2 names vtabs (a.init p pbkdf2 names vtabs none).2.2.file).1 = true
          ↔ a.succeeds 0 = false ∧ a.leaves = false))
    ∧ ∀ a b : NewStore, (a.init p pbkdf2 none).1 = false → b.Works →
        ((b.init p pbkdf2 (a.init p pbkdf2 none).2.2.file).1 = true
          ↔ a.succeeds 0 = false ∧ a.leaves = false) := by
  constructor
  · intro names vtabs hnames a b _ hb
    have htables := creates_createTables p names vtabs
    rw [hnames] at htables
    rw [← a.init_file p pbkdf2 names vtabs]
    cases hfile : (a.init p pbkdf2 names vtabs none).2.2.file with
    | none => exact ⟨fun _ => rfl, fun _ => Creation.init_true p pbkdf2 names vtabs hnew hmax hb htables⟩
    | some tables =>
      rw [b.init_refused p pbkdf2 names vtabs tables]
      exact ⟨fun h => absurd h Bool.false_ne_true, fun h => absurd h (Option.some_ne_none _)⟩
  · intro a b _ hb
    rw [← a.init_file p pbkdf2]
    cases hfile : (a.init p pbkdf2 none).2.2.file with
    | none => exact ⟨fun _ => rfl, fun _ => NewStore.init_true p pbkdf2 hnew hmax hb⟩
    | some tables => exact ⟨fun h => absurd h Bool.false_ne_true, fun h => absurd h (Option.some_ne_none _)⟩

end

/-- An attempt of which everything succeeds. -/
def working : NewStore where
  password := lit "secret"
  handler := some true
  salt := some ⟨List.replicate 16 7, rfl⟩
  key := some ⟨List.replicate 32 9, rfl⟩
  succeeds _ := true
  leaves := true
  data := []
  dataSalt := some ⟨List.replicate 12 5, rfl⟩
  configSalt := some ⟨List.replicate 12 6, rfl⟩

theorem working_works : working.Works := ⟨⟨fun _ => rfl, by decide, rfl, rfl⟩, rfl, rfl⟩

/-- An attempt of which only the first calls of SQLite succeed. -/
def stopping (calls : Nat) : NewStore := { working with succeeds := (· < calls), leaves := false }

/-- One that makes no file. -/
theorem init_again_iff_nothing :
    ((working.toCreation.init Platform.plain plainPbkdf2 [] []
        ((stopping 0).toCreation.init Platform.plain plainPbkdf2 [] [] none).2.2.file).1 = true
      ↔ (stopping 0).succeeds 0 = false ∧ (stopping 0).leaves = false)
    ∧ ((working.init Platform.plain plainPbkdf2
        ((stopping 0).init Platform.plain plainPbkdf2 none).2.2.file).1 = true
      ↔ (stopping 0).succeeds 0 = false ∧ (stopping 0).leaves = false) :=
  ⟨(init_again_iff Platform.plain plainPbkdf2 (fun _ _ h => h) (by decide)).1 [] [] rfl
      (stopping 0).toCreation working.toCreation rfl working_works.toWorks,
    (init_again_iff Platform.plain plainPbkdf2 (fun _ _ h => h) (by decide)).2 (stopping 0) working rfl
      working_works⟩

/-- One that opens the file and then creates no table. -/
theorem not_init_again :
    ¬ ∀ a b : NewStore, (a.init Platform.plain plainPbkdf2 none).1 = false → b.Works →
      (b.init Platform.plain plainPbkdf2 (a.init Platform.plain plainPbkdf2 none).2.2.file).1 = true := by
  intro h
  have hagain := h (stopping 1) working rfl working_works
  exact Bool.false_ne_true hagain

end Zway.Client
