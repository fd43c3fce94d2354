import Zway.Client.NewStore
import Zway.Store.Documents
import Zway.Store.Elsewhere

/-!
# What an account is to its user

`Zway::Store` has the data of an account in one blob, and its configuration in another.
The file is opened again and again, also with wrong passwords, and a configuration may
fail to be stored. To its user the account is still one object behind one password:
`answered_as_meant`.
-/

namespace Zway.Client

open Sql Ubj Ubj.Store
open VirtualTable (Recorded recorded_of_document row_of_doc nameA)

/-! ## `Zway::Store` -/

/-- `Store::DataNodeId` -/
def DataNodeId : BitVec 64 := 1

/-- `Store::ConfigNodeId` -/
def ConfigNodeId : BitVec 64 := 2

/-- What `Store` keeps of an account. -/
structure Account where
  accountId : BitVec 32
  accountName : Bytes
  accountPassword : Option Bytes
  publicKey : Object
  privateKey : Object

/-- The constructor. -/
def Account.new : Account where
  accountId := 0
  accountName := []
  accountPassword := none
  publicKey := []
  privateKey := []

/-- How `Store::init` and `Store::open` set the account data. -/
def Account.of (printed : BitVec 64 → Bytes) (data : Object) : Account where
  accountId := (field data (lit "accountId")).toInt
  accountName := (field data (lit "accountName")).toStr printed
  accountPassword := buffer (field data (lit "accountPassword"))
  publicKey := (field data (lit "publicKey")).toObject
  privateKey := (field data (lit "privateKey")).toObject

/-- A call for the configuration. `setConfig` comes with what `Random::random` gives for the salt. -/
inductive ConfigCall
  | getConfig
  | setConfig (config : Object) (random : Option SaltBytes)

/-- What comes of it: the configuration, if it could be read, and whether it was set. -/
inductive ConfigReply
  | config (config : Option Object)
  | done (res : Bool)

section

variable (p : Platform)

/-- `Store::getConfig`, without the contacts. -/
def getConfig (db : Db) : Option Object × Db := p.getBlobObject db (lit "blob1") ConfigNodeId

/-- `Store::setConfig`. -/
def setConfig (random : Option SaltBytes) (db : Db) (config : Object) : Bool × Db :=
  match getConfig p db with
  | (none, db) => (false, db)
  | (some obj, db) =>
      let u := p.updateBlobObject random db (lit "blob1") ConfigNodeId (override obj config)
      (u.1 != 0, u.2)

def ConfigCall.perform (db : Db) : ConfigCall → ConfigReply × Db
  | getConfig =>
      let r := Client.getConfig p db
      (.config r.1, r.2)
  | setConfig config random =>
      let r := Client.setConfig p random db config
      (.done r.1, r.2)

/-- The end of `Store::open`. -/
def loadAccount (db : Db) : Account × Db :=
  match p.getBlobObject db (lit "blob1") DataNodeId with
  | (some data, db) => (Account.of p.printed data, db)
  | (none, db) => (Account.new, db)

/-- `Store::unlock` with a password, what is then asked of the store, and `Store::close`. -/
structure Usage where
  password : Bytes
  calls : List ConfigCall

/-- What comes of it. Without a store there is no account. -/
structure Seen where
  account : Option Account
  replies : List (ConfigCall × ConfigReply)

/-- With a store that is open. -/
def useStore (calls : List ConfigCall) (db : Db) : Seen × Disk :=
  let account := loadAccount p db
  let h := Steps.history (ConfigCall.perform p) account.2 calls
  (⟨some account.1, h.1⟩, Disk.of h.2)

/-- With what `Store::open` of the base class gives. -/
def useOpened (calls : List ConfigCall) : Bool × StoreState × Disk → Seen × Disk
  | (true, store, ⟨some tables, succeeds, n⟩) =>
      useStore { p with key := store.key.getD (MemoryBuffer.create 0) } calls ⟨tables, succeeds, n⟩
  | (_, _, disk) => (⟨none, []⟩, disk)

def Usage.run (pbkdf2 : Bytes → Bytes → BytesOf 32) (disk : Disk) (u : Usage) :
    Option (Seen × Disk) :=
  (openFile p pbkdf2 blobTables vtabs u.password disk).map (useOpened p u.calls)

end

/-! ## What is meant -/

/-- A configuration is an object. What is set overrides what is there, or nothing changes. -/
def ConfigCall.answer (config : Object) : ConfigCall → ConfigReply × Object
  | getConfig => (.config (some config), config)
  | setConfig changes random =>
      (.done random.isSome, if random.isSome then override config changes else config)

/-- It is behind a password, with the account. -/
def Usage.answer (password : Bytes) (account : Account) (config : Object) (u : Usage) :
    Seen × Object :=
  if u.password = password then
    let h := Steps.history ConfigCall.answer config u.calls
    (⟨some account, h.1⟩, h.2)
  else (⟨none, []⟩, config)

/-- What is set can be stored. -/
def ConfigCall.Storable (p : Platform) (config : Object) : ConfigCall → Prop
  | getConfig => True
  | setConfig changes random => random.isSome = true → Recorded p (override config changes)

/-- Another password does not open the store: it does not decipher its own derived key. -/
def NewStore.Refuses (a : NewStore) (p : Platform) (pbkdf2 : Bytes → Bytes → BytesOf 32)
    (other : Bytes) : Prop :=
  ∀ salt key, a.salt = some salt → a.key = some key →
    let keys := encryptKeys p.aes_encrypt (pbkdf2 a.password salt.1).buffer key.buffer
    (decryptKeys p.aes_encrypt (pbkdf2 other salt.1).buffer keys.1.data keys.2.data).2
      ≠ (pbkdf2 other salt.1).buffer

/-- All that is set behind the password can be stored, and no other password opens the store. -/
structure Usage.Good (p : Platform) (pbkdf2 : Bytes → Bytes → BytesOf 32) (a : NewStore)
    (config : Object) (u : Usage) : Prop where
  storable : u.password = a.password →
    Steps.Meets (Steps.performed ConfigCall.answer) (ConfigCall.Storable p) config u.calls
  refuses : u.password ≠ a.password → a.Refuses p pbkdf2 u.password

/-! ## What is in the file of an account -/

/-- The keys are in `__main`, and the data and the configuration in `blob1`. -/
structure Holds (p : Platform) (pbkdf2 : Bytes → Bytes → BytesOf 32) (a : NewStore)
    (salt : BytesOf 16) (key : BytesOf 32) (db : Db) (config : Object) : Prop where
  created : Created p pbkdf2 a.password salt key db
  blobTable : HasBlobTable db (lit "blob1")
  data : { p with key := key.buffer }.doc db (lit "blob1") DataNodeId = some a.data
  config : { p with key := key.buffer }.doc db (lit "blob1") ConfigNodeId = some config

section

variable {p : Platform} {pbkdf2 : Bytes → Bytes → BytesOf 32} {a : NewStore} {salt : BytesOf 16}
  {key : BytesOf 32} {db db' : Db} {config : Object}

theorem Holds.kept (h : Holds p pbkdf2 a salt key db config) (hkept : Kept db db') :
    Holds p pbkdf2 a salt key db' config where
  created := h.created.kept p pbkdf2 hkept
  blobTable := hkept.blobTable h.blobTable
  data := by
    unfold Platform.doc
    rw [hkept.row h.blobTable]
    exact h.data
  config := by
    unfold Platform.doc
    rw [hkept.row h.blobTable]
    exact h.config

/-- **A call for the configuration is answered as it is meant.** -/
theorem Holds.perform (h : Holds p pbkdf2 a salt key db config) {call : ConfigCall}
    (hstorable : call.Storable p config) :
    (call.perform { p with key := key.buffer } db).1 = (call.answer config).1
      ∧ Holds p pbkdf2 a salt key (call.perform { p with key := key.buffer } db).2
        (call.answer config).2 := by
  obtain ⟨calls, hget⟩ := { p with key := key.buffer }.getBlobObject_eq h.created.succeeds h.blobTable
    db.calls ConfigNodeId
  change getConfig { p with key := key.buffer } db = _ at hget
  rw [h.config] at hget
  have hread := h.kept (Kept.after db calls)
  cases call with
  | getConfig =>
    unfold ConfigCall.perform ConfigCall.answer
    dsimp only
    rw [hget]
    exact ⟨rfl, hread⟩
  | setConfig changes random =>
    unfold ConfigCall.perform ConfigCall.answer setConfig
    dsimp only
    rw [hget]
    cases random with
    | none => exact ⟨rfl, hread⟩
    | some random =>
      have hrecord : Recorded { p with key := key.buffer } (override config changes) :=
        ⟨(hstorable rfl).length_le, (hstorable rfl).read⟩
      obtain ⟨hdata, hpos, hmax⟩ := hrecord.data
      obtain ⟨row, hset, hback⟩ := updateBlobData_eq p.aes_encrypt key.buffer p.sqlite p.behind
        hread.created.succeeds hread.blobTable hpos hmax (row_of_doc hread.config) random true
      have helse := updateBlobData_elsewhere p.sqlite p.behind p.aes_encrypt key.buffer (db.after calls)
        hread.blobTable.name (some random) ConfigNodeId
        (some (MemoryBuffer.ofData (Writer.write (.object (override config changes))))) true
      refine ⟨rfl, hread.created.elsewhere helse (by decide), hset.blobTable, ?_, ?_⟩
      · have hother := hset.others DataNodeId (by decide)
        exact (congrArg (fun row => (readBack p.aes_encrypt key.buffer row).bind p.readObject)
          hother).trans hread.data
      · have hread' : (readBack p.aes_encrypt key.buffer row).bind p.readObject
            = some (override config changes) := by
          rw [hback, hdata]
          exact hrecord.read
        exact (congrArg (fun row => (readBack p.aes_encrypt key.buffer row).bind p.readObject)
          hset.row).trans hread'

/-- **The right password** opens the store, and the account is there. -/
theorem Holds.run_right (h : Holds p pbkdf2 a salt key db config) (hfuel : 60 ≤ p.fuel) {u : Usage}
    (hright : u.password = a.password) (hgood : u.Good p pbkdf2 a config) :
    ∃ db', u.run p pbkdf2 (Disk.of db)
        = some ((u.answer a.password (Account.of p.printed a.data) config).1, Disk.of db')
      ∧ Holds p pbkdf2 a salt key db'
        (u.answer a.password (Account.of p.printed a.data) config).2 := by
  obtain ⟨db₁, hkept, hopen⟩ := @openFile_kept p pbkdf2 blobTables vtabs hfuel _ _ _ _
    h.created (by decide) u.password
  have hback := decryptKeys_encryptKeys p.aes_encrypt
    ((pbkdf2 a.password salt.1).buffer_size (by decide)) (key.buffer_size (by decide))
  have hunlocked : unlocked p pbkdf2 salt (encryptKeys p.aes_encrypt
      (pbkdf2 a.password salt.1).buffer key.buffer) u.password = (true, ⟨true, some key.buffer⟩) := by
    unfold unlocked
    rw [hright, hback]
    exact if_pos rfl
  rw [hunlocked] at hopen
  have hdb₁ := h.kept hkept
  -- the account is loaded
  obtain ⟨calls, hget⟩ := { p with key := key.buffer }.getBlobObject_eq hdb₁.created.succeeds
    hdb₁.blobTable db₁.calls DataNodeId
  change { p with key := key.buffer }.getBlobObject db₁ (lit "blob1") DataNodeId = _ at hget
  rw [hdb₁.data] at hget
  have hload : loadAccount { p with key := key.buffer } db₁
      = (Account.of p.printed a.data, db₁.after calls) := by
    unfold loadAccount
    rw [hget]
  have hrun : u.run p pbkdf2 (Disk.of db)
      = some (useStore { p with key := key.buffer } u.calls db₁) := by
    unfold Usage.run
    rw [hopen]
    rfl
  have hstep : ∀ (db : Db) (config : Object) (call : ConfigCall), Holds p pbkdf2 a salt key db config → call.Storable p config →
      (call.perform { p with key := key.buffer } db).1 = (call.answer config).1
        ∧ Holds p pbkdf2 a salt key (call.perform { p with key := key.buffer } db).2
          (call.answer config).2 := fun db config call h => h.perform
  obtain ⟨hreplies, hlast⟩ := Steps.history_refines hstep (hdb₁.kept (Kept.after db₁ calls))
    (hgood.storable hright)
  rw [hrun]
  unfold useStore Usage.answer
  rw [hload, if_pos hright]
  dsimp only
  rw [hreplies]
  exact ⟨_, rfl, hlast⟩

/-- **Another password** opens nothing and changes nothing. -/
theorem Holds.run_wrong (h : Holds p pbkdf2 a salt key db config) (hfuel : 60 ≤ p.fuel) {u : Usage}
    (hwrong : u.password ≠ a.password) (hsalt : a.salt = some salt) (hkey : a.key = some key)
    (hgood : u.Good p pbkdf2 a config) :
    ∃ db', u.run p pbkdf2 (Disk.of db)
        = some ((u.answer a.password (Account.of p.printed a.data) config).1, Disk.of db')
      ∧ Holds p pbkdf2 a salt key db'
        (u.answer a.password (Account.of p.printed a.data) config).2 := by
  obtain ⟨db₁, hkept, hopen⟩ := @openFile_kept p pbkdf2 blobTables vtabs hfuel _ _ _ _
    h.created (by decide) u.password
  have hunlocked : unlocked p pbkdf2 salt (encryptKeys p.aes_encrypt
      (pbkdf2 a.password salt.1).buffer key.buffer) u.password = (false, ⟨false, none⟩) := by
    unfold unlocked
    exact if_neg (hgood.refuses hwrong salt key hsalt hkey)
  rw [hunlocked] at hopen
  refine ⟨db₁, ?_, ?_⟩
  · unfold Usage.run Usage.answer
    rw [hopen, if_neg hwrong]
    rfl
  · unfold Usage.answer
    rw [if_neg hwrong]
    exact h.kept hkept

end

/-! ## A new account -/

section

variable (p : Platform) (pbkdf2 : Bytes → Bytes → BytesOf 32)

/-- One more blob in `blob1`. -/
theorem createDataBlob_doc {db : Db} (hok : ∀ n, db.succeeds n = true)
    (htable : HasBlobTable db (lit "blob1")) {t : Table} (ht : db.tables (lit "blob1") = some t)
    {id : BitVec 64} (hnew : p.sqlite.newRowid (t.rows.map (·.1)) = some id)
    (hid : id.setWidth 32 ≠ 0) (random : SaltBytes) {data : Object} (hrecord : Recorded p data) :
    ∃ row db', createDataBlob p (some random) data db = (true, db')
      ∧ RowSet db (lit "blob1") id row db' ∧ p.doc db' (lit "blob1") id = some data
      ∧ Elsewhere db (lit "blob1") db' := by
  obtain ⟨hdata, hpos, hmax⟩ := hrecord.data
  have hne : id ≠ 0 := by
    rintro rfl
    exact hid rfl
  obtain ⟨hfirst, -⟩ := createBlob_encrypted p hok htable ht hnew hid random
    (MemoryBuffer.ofData (Writer.write (.object data)))
  obtain ⟨row, hset, hback⟩ := createBlob_eq p.sqlite p.behind p.aes_encrypt p.key hok htable hpos hmax
    random true (by rw [hfirst]; exact hne)
  have helse := createBlob_elsewhere p.sqlite p.behind p.aes_encrypt p.key db htable.name (some random)
    (MemoryBuffer.ofData (Writer.write (.object data))) true
  rw [hfirst] at hset
  unfold createDataBlob
  dsimp only
  rw [hfirst]
  refine ⟨row, _, Prod.ext (bne_iff_ne.mpr hne) rfl, hset, ?_, helse⟩
  unfold Platform.doc
  rw [hset.row, hback, hdata]
  exact hrecord.read

/-- The configuration of a new account can be stored. -/
theorem recorded_empty (hmax : 118 ≤ p.sqlite.maxLength) (hfuel : 60 ≤ p.fuel) : Recorded p [] := by
  have hdocument : Document (.object []) :=
    ⟨.object List.Pairwise.nil .nil, rfl, by decide, by decide⟩
  refine recorded_of_document hdocument ?_ (Nat.le_trans (by decide) hfuel)
  exact Nat.le_trans (by decide) hmax

variable (hnew : ∀ ids id, nextRowid ids = some id → p.sqlite.newRowid ids = some id)
  (hmax : 118 ≤ p.sqlite.maxLength) (hfuel : 60 ≤ p.fuel)
include hnew hmax hfuel

/-- **A new account** has its data and an empty configuration. -/
theorem NewStore.init_holds {a : NewStore} (ha : a.Works) (hdata : Recorded p a.data) :
    ∃ salt key db, a.salt = some salt ∧ a.key = some key
      ∧ a.init p pbkdf2 none = (true, ⟨true, some key.buffer⟩, Disk.of db)
      ∧ Holds p pbkdf2 a salt key db [] := by
  obtain ⟨salt, hsalt⟩ := Option.isSome_iff_exists.mp ha.salt
  obtain ⟨key, hkey⟩ := Option.isSome_iff_exists.mp ha.key
  obtain ⟨dataSalt, hdataSalt⟩ := Option.isSome_iff_exists.mp ha.dataSalt
  obtain ⟨configSalt, hconfigSalt⟩ := Option.isSome_iff_exists.mp ha.configSalt
  have hopen : (Disk.mk none a.succeeds 0).openDb true
      = some ⟨fun _ => none, a.succeeds, 1⟩ := if_pos (ha.succeeds 0)
  have hok : ∀ n, (Disk.mk none a.succeeds 0).succeeds n = true := ha.succeeds
  obtain ⟨db₀, hcreated, hothers, hinit⟩ := Store.init_run p pbkdf2 blobTables vtabs
    (hnew [] 1 (by decide)) (hnew [1] 2 (by decide)) hmax hok rfl a.password salt key
  -- the tables of the client
  obtain ⟨db₁, hsteps, hok₁, hempty⟩ := createTables_empty p [lit "blob2", lit "blob3"] vtabs
    hcreated.succeeds (show isName (lit "blob1") = true by decide)
    (hothers _ (by decide) (by decide)) (creates_createTables p [lit "blob2", lit "blob3"] vtabs)
  have hkept := (creates_createTables p blobTables vtabs db₀ hcreated.succeeds).2
  rw [show steps (createTables p blobTables vtabs) db₀ = (true, db₁) from hsteps] at hinit hkept
  have hcreated₁ := hcreated.kept p pbkdf2 hkept
  have htable₁ : HasBlobTable db₁ (lit "blob1") := ⟨by decide, _, hempty, rfl, rfl⟩
  have hnone : ∀ id, db₁.row (lit "blob1") id = none := by
    intro id
    unfold Db.row
    rw [hempty]
    rfl
  -- the blob with the data
  have hdata' : Recorded { p with key := key.buffer } a.data := ⟨hdata.length_le, hdata.read⟩
  obtain ⟨row, db₂, hone, hset, hdoc, helse⟩ := createDataBlob_doc { p with key := key.buffer } hok₁
    htable₁ hempty (hnew [] 1 (by decide)) (by decide) dataSalt hdata'
  have hok₂ := fun n => (congrFun hset.succeeds n).trans (hok₁ n)
  obtain ⟨t, ht, -, -⟩ := hset.blobTable.exists_table
  have hmem : ∀ id, id ∈ t.rows.map (·.1) ↔ (db₂.row (lit "blob1") id).isSome = true := by
    intro id
    rw [← mem_blobIds]
    unfold blobIds
    rw [ht]
    exact Iff.rfl
  have hids : ∀ id ∈ t.rows.map (·.1), id = 1 := by
    intro id hid
    by_contra hne
    have hsome := (hmem id).mp hid
    rw [hset.others id hne, hnone] at hsome
    cases hsome
  obtain ⟨id, hnext, hpos, hle⟩ := nextRowid_small (n := 1)
    (fun id hid => Nat.le_of_eq (congrArg BitVec.toNat (hids id hid))) (by decide)
  -- it is the second one
  have hid : id = ConfigNodeId := by
    have hthere : (1 : BitVec 64) ∈ t.rows.map (·.1) := (hmem 1).mpr (row_of_doc hdoc)
    have hne : id ≠ 1 := by
      rintro rfl
      exact p.sqlite.newRowid_notMem _ _ (hnew _ _ hnext) hthere
    refine BitVec.eq_of_toNat_eq ?_
    have hone : id.toNat ≠ 1 := fun h => hne (BitVec.eq_of_toNat_eq h)
    show id.toNat = 2
    omega
  have hempty' : Recorded { p with key := key.buffer } [] :=
    ⟨(recorded_empty p hmax hfuel).length_le, (recorded_empty p hmax hfuel).read⟩
  obtain ⟨row', db₃, htwo, hset', hdoc', helse'⟩ := createDataBlob_doc { p with key := key.buffer } hok₂
    hset.blobTable ht (hnew _ _ hnext) (by rw [hid]; decide) configSalt hempty'
  subst hid
  refine ⟨salt, key, db₃, hsalt, hkey, ?_, ?_, hset'.blobTable, ?_, hdoc'⟩
  · have hcreation : a.toCreation.init p pbkdf2 blobTables vtabs none
        = (true, ⟨true, some key.buffer⟩, Disk.of db₁) := by
      unfold Creation.init
      rw [if_neg (show ¬ (none : Option Sql.Tables).isSome = true from Bool.false_ne_true), hopen]
      dsimp only
      rw [if_neg ha.handler, hsalt, hkey]
      exact hinit
    have hblobs : steps [createDataBlob { p with key := (some key.buffer).getD (.create 0) }
          a.dataSalt a.data,
        createDataBlob { p with key := (some key.buffer).getD (.create 0) } a.configSalt []]
          ⟨db₁.tables, db₁.succeeds, db₁.calls⟩ = (true, db₃) := by
      rw [Option.getD_some, hdataSalt, hconfigSalt, steps_cons (congrArg Prod.fst hone), hone,
        steps_cons (congrArg Prod.fst htwo), htwo]
      rfl
    unfold NewStore.init
    rw [hcreation]
    dsimp only [Disk.of]
    rw [hblobs]
  · exact (hcreated₁.elsewhere helse (by decide)).elsewhere helse' (by decide)
  · have hother := hset'.others DataNodeId (by decide)
    unfold Platform.doc
    dsimp only
    rw [hother]
    exact hdoc

/-! ## Every usage -/

/-- **An account is one object behind its password**, in whatever order the store is opened, with
whatever passwords, and whatever is set. -/
theorem answered_as_meant {a : NewStore} (ha : a.Works) (hdata : Recorded p a.data)
    {usages : List Usage}
    (hgood : Steps.Meets (Steps.performed (Usage.answer a.password (Account.of p.printed a.data)))
      (Usage.Good p pbkdf2 a) [] usages) :
    (a.init p pbkdf2 none).1 = true
      ∧ ∃ disk, Steps.attempts (Usage.run p pbkdf2) (a.init p pbkdf2 none).2.2 usages
        = some ((Steps.history (Usage.answer a.password (Account.of p.printed a.data)) []
            usages).1, disk) := by
  obtain ⟨salt, key, db, hsalt, hkey, hinit, hholds⟩ := a.init_holds p pbkdf2 hnew hmax hfuel ha hdata
  have hstep : ∀ (disk : Disk) (config : Object) (u : Usage), (∃ db, disk = Disk.of db ∧ Holds p pbkdf2 a salt key db config) →
      u.Good p pbkdf2 a config → ∃ disk', u.run p pbkdf2 disk
        = some ((u.answer a.password (Account.of p.printed a.data) config).1, disk')
      ∧ ∃ db, disk' = Disk.of db ∧ Holds p pbkdf2 a salt key db
        (u.answer a.password (Account.of p.printed a.data) config).2 := by
    rintro _ config u ⟨db, rfl, h⟩ hgood
    by_cases hright : u.password = a.password
    · obtain ⟨db', hrun, h'⟩ := h.run_right hfuel hright hgood
      exact ⟨_, hrun, db', rfl, h'⟩
    · obtain ⟨db', hrun, h'⟩ := h.run_wrong hfuel hright hsalt hkey hgood
      exact ⟨_, hrun, db', rfl, h'⟩
  obtain ⟨disk, hattempts, -⟩ := Steps.attempts_refines hstep ⟨db, rfl, hholds⟩ hgood
  rw [hinit]
  exact ⟨rfl, disk, hattempts⟩

end

/-! ## A small case -/

/-- A platform with a parser that goes deep enough. -/
def roomy : Platform := { Platform.plain with fuel := 60 }

/-- An account with a number. -/
def numbered : NewStore := { working with data := [(lit "accountId", .int32 7)] }

/-- It is named, asked for its name with another password, and asked for it. -/
def namings : List Usage :=
  [⟨lit "secret", [.setConfig nameA (sevens 0)]⟩,
    ⟨lit "other", [.getConfig]⟩, ⟨lit "secret", [.getConfig]⟩]

theorem numbered_works : numbered.Works := ⟨working_works.toWorks, rfl, rfl⟩

theorem numbered_refuses : numbered.Refuses roomy plainPbkdf2 (lit "other") := by
  intro salt key hsalt hkey
  obtain rfl := Option.some.inj hsalt
  obtain rfl := Option.some.inj hkey
  decide +kernel

/-- An object with one field. -/
theorem recorded_single {key : Bytes} {v : Value} (hkey : Carried key) (hv : RoundTrip v)
    (hdepth : depth (.object [(key, v)]) ≤ 63)
    (hlen : (encode (.object [(key, v)])).length ≤ roomy.sqlite.maxLength)
    (hfuel : fuelOf (.object [(key, v)]) ≤ roomy.fuel) : Recorded roomy [(key, v)] := by
  have hlt : (encode (.object [(key, v)])).length < 2 ^ 32 :=
    Nat.lt_of_le_of_lt hlen (Nat.lt_trans roomy.sqlite.maxLength_lt (by decide))
  have hdocument : Document (.object [(key, v)]) :=
    ⟨.object (List.pairwise_singleton _ _) (.cons hkey hv .nil), rfl, hdepth, hlt⟩
  exact recorded_of_document hdocument hlen hfuel

theorem recorded_number : Recorded roomy numbered.data :=
  recorded_single (by unfold Carried; decide) (.int32 7) (by decide) (by decide +kernel)
    (by decide +kernel)

theorem recorded_name : Recorded roomy nameA :=
  recorded_single (by unfold Carried; decide) (.string (by unfold Carried; decide)) (by decide)
    (by decide +kernel) (by decide +kernel)

/-- The name is there in the end. -/
theorem answered_as_meant_numbered :
    (numbered.init roomy plainPbkdf2 none).1 = true
      ∧ ∃ disk, Steps.attempts (Usage.run roomy plainPbkdf2)
          (numbered.init roomy plainPbkdf2 none).2.2 namings
        = some ((Steps.history (Usage.answer numbered.password
            (Account.of roomy.printed numbered.data)) [] namings).1, disk) := by
  have hright : ∀ config : Object, Usage.Good roomy plainPbkdf2 numbered config
      ⟨lit "secret", [.getConfig]⟩ :=
    fun _ => ⟨fun _ => .cons trivial rfl trivial, fun h => absurd rfl h⟩
  refine answered_as_meant roomy plainPbkdf2 (fun _ _ h => h) (by decide) (by decide)
    numbered_works recorded_number ?_
  refine .cons ⟨fun _ => .cons (fun _ => recorded_name) rfl trivial, fun h => absurd rfl h⟩ rfl ?_
  refine .cons ⟨fun h => absurd h (by decide), fun _ => numbered_refuses⟩ rfl ?_
  exact .cons (hright _) rfl trivial

end Zway.Client
