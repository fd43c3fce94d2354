import Zway.Store.Isolation

/-!
# Do an update and a removal change all rows or none?

The loops of `Store::update` and `Store::remove` run on rows whose reads and writes may
fail, in any pattern. A row that fails is passed over, nothing is rolled back, and the
result is the number of rows that were found. So it is the number of rows that were
changed exactly if nothing fails: `allOrNothing_iff`.
-/

namespace Zway.Ubj.Store

open Sql

/-! ## Rows that fail -/

/-- How a read or a write of a row fares. A read that fails gives nothing; a write that fails leaves
something. -/
inductive Access where
  | works
  | fails (left : Option Object)

/-- The blobs of a table, and how the next reads and writes fare. -/
structure Faulty where
  docs : BitVec 64 → Option Object
  accesses : Nat → Access
  /-- Whether `BEGIN` succeeds. -/
  begins : Bool
  /-- The rows that were changed or deleted. -/
  changed : List (BitVec 64)

/-- After one more access. -/
def Faulty.accessed (s : Faulty) : Faulty := { s with accesses := fun n => s.accesses (n + 1) }

/-- The calls of the loops. `written` is the object that a blob is read as after it is written. -/
def faultyOps (written : Object → Option Object) : RowOps Faulty where
  beginTransaction s := (s.begins, s)
  endTransaction s := s
  getBlobData s id :=
    match s.accesses 0 with
    | .works => (s.docs id, s.accessed)
    | .fails _ => (none, s.accessed)
  updateBlobData s id data :=
    match s.accesses 0 with
    | .works =>
        { s.accessed with
          docs := Function.update s.docs id (written data)
          changed := s.changed ++ [id] }
    | .fails left => { s.accessed with docs := Function.update s.docs id left }
  removeBlob s id :=
    match s.accesses 0 with
    | .works =>
        { s.accessed with
          docs := Function.update s.docs id none
          changed := s.changed ++ [id] }
    | .fails _ => s.accessed

/-- The result counts the rows that were changed, and these are all rows or none. An error is
reported as `-1`. -/
def AllOrNothing (ids : List (BitVec 64)) (docs : BitVec 64 → Option Object)
    (res : BitVec 32 × Faulty) : Prop :=
  (res.1 = -1 ∧ res.2.changed = [] ∧ res.2.docs = docs)
    ∨ (res.1.toNat = res.2.changed.length
      ∧ (res.2.changed.length < ids.length → res.2.changed = [] ∧ res.2.docs = docs))

section

variable (written : Object → Option Object)

/-! ## How many rows are changed -/

/-- Two accesses, and then the others. -/
theorem forall_lt_two_mul {f : Nat → Access} {k : Nat} :
    (∀ n < 2 * (k + 1), f n = .works) ↔
      f 0 = .works ∧ f 1 = .works ∧ ∀ n < 2 * k, f (n + 2) = .works := by
  constructor
  · intro h
    exact ⟨h 0 (by omega), h 1 (by omega), fun n hn => h (n + 2) (by omega)⟩
  · rintro ⟨h0, h1, h⟩ n hn
    match n with
    | 0 => exact h0
    | 1 => exact h1
    | n + 2 => exact h n (by omega)

theorem forall_lt_succ {f : Nat → Access} {k : Nat} :
    (∀ n < k + 1, f n = .works) ↔ f 0 = .works ∧ ∀ n < k, f (n + 1) = .works := by
  constructor
  · intro h
    exact ⟨h 0 (by omega), fun n hn => h (n + 1) (by omega)⟩
  · rintro ⟨h0, h⟩ n hn
    match n with
    | 0 => exact h0
    | n + 1 => exact h n (by omega)

/-- **The loop of an update** changes all rows exactly if every read and every write works. -/
theorem updateRows_changed (changes : Object) : ∀ (ids : List (BitVec 64)) (s : Faulty), ids.Nodup →
    (∀ id ∈ ids, (s.docs id).isSome = true) →
    ((faultyOps written).updateRows changes ids s).changed.length ≤ s.changed.length + ids.length
      ∧ (((faultyOps written).updateRows changes ids s).changed.length
          = s.changed.length + ids.length ↔ ∀ n < 2 * ids.length, s.accesses n = .works) := by
  intro ids
  induction ids with
  | nil =>
    intro s _ _
    exact ⟨Nat.le_refl _, fun _ n hn => absurd hn (Nat.not_lt_zero n), fun _ => rfl⟩
  | cons id ids ih =>
    intro s hnodup hdocs
    obtain ⟨hid, hnodup⟩ := List.nodup_cons.mp hnodup
    have hrest : ∀ (doc : Option Object), ∀ id' ∈ ids,
        (Function.update s.docs id doc id').isSome = true := by
      intro doc id' hid'
      have hne : id' ≠ id := by
        rintro rfl
        exact hid hid'
      rw [Function.update_of_ne hne]
      exact hdocs id' (List.mem_cons_of_mem _ hid')
    rw [List.length_cons, forall_lt_two_mul, RowOps.updateRows, RowOps.updateRow]
    cases hread : s.accesses 0 with
    | fails left =>
      have hget : (faultyOps written).getBlobData s id = (none, s.accessed) := by
        show (match s.accesses 0 with
          | .works => (s.docs id, s.accessed)
          | .fails _ => (none, s.accessed)) = _
        rw [hread]
      obtain ⟨hle, -⟩ := ih s.accessed hnodup
        (fun id' hid' => hdocs id' (List.mem_cons_of_mem _ hid'))
      change _ ≤ s.changed.length + ids.length at hle
      rw [hget]
      dsimp only
      refine ⟨by omega, fun h => by omega, ?_⟩
      rintro ⟨h, -⟩
      cases h
    | works =>
      obtain ⟨doc, hdoc⟩ := Option.isSome_iff_exists.mp (hdocs id List.mem_cons_self)
      have hget : (faultyOps written).getBlobData s id = (some doc, s.accessed) := by
        show (match s.accesses 0 with
          | .works => (s.docs id, s.accessed)
          | .fails _ => (none, s.accessed)) = _
        rw [hread, hdoc]
      rw [hget]
      dsimp only
      cases hwrite : s.accesses 1 with
      | fails left =>
        have hupdate : (faultyOps written).updateBlobData s.accessed id (override doc changes)
            = { s.accessed.accessed with docs := Function.update s.docs id left } := by
          show (match s.accesses 1 with
            | .works => _
            | .fails left => _) = _
          rw [hwrite]
          rfl
        rw [hupdate]
        obtain ⟨hle, -⟩ := ih { s.accessed.accessed with docs := Function.update s.docs id left }
          hnodup (hrest left)
        change _ ≤ s.changed.length + ids.length at hle
        refine ⟨by omega, fun h => by omega, ?_⟩
        rintro ⟨-, h, -⟩
        cases h
      | works =>
        have hupdate : (faultyOps written).updateBlobData s.accessed id (override doc changes)
            = { s.accessed.accessed with
                docs := Function.update s.docs id (written (override doc changes))
                changed := s.changed ++ [id] } := by
          show (match s.accesses 1 with
            | .works => _
            | .fails left => _) = _
          rw [hwrite]
          rfl
        rw [hupdate]
        obtain ⟨hle, hiff⟩ := ih { s.accessed.accessed with
          docs := Function.update s.docs id (written (override doc changes))
          changed := s.changed ++ [id] } hnodup (hrest _)
        rw [List.length_append, List.length_singleton, Nat.add_assoc,
          Nat.add_comm 1 ids.length] at hle hiff
        refine ⟨hle, hiff.trans ⟨fun h => ⟨rfl, rfl, h⟩, fun h => h.2.2⟩⟩

/-- **The loop of a removal** deletes all rows exactly if every one of them works. -/
theorem removeRows_changed : ∀ (ids : List (BitVec 64)) (s : Faulty),
    ((faultyOps written).removeRows ids s).changed.length ≤ s.changed.length + ids.length
      ∧ (((faultyOps written).removeRows ids s).changed.length = s.changed.length + ids.length ↔
          ∀ n < ids.length, s.accesses n = .works) := by
  intro ids
  induction ids with
  | nil =>
    intro s
    exact ⟨Nat.le_refl _, fun _ n hn => absurd hn (Nat.not_lt_zero n), fun _ => rfl⟩
  | cons id ids ih =>
    intro s
    rw [List.length_cons, forall_lt_succ, RowOps.removeRows]
    cases hremove : s.accesses 0 with
    | fails left =>
      have hblob : (faultyOps written).removeBlob s id = s.accessed := by
        show (match s.accesses 0 with
          | .works => _
          | .fails _ => s.accessed) = _
        rw [hremove]
      rw [hblob]
      obtain ⟨hle, -⟩ := ih s.accessed
      change _ ≤ s.changed.length + ids.length at hle
      refine ⟨by omega, fun h => by omega, ?_⟩
      rintro ⟨h, -⟩
      cases h
    | works =>
      have hblob : (faultyOps written).removeBlob s id
          = { s.accessed with
              docs := Function.update s.docs id none
              changed := s.changed ++ [id] } := by
        show (match s.accesses 0 with
          | .works => _
          | .fails _ => _) = _
        rw [hremove]
      rw [hblob]
      obtain ⟨hle, hiff⟩ := ih { s.accessed with
        docs := Function.update s.docs id none
        changed := s.changed ++ [id] }
      rw [List.length_append, List.length_singleton, Nat.add_assoc,
        Nat.add_comm 1 ids.length] at hle hiff
      exact ⟨hle, hiff.trans ⟨fun h => ⟨rfl, h⟩, fun h => h.2⟩⟩

/-! ## All or nothing -/

/-- A loop that changes at most the rows it is given keeps to all or nothing if it changes them all. -/
theorem allOrNothing_transact {loop : List (BitVec 64) → Faulty → Faulty} {ids : List (BitVec 64)}
    {s : Faulty} (hnew : s.changed = []) (hlen : ids.length < 2 ^ 32 - 1)
    (hle : (loop ids s).changed.length ≤ ids.length) :
    AllOrNothing ids s.docs ((faultyOps written).transact loop (some ids) s) ↔
      ids = [] ∨ s.begins = false ∨ (loop ids s).changed.length = ids.length := by
  cases ids with
  | nil =>
    constructor
    · exact fun _ => .inl rfl
    · intro _
      refine .inr ⟨?_, fun h => absurd h (Nat.not_lt_zero _)⟩
      show (0 : BitVec 32).toNat = s.changed.length
      rw [hnew]
      rfl
  | cons id ids =>
    cases hbegins : s.begins with
    | false =>
      have hbegin : (faultyOps written).beginTransaction s = (false, s) := congrArg (·, s) hbegins
      have hrun : (faultyOps written).transact loop (some (id :: ids)) s = (-1, s) := by
        rw [RowOps.transact, hbegin]
      rw [hrun]
      exact ⟨fun _ => .inr (.inl rfl), fun _ => .inl ⟨rfl, hnew, rfl⟩⟩
    | true =>
      have hbegin : (faultyOps written).beginTransaction s = (true, s) := congrArg (·, s) hbegins
      have hrun : (faultyOps written).transact loop (some (id :: ids)) s
          = (BitVec.ofNat 32 (id :: ids).length, loop (id :: ids) s) := by
        rw [RowOps.transact, hbegin]
        rfl
      have hnat : (BitVec.ofNat 32 (id :: ids).length).toNat = (id :: ids).length := by
        rw [BitVec.toNat_ofNat]
        omega
      have hne : BitVec.ofNat 32 (id :: ids).length ≠ -1 := by
        intro h
        have hmax := congrArg BitVec.toNat h
        rw [hnat] at hmax
        change _ = 2 ^ 32 - 1 at hmax
        omega
      rw [hrun]
      constructor
      · rintro (⟨h, -⟩ | ⟨h, -⟩)
        · exact absurd h hne
        · exact .inr (.inr (h.symm.trans hnat))
      · rintro (h | h | h)
        · cases h
        · cases h
        · exact .inr ⟨hnat.trans h.symm, fun hlt => absurd h (Nat.ne_of_lt hlt)⟩

/-- **An update and a removal are all-or-nothing exactly if no read and no write of a row fails**,
or they do not get to the rows. -/
theorem allOrNothing_iff (changes : Object) {ids : List (BitVec 64)} (hnodup : ids.Nodup)
    (hlen : ids.length < 2 ^ 32 - 1) {docs : BitVec 64 → Option Object}
    (hdocs : ∀ id ∈ ids, (docs id).isSome = true) (accesses : Nat → Access) (begins : Bool) :
    (AllOrNothing ids docs ((faultyOps written).transact ((faultyOps written).updateRows changes)
        (some ids) ⟨docs, accesses, begins, []⟩) ↔
      begins = false ∨ ∀ n < 2 * ids.length, accesses n = .works)
    ∧ (AllOrNothing ids docs ((faultyOps written).transact (faultyOps written).removeRows
        (some ids) ⟨docs, accesses, begins, []⟩) ↔
      begins = false ∨ ∀ n < ids.length, accesses n = .works) := by
  constructor
  · obtain ⟨hle, hall⟩ := updateRows_changed written changes ids ⟨docs, accesses, begins, []⟩ hnodup
      hdocs
    rw [List.length_nil, Nat.zero_add] at hle hall
    have hrun := @allOrNothing_transact written _ ids ⟨docs, accesses, begins, []⟩ rfl hlen hle
    rw [hall] at hrun
    rw [hrun]
    constructor
    · rintro (rfl | h | h)
      · exact .inr (fun n hn => absurd hn (Nat.not_lt_zero n))
      · exact .inl h
      · exact .inr h
    · exact .inr
  · obtain ⟨hle, hall⟩ := removeRows_changed written ids ⟨docs, accesses, begins, []⟩
    rw [List.length_nil, Nat.zero_add] at hle hall
    have hrun := @allOrNothing_transact written _ ids ⟨docs, accesses, begins, []⟩ rfl hlen hle
    rw [hall] at hrun
    rw [hrun]
    constructor
    · rintro (rfl | h | h)
      · exact .inr (fun n hn => absurd hn (Nat.not_lt_zero n))
      · exact .inl h
      · exact .inr h
    · exact .inr

end

/-- Two rows of which nothing fails. -/
theorem allOrNothing_iff_works :
    (AllOrNothing [1, 2] (fun _ => some []) ((faultyOps some).transact ((faultyOps some).updateRows [])
        (some [1, 2]) ⟨fun _ => some [], fun _ => .works, true, []⟩) ↔
      true = false ∨ ∀ n < 2 * [(1 : BitVec 64), 2].length, (fun _ => Access.works) n = .works)
    ∧ (AllOrNothing [1, 2] (fun _ => some []) ((faultyOps some).transact (faultyOps some).removeRows
        (some [1, 2]) ⟨fun _ => some [], fun _ => .works, true, []⟩) ↔
      true = false ∨ ∀ n < [(1 : BitVec 64), 2].length, (fun _ => Access.works) n = .works) :=
  allOrNothing_iff some [] (by decide) (by decide) (fun _ _ => rfl) (fun _ => .works) true

/-- Two rows, and the last access fails: one row is changed, and the result is two. -/
theorem not_allOrNothing :
    ¬ AllOrNothing [1, 2] (fun _ => some []) ((faultyOps some).transact ((faultyOps some).updateRows [])
        (some [1, 2]) ⟨fun _ => some [], fun n => if n = 3 then .fails none else .works, true, []⟩)
    ∧ ¬ AllOrNothing [1, 2] (fun _ => some []) ((faultyOps some).transact (faultyOps some).removeRows
        (some [1, 2]) ⟨fun _ => some [], fun n => if n = 1 then .fails none else .works, true, []⟩) := by
  constructor
  · rintro (⟨h, -⟩ | ⟨h, -⟩)
    · revert h
      decide
    · revert h
      decide
  · rintro (⟨h, -⟩ | ⟨h, -⟩)
    · revert h
      decide
    · revert h
      decide

/-! ## What happens in a database -/

namespace Platform

/-- The object that is read from a blob after another one is written. -/
def written (p : Platform) (obj : Object) : Option Object :=
  p.readObject (MemoryBuffer.ofData (Writer.write (.object obj))).data

end Platform

section

variable (p : Platform) (random : Nat → Option SaltBytes) {table : Bytes}

/-- The docs after one row is set. -/
theorem doc_rowSet {db db' : Db} {id : BitVec 64} {row : Option Row} (h : RowSet db table id row db')
    (id' : BitVec 64) :
    p.doc db' table id' = Function.update (p.doc db table) id (p.doc db' table id) id' := by
  by_cases hid : id' = id
  · rw [hid, Function.update_self]
  · rw [Function.update_of_ne hid]
    unfold Platform.doc
    rw [h.others id' hid]

/-- A pattern after a read that works and a write. -/
def afterWrite (a : Access) (accesses : Nat → Access) : Nat → Access
  | 0 => .works
  | 1 => a
  | n + 2 => accesses n

/-- A pattern after a removal. -/
def afterRemoval (a : Access) (accesses : Nat → Access) : Nat → Access
  | 0 => a
  | n + 1 => accesses n

/-- A turn of the loop can leave whatever object in the row. -/
theorem updateRow_faulty (written : Object → Option Object) (changes : Object) {id : BitVec 64}
    {docs : BitVec 64 → Option Object} {doc : Object} (hdoc : docs id = some doc)
    (left : Option Object) (begins : Bool) (changed : List (BitVec 64)) :
    ∃ a changed', (∀ accesses, (faultyOps written).updateRow changes id
          ⟨docs, afterWrite a accesses, begins, changed⟩
        = ⟨Function.update docs id left, accesses, begins, changed'⟩)
      ∧ ∀ id', id' ∈ changed' ↔ id' ∈ changed
          ∨ (id' = id ∧ left = written (override doc changes)) := by
  have hread : ∀ a accesses, (faultyOps written).getBlobData
      ⟨docs, afterWrite a accesses, begins, changed⟩ id
        = (some doc, Faulty.accessed ⟨docs, afterWrite a accesses, begins, changed⟩) :=
    fun _ _ => congrArg (·, _) hdoc
  by_cases hleft : left = written (override doc changes)
  · refine ⟨.works, changed ++ [id], fun accesses => ?_, fun id' => ?_⟩
    · rw [RowOps.updateRow, hread, hleft]
      rfl
    · rw [List.mem_append, List.mem_singleton]
      exact ⟨fun h => h.imp_right (fun he => ⟨he, hleft⟩), fun h => h.imp_right (·.1)⟩
  · refine ⟨.fails left, changed, fun accesses => ?_, fun id' => ?_⟩
    · rw [RowOps.updateRow, hread]
      rfl
    · exact ⟨.inl, fun h => h.resolve_right (fun hc => hleft hc.2)⟩

/-- **The loop of an update in a database** is that over faulty rows, for some pattern: a row is
changed if the object is then there that should be. -/
theorem updateRows_simulated (changes : Object) (begins : Bool) : ∀ (ids : List (BitVec 64)) (db : Db)
    (docs : BitVec 64 → Option Object) (changed : List (BitVec 64)), HasBlobTable db table →
    ids.Nodup → (∀ id, p.doc db table id = docs id) → (∀ id ∈ ids, (docs id).isSome = true) →
    ∃ accesses s, (faultyOps p.written).updateRows changes ids ⟨docs, accesses, begins, changed⟩ = s
      ∧ (∀ id, p.doc ((dbOps p table random).updateRows changes ids db) table id = s.docs id)
      ∧ ∀ id, id ∈ s.changed ↔ id ∈ changed ∨ (id ∈ ids
          ∧ s.docs id = (docs id).bind (fun doc => p.written (override doc changes))) := by
  intro ids
  induction ids with
  | nil =>
    intro db docs changed _ _ hdb _
    exact ⟨fun _ => .works, _, rfl, hdb, fun id => by simp [RowOps.updateRows]⟩
  | cons id ids ih =>
    intro db docs changed htable hnodup hdb hdocs
    obtain ⟨hid, hnodup⟩ := List.nodup_cons.mp hnodup
    obtain ⟨doc, hdoc⟩ := Option.isSome_iff_exists.mp (hdocs id List.mem_cons_self)
    obtain ⟨row, hset⟩ := updateRow_rowSet p random htable changes id
    have hcons : (dbOps p table random).updateRows changes (id :: ids) db
        = (dbOps p table random).updateRows changes ids
            ((dbOps p table random).updateRow changes id db) := rfl
    rw [hcons]
    generalize (dbOps p table random).updateRow changes id db = db' at hset
    have hne : ∀ id' ∈ ids, id' ≠ id := by
      rintro id' hid' rfl
      exact hid hid'
    have hdb' : ∀ id', p.doc db' table id'
        = Function.update docs id (p.doc db' table id) id' := by
      intro id'
      rw [doc_rowSet p hset id', show p.doc db table = docs from funext hdb]
    have hdocs' : ∀ id' ∈ ids,
        (Function.update docs id (p.doc db' table id) id').isSome = true := by
      intro id' hid'
      rw [Function.update_of_ne (hne id' hid')]
      exact hdocs id' (List.mem_cons_of_mem _ hid')
    obtain ⟨a, changed', hstep, hchanged'⟩ := updateRow_faulty p.written changes hdoc
      (p.doc db' table id) begins changed
    obtain ⟨accesses, s, hrun, hall, hmem⟩ := ih db' _ changed' hset.blobTable hnodup hdb' hdocs'
    refine ⟨afterWrite a accesses, s, ?_, hall, fun id' => ?_⟩
    · rw [RowOps.updateRows, hstep]
      exact hrun
    · -- no later turn comes back to this row
      have hlast : s.docs id = p.doc db' table id := by
        rw [← hall]
        unfold Platform.doc
        rw [(updateRows_rowsSet p random hset.blobTable changes ids).others id hid]
      rw [hmem, hchanged', List.mem_cons]
      constructor
      · rintro ((h | ⟨rfl, h⟩) | ⟨hid', h⟩)
        · exact .inl h
        · refine .inr ⟨.inl rfl, ?_⟩
          rw [hlast, hdoc]
          exact h
        · refine .inr ⟨.inr hid', ?_⟩
          rwa [Function.update_of_ne (hne id' hid')] at h
      · rintro (h | ⟨rfl | hid', h⟩)
        · exact .inl (.inl h)
        · rw [hlast, hdoc] at h
          exact .inl (.inr ⟨rfl, h⟩)
        · refine .inr ⟨hid', ?_⟩
          rwa [Function.update_of_ne (hne id' hid')]

/-- **The loop of a removal in a database** is that over faulty rows, for some pattern: a row is
deleted if there is no object then. -/
theorem removeRows_simulated (begins : Bool) : ∀ (ids : List (BitVec 64)) (db : Db)
    (docs : BitVec 64 → Option Object) (changed : List (BitVec 64)), HasBlobTable db table →
    ids.Nodup → (∀ id, p.doc db table id = docs id) → (∀ id ∈ ids, (docs id).isSome = true) →
    ∃ accesses s, (faultyOps p.written).removeRows ids ⟨docs, accesses, begins, changed⟩ = s
      ∧ (∀ id, p.doc ((dbOps p table random).removeRows ids db) table id = s.docs id)
      ∧ ∀ id, id ∈ s.changed ↔ id ∈ changed ∨ (id ∈ ids ∧ s.docs id = none) := by
  intro ids
  induction ids with
  | nil =>
    intro db docs changed _ _ hdb _
    exact ⟨fun _ => .works, _, rfl, hdb, fun id => by simp [RowOps.removeRows]⟩
  | cons id ids ih =>
    intro db docs changed htable hnodup hdb hdocs
    obtain ⟨hid, hnodup⟩ := List.nodup_cons.mp hnodup
    have hset := removeBlob_rowSet p.sqlite p.behind htable id
    have hcons : (dbOps p table random).removeRows (id :: ids) db
        = (dbOps p table random).removeRows ids ((removeBlob p.sqlite p.behind db table id).2) := rfl
    rw [hcons]
    generalize (removeBlob p.sqlite p.behind db table id).2 = db' at hset
    have hne : ∀ id' ∈ ids, id' ≠ id := by
      rintro id' hid' rfl
      exact hid hid'
    have hdb' : ∀ id', p.doc db' table id'
        = Function.update docs id (p.doc db' table id) id' := by
      intro id'
      rw [doc_rowSet p hset id', show p.doc db table = docs from funext hdb]
    have hlast : p.doc ((dbOps p table random).removeRows ids db') table id = p.doc db' table id := by
      unfold Platform.doc
      rw [(removeRows_rowsSet p random hset.blobTable ids).others id hid]
    by_cases hacts : acts db = true
    · rw [if_pos hacts] at hset
      have hnone : p.doc db' table id = none := by
        unfold Platform.doc readBack
        rw [hset.row]
        rfl
      rw [hnone] at hdb' hlast
      have hdocs' : ∀ id' ∈ ids, (Function.update docs id none id').isSome = true := by
        intro id' hid'
        rw [Function.update_of_ne (hne id' hid')]
        exact hdocs id' (List.mem_cons_of_mem _ hid')
      obtain ⟨accesses, s, hrun, hall, hmem⟩ := ih db' _ (changed ++ [id]) hset.blobTable hnodup hdb'
        hdocs'
      refine ⟨afterRemoval .works accesses, s, hrun, hall, fun id' => ?_⟩
      rw [hmem, List.mem_append, List.mem_singleton, List.mem_cons]
      constructor
      · rintro ((h | rfl) | ⟨hid', h⟩)
        · exact .inl h
        · exact .inr ⟨.inl rfl, (hall id').symm.trans hlast⟩
        · exact .inr ⟨.inr hid', h⟩
      · rintro (h | ⟨rfl | hid', h⟩)
        · exact .inl (.inl h)
        · exact .inl (.inr rfl)
        · exact .inr ⟨hid', h⟩
    · rw [if_neg hacts] at hset
      have hsame : p.doc db' table = docs := by
        funext id'
        rw [← hdb]
        unfold Platform.doc
        by_cases hid' : id' = id
        · rw [hid', hset.row]
        · rw [hset.others id' hid']
      obtain ⟨accesses, s, hrun, hall, hmem⟩ := ih db' docs changed hset.blobTable hnodup
        (congrFun hsame) (fun id' hid' => hdocs id' (List.mem_cons_of_mem _ hid'))
      refine ⟨afterRemoval (.fails none) accesses, s, hrun, hall, fun id' => ?_⟩
      rw [hmem, List.mem_cons]
      constructor
      · rintro (h | ⟨hid', h⟩)
        · exact .inl h
        · exact .inr ⟨.inr hid', h⟩
      · rintro (h | ⟨rfl | hid', h⟩)
        · exact .inl h
        · -- the row is still there
          have hgone : docs id' = none := by
            rw [← congrFun hsame id', ← hlast, hall]
            exact h
          have hthere := hdocs id' List.mem_cons_self
          rw [hgone] at hthere
          cases hthere
        · exact .inr ⟨hid', h⟩

/-- A transaction in a database is one over faulty rows, if the loop is. -/
theorem transact_simulated {db : Db} {loop : List (BitVec 64) → Db → Db}
    {loop' : List (BitVec 64) → Faulty → Faulty} {ids : List (BitVec 64)}
    {docs : BitVec 64 → Option Object} (hdb : ∀ id, p.doc db table id = docs id)
    (hloop : ∃ accesses, ∀ id, p.doc (loop ids (db.after (statementCalls db))) table id
      = (loop' ids ⟨docs, accesses, acts db, []⟩).docs id) :
    ∃ accesses, ((dbOps p table random).transact loop (some ids) db).1
        = ((faultyOps p.written).transact loop' (some ids) ⟨docs, accesses, acts db, []⟩).1
      ∧ ∀ id, p.doc ((dbOps p table random).transact loop (some ids) db).2 table id
          = ((faultyOps p.written).transact loop' (some ids) ⟨docs, accesses, acts db, []⟩).2.docs id := by
  obtain ⟨accesses, hloop⟩ := hloop
  refine ⟨accesses, ?_⟩
  cases ids with
  | nil => exact ⟨rfl, hdb⟩
  | cons id ids =>
    have hbegin : (dbOps p table random).beginTransaction db
        = (acts db, db.after (statementCalls db)) := rfl
    have hbegin' : (faultyOps p.written).beginTransaction ⟨docs, accesses, acts db, []⟩
        = (acts db, ⟨docs, accesses, acts db, []⟩) := rfl
    rw [RowOps.transact, RowOps.transact, hbegin, hbegin']
    cases hacts : acts db with
    | false => exact ⟨rfl, hdb⟩
    | true =>
      rw [hacts] at hloop
      exact ⟨rfl, hloop⟩

/-- **`Store::update` and `Store::remove` in a database**, on the rows they have found: the result and
the objects afterwards are those of the transaction over faulty rows, for some pattern. -/
theorem transaction_simulated {db : Db} (htable : HasBlobTable db table) (changes : Object)
    {ids : List (BitVec 64)} (hnodup : ids.Nodup)
    (hdocs : ∀ id ∈ ids, (p.doc db table id).isSome = true) :
    (∃ accesses, ((dbOps p table random).transact ((dbOps p table random).updateRows changes)
          (some ids) db).1
        = ((faultyOps p.written).transact ((faultyOps p.written).updateRows changes) (some ids)
            ⟨p.doc db table, accesses, acts db, []⟩).1
      ∧ ∀ id, p.doc ((dbOps p table random).transact ((dbOps p table random).updateRows changes)
          (some ids) db).2 table id
        = ((faultyOps p.written).transact ((faultyOps p.written).updateRows changes) (some ids)
            ⟨p.doc db table, accesses, acts db, []⟩).2.docs id)
    ∧ ∃ accesses, ((dbOps p table random).transact (dbOps p table random).removeRows (some ids) db).1
        = ((faultyOps p.written).transact (faultyOps p.written).removeRows (some ids)
            ⟨p.doc db table, accesses, acts db, []⟩).1
      ∧ ∀ id, p.doc ((dbOps p table random).transact (dbOps p table random).removeRows
          (some ids) db).2 table id
        = ((faultyOps p.written).transact (faultyOps p.written).removeRows (some ids)
            ⟨p.doc db table, accesses, acts db, []⟩).2.docs id := by
  constructor
  · refine transact_simulated p random (fun _ => rfl) ?_
    obtain ⟨accesses, s, hrun, hall, -⟩ := updateRows_simulated p random changes (acts db) ids
      (db.after (statementCalls db)) (p.doc db table) [] (htable.after _) hnodup (fun _ => rfl) hdocs
    refine ⟨accesses, fun id => ?_⟩
    rw [hrun]
    exact hall id
  · refine transact_simulated p random (fun _ => rfl) ?_
    obtain ⟨accesses, s, hrun, hall, -⟩ := removeRows_simulated p random (acts db) ids
      (db.after (statementCalls db)) (p.doc db table) [] (htable.after _) hnodup (fun _ => rfl) hdocs
    refine ⟨accesses, fun id => ?_⟩
    rw [hrun]
    exact hall id

end

namespace VirtualTable

/-- **The rows that are found** are different ones, and there are objects in them. -/
theorem rowIds_found (p : Platform) (T : VirtualTable) {db : Db} (hok : ∀ n, db.succeeds n = true)
    (htable : HasBlobTable db T.blobTable) {where_ : Object} {ids : List (BitVec 64)}
    (h : (rowIds p T db where_).1 = some ids) :
    ids.Nodup ∧ ∀ id ∈ ids, (p.doc db T.blobTable id).isSome = true := by
  obtain ⟨calls, hrun⟩ := runSelect_eq p T hok htable
    (QueryAction.sql T.name where_ [] [lit "rowid"] 0 0)
  have hnodup : ((rowsOf p T db (QueryAction.sql T.name where_ [] [lit "rowid"] 0 0)).map (·.1)).Nodup := by
    unfold rowsOf
    rw [hrun]
    cases stmtOf p T db (QueryAction.sql T.name where_ [] [lit "rowid"] 0 0) with
    | none => exact List.nodup_nil
    | some stmt =>
      cases paramVals p (QueryAction.sql T.name where_ [] [lit "rowid"] 0 0).2 with
      | none => exact List.nodup_nil
      | some vals =>
        exact (found_nodup p T db _).sublist (List.Sublist.map _ List.filter_sublist)
  rw [rowIds_rowsOf, hrun] at h
  obtain ⟨s, -, rfl⟩ := Option.map_eq_some_iff.mp h
  refine ⟨hnodup, fun id hid => ?_⟩
  obtain ⟨r, hr, rfl⟩ := List.mem_map.mp hid
  obtain ⟨stmt, vals, -, -, hselected⟩ := (mem_rowsOf p T hok htable).mp hr
  have hrow := rowOf_of_mem_found p T (List.mem_filter.mp hselected).1
  obtain ⟨obj, hdoc, hr⟩ := Option.map_eq_some_iff.mp hrow
  rw [← hr, hdoc]
  rfl

end VirtualTable

end Zway.Ubj.Store
