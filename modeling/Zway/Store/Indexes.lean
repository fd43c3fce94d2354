import Mathlib.Data.List.Induction
import Mathlib.Data.List.Nodup
import Zway.Store.VirtualScan

/-!
# The index of a column

`createIndex` goes through a list of ids, and puts each of them to the text of its column, if it is
not there yet. So an entry has the ids with this text, in the order in which they come first, and
there is no entry without ids: `createIndex_exact`. `updateIds` takes the entry of its type.
-/

namespace Zway.Ubj.Store.VirtualTable

open Sql

section

variable (p : Platform)

/-- The ids whose record has a text in a column, each once, in the order of the list. -/
def idsOf (record : BitVec 32 → Option Object) (column s : Bytes) (ids : List (BitVec 32)) :
    List (BitVec 32) :=
  (ids.filter (fun id => decide (textOf p record column id = some s))).eraseDups

end

/-- The ids that an index is made of: those that are given, or, if there are none, all of the table. -/
def indexed (all : List (BitVec 64)) (ids : List Value) : List (BitVec 32) :=
  if ids.isEmpty then all.map (·.setWidth 32) else ids.map Value.toInt

variable {p : Platform} {T : VirtualTable}

/-! ## Adding ids -/

/-- Adding what is not there yet keeps what comes first. -/
theorem foldl_addNew_eraseDups (q : BitVec 32 → Prop) [DecidablePred q] (ids : List (BitVec 32)) :
    ids.foldl (fun ids id => if q id then addNew ids id else ids) []
      = (ids.filter (fun id => decide (q id))).eraseDups := by
  induction ids using List.reverseRecOn with
  | nil => rfl
  | append_singleton ids id ih =>
    rw [List.foldl_append, List.filter_append, List.eraseDups_append, ih]
    show (if q id then addNew _ id else _) = _
    by_cases hq : q id
    · rw [if_pos hq, List.filter_cons_of_pos (by exact decide_eq_true hq), List.filter_nil]
      generalize ids.filter (fun id => decide (q id)) = kept
      by_cases hmem : id ∈ kept
      · have hnone : [id].removeAll kept = [] := by simp [List.removeAll, hmem]
        rw [addNew_of_mem (List.mem_eraseDups.mpr hmem), hnone, List.eraseDups_nil, List.append_nil]
      · have hone : [id].removeAll kept = [id] := by simp [List.removeAll, hmem]
        rw [addNew_of_notMem (fun h => hmem (List.mem_eraseDups.mp h)), hone]
        rfl
    · rw [if_neg hq, List.filter_cons_of_neg (by exact fun h => hq (of_decide_eq_true h)),
        List.filter_nil]
      simp

theorem mem_idsOf {record : BitVec 32 → Option Object} {column s : Bytes} {ids : List (BitVec 32)}
    {id : BitVec 32} :
    id ∈ idsOf p record column s ids ↔ id ∈ ids ∧ textOf p record column id = some s := by
  unfold idsOf
  rw [List.mem_eraseDups, List.mem_filter, decide_eq_true_iff]

theorem idsOf_nodup (record : BitVec 32 → Option Object) (column s : Bytes)
    (ids : List (BitVec 32)) : (idsOf p record column s ids).Nodup := by
  unfold idsOf
  rw [← foldl_addNew_eraseDups]
  exact (foldl_addNew _ _ [] List.nodup_nil).1

/-! ## An index is a map -/

theorem sorted_addIndexItem {index : Object} (h : OrdMap.Sorted index) (val : Bytes)
    (id : BitVec 32) : OrdMap.Sorted (addIndexItem index val id) := by
  unfold addIndexItem
  split
  · exact h.insert ..
  · split
    · exact h
    · exact h.insert ..
  · exact h

theorem sorted_createIndexLoop (column : Bytes) : ∀ {ids : List Value} {res : Object} {db : Db},
    OrdMap.Sorted res → OrdMap.Sorted (createIndexLoop p T column ids res db).1
  | [], res, db, h => h
  | v :: ids, res, db, h => by
      rw [createIndexLoop]
      split
      · exact sorted_createIndexLoop column (sorted_addIndexItem h ..)
      · exact sorted_createIndexLoop column h

theorem sorted_createIndex (column : Bytes) (ids : List Value) (db : Db) :
    OrdMap.Sorted (createIndex p T column ids db).1 :=
  sorted_createIndexLoop column List.Pairwise.nil

/-! ## What an index says -/

variable {record : BitVec 32 → Option Object} {all : List (BitVec 64)} {Same : Db → Prop}

/-- **An entry has the ids with its text.** -/
theorem Answers.entry (h : Answers p T record all Same) {db : Db} (hdb : Same db) (column s : Bytes)
    (ids : List Value) :
    OrdMap.find? (VirtualTable.createIndex p T column ids db).1 s
      = if (idsOf p record column s (indexed all ids)).isEmpty then none
        else some (.array ((idsOf p record column s (indexed all ids)).map .int32)) := by
  have hlists := (@Answers.createIndex p T record all Same h column s ids db hdb).1
  unfold idsOf
  rw [← foldl_addNew_eraseDups]
  exact hlists

/-- An id of 32 bits is its low 32 bits. -/
theorem mem_map_setWidth {all : List (BitVec 64)} (hall : ∀ id ∈ all, id.toNat < 2 ^ 32)
    {id : BitVec 32} : id ∈ all.map (·.setWidth 32) ↔ id.setWidth 64 ∈ all := by
  have hback : ∀ i ∈ all, (i.setWidth 32).setWidth 64 = i := by
    intro i hi
    have hlt := hall i hi
    refine BitVec.eq_of_toNat_eq ?_
    rw [BitVec.toNat_setWidth, BitVec.toNat_setWidth]
    omega
  rw [List.mem_map]
  constructor
  · rintro ⟨i, hi, rfl⟩
    rw [hback i hi]
    exact hi
  · intro hid
    exact ⟨_, hid, setWidth_setWidth id⟩

/-- **The index of a column is exact**, and so are the ids of a table: they are the blobs whose
`_$type` has the text of its type. -/
theorem createIndex_exact (h : Answers p T record all Same)
    (hall : ∀ id ∈ all, id.toNat < 2 ^ 32) {db : Db} (hdb : Same db) (column : Bytes)
    (ids : List Value) :
    OrdMap.Sorted (createIndex p T column ids db).1
      ∧ (∀ s, OrdMap.find? (createIndex p T column ids db).1 s
        = if (idsOf p record column s (indexed all ids)).isEmpty then none
          else some (.array ((idsOf p record column s (indexed all ids)).map .int32)))
      ∧ (updateIds p T db).1 = (idsOf p record (lit "_$type") (typeText p T)
          (all.map (·.setWidth 32))).map .int32
      ∧ ∀ id : BitVec 32, .int32 id ∈ (updateIds p T db).1
        ↔ id.setWidth 64 ∈ all ∧ textOf p record (lit "_$type") id = some (typeText p T) := by
  have hupdate : (updateIds p T db).1 = (idsOf p record (lit "_$type") (typeText p T)
      (all.map (·.setWidth 32))).map .int32 := by
    rw [(h.updateIds hdb).1, foldl_addNew_eraseDups]
    rfl
  refine ⟨sorted_createIndex column ids db, fun s => h.entry hdb column s ids, hupdate, ?_⟩
  intro id
  rw [hupdate, List.mem_map]
  constructor
  · rintro ⟨id', hid', he⟩
    obtain rfl := Value.int32.inj he
    obtain ⟨hmem, htext⟩ := mem_idsOf.mp hid'
    exact ⟨(mem_map_setWidth hall).mp hmem, htext⟩
  · rintro ⟨hmem, htext⟩
    exact ⟨id, mem_idsOf.mpr ⟨(mem_map_setWidth hall).mpr hmem, htext⟩, rfl⟩

/-- A table with one blob of it. -/
theorem createIndex_exact_two :
    .int32 2 ∈ (updateIds .plain (names 2) (blobsDb [(2, ofTypeTwo)])).1 := by
  have hanswers := @answers_of_works .plain (names 2) (blobsDb [(2, ofTypeTwo)]) (fun _ => rfl)
    (blobsDb_hasBlobTable _)
  have hall : ∀ id ∈ blobIds (blobsDb [(2, ofTypeTwo)]) (lit "blobs"), id.toNat < 2 ^ 32 := by
    intro id hid
    rw [List.mem_singleton.mp hid]
    decide
  obtain ⟨-, -, -, hids⟩ := createIndex_exact hanswers hall ⟨0, rfl⟩ (lit "name") []
  exact (hids 2).mpr ⟨List.mem_singleton_self _, rfl⟩

end Zway.Ubj.Store.VirtualTable
