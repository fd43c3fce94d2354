import Mathlib.Data.List.Nodup
import Zway.Client.Queries
import Zway.Lib.Sqlite

/-!
# Rows of virtual tables

The rows of all virtual tables lie in `blob2`, each under a rowid of 64 bits. A virtual table
lists the low 32 bits of the rowids, and looks a row up by these. `createBlob` takes back a row
that has none of them set.
-/

namespace Zway.Client.Rows

open Sql

variable {α β : Type}

/-- `Store::getBlobData` of `blob2` with a `uint32_t`. -/
def record (rows : List (BitVec 64 × α)) (id : BitVec 32) : Option α :=
  OrdMap.find? rows (id.setWidth 64)

/-- The rows of a table, by what they show. -/
def scan (rows : List (BitVec 64 × α)) (column : α → Option β) : List (BitVec 32 × β) :=
  ((rows.map (·.1.setWidth 32)).foldl FileStore.addIndexItem []).filterMap
    (fun id => ((record rows id).bind column).map (fun b => (id, b)))

/-- The rowid of a new row. `createBlob` takes what `updateBlobData` returns, a `uint32_t`, for a
failure if it is 0. -/
def newId (sqlite : Behaviour) (rows : List (BitVec 64 × α)) : Option (BitVec 64) :=
  (sqlite.newRowid (rows.map (·.1))).filter (fun id => id.setWidth 32 ≠ (0 : BitVec 32))

/-- It is new, and has low bits. -/
theorem newId_spec {sqlite : Behaviour} {rows : List (BitVec 64 × α)} {id : BitVec 64}
    (h : newId sqlite rows = some id) :
    id ∉ rows.map (·.1) ∧ id.setWidth 32 ≠ (0 : BitVec 32) ∧ id ≠ 0 := by
  obtain ⟨hid, hlow⟩ := Option.filter_eq_some_iff.mp h
  refine ⟨sqlite.newRowid_notMem _ _ hid, of_decide_eq_true hlow, ?_⟩
  rintro rfl
  exact of_decide_eq_true hlow (by decide)

variable {rows : List (BitVec 64 × α)} {column : α → Option β}

/-- **What is reported**: the rows with a rowid of 32 bits. -/
theorem mem_scan {id : BitVec 32} {b : β} :
    (id, b) ∈ scan rows column ↔ ∃ a, record rows id = some a ∧ column a = some b := by
  unfold scan
  rw [List.mem_filterMap]
  constructor
  · rintro ⟨id', -, hrow⟩
    obtain ⟨b', hb, he⟩ := Option.map_eq_some_iff.mp hrow
    obtain ⟨a, hrecord, hcolumn⟩ := Option.bind_eq_some_iff.mp hb
    obtain ⟨rfl, rfl⟩ := Prod.mk.inj he
    exact ⟨a, hrecord, hcolumn⟩
  · rintro ⟨a, hrecord, hcolumn⟩
    refine ⟨id, FileStore.mem_foldl_addIndexItem.mpr (.inr ?_), ?_⟩
    · refine List.mem_map.mpr ⟨_, OrdMap.mem_of_find? hrecord, ?_⟩
      exact BitVec.setWidth_setWidth_of_le id (by decide)
    · rw [hrecord, Option.bind_some, hcolumn]
      rfl

/-- No id is reported twice. -/
theorem nodup_scan (rows : List (BitVec 64 × α)) (column : α → Option β) :
    ((scan rows column).map (·.1)).Nodup := by
  have hids : ((rows.map (·.1.setWidth 32)).foldl FileStore.addIndexItem []).Nodup :=
    FileStore.nodup_foldl_addIndexItem List.nodup_nil
  unfold scan
  refine List.Nodup.map_on ?_ (List.Nodup.filterMap ?_ hids)
  · rintro ⟨id, b⟩ hb ⟨id', b'⟩ hb' rfl
    obtain ⟨a, hrecord, hcolumn⟩ := mem_scan.mp hb
    obtain ⟨a', hrecord', hcolumn'⟩ := mem_scan.mp hb'
    obtain rfl := Option.some.inj (hrecord.symm.trans hrecord')
    rw [Option.some.inj (hcolumn.symm.trans hcolumn')]
  · rintro id id' ⟨i, b⟩ h h'
    obtain ⟨_, _, he⟩ := Option.map_eq_some_iff.mp h
    obtain ⟨_, _, he'⟩ := Option.map_eq_some_iff.mp h'
    exact (Prod.mk.inj he).1.trans (Prod.mk.inj he').1.symm

/-- A new row of another table is not reported. -/
theorem scan_append {id : BitVec 64} {a : α} (hother : column a = none) :
    scan (rows ++ [(id, a)]) column = scan rows column := by
  have hrecord : ∀ low : BitVec 32,
      (record (rows ++ [(id, a)]) low).bind column = (record rows low).bind column := by
    intro low
    unfold record
    rw [OrdMap.find?_append]
    cases hfind : OrdMap.find? rows (low.setWidth 64) with
    | some r => rfl
    | none =>
      rw [Option.none_or]
      split
      · exact hother
      · rfl
  unfold scan
  simp only [hrecord]
  rw [List.map_append, List.foldl_append]
  show List.filterMap _ (FileStore.addIndexItem _ (id.setWidth 32)) = _
  unfold FileStore.addIndexItem
  split
  · rfl
  · rename_i hlow
    -- a row with these low bits would be in the list
    have hnone : record rows (id.setWidth 32) = none := by
      cases hfind : record rows (id.setWidth 32) with
      | none => rfl
      | some r =>
        refine absurd (FileStore.mem_foldl_addIndexItem.mpr (.inr ?_)) hlow
        refine List.mem_map.mpr ⟨_, OrdMap.mem_of_find? hfind, ?_⟩
        exact BitVec.setWidth_setWidth_of_le _ (by decide)
    rw [List.filterMap_append]
    simp [hnone]

end Zway.Client.Rows
