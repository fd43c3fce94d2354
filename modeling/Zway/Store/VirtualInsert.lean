import Mathlib.Data.List.Nodup
import Zway.Store.VirtualRows
import Zway.Ubj.RoundTrip

/-!
# What an insertion into a virtual table stores

A value goes through `bindUbjToStmt` and `xUpdate` before it is a field of an object, and
through `xColumn` and `rowToUbj` when it is reported. Each of the four drops something;
`boundVal`, `storedValue` and `reportedValue` say what is left.
-/

namespace Zway.Ubj.Store.VirtualTable

open Sql

variable (p : Platform) (T : VirtualTable)

/-! ## Binding -/

/-- What SQLite gets for a parameter; none if it is too big. -/
def boundParam : Param → Option Val
  | .value x => some (capped p.sqlite x)
  | .zeroblob size => Param.val p.sqlite (.zeroblob size)

/-- What SQLite gets for a value. -/
def boundVal (v : Value) : Option Val := (bindUbj p.behind true v).bind (boundParam p)

/-- For a virtual table every value is bound. -/
theorem bindUbj_isSome (v : Value) : (bindUbj p.behind true v).isSome = true := by
  cases v with
  | object fields =>
    rw [bindUbj]
    split
    · rfl
    · split
      · rfl
      · rfl
  | buffer data =>
    rw [bindUbj]
    split
    · rfl
    · rfl
  | _ => rfl

theorem paramVals_cons (v : Value) (vs : List Value) :
    paramVals p (v :: vs) = (boundVal p v).bind fun x => (paramVals p vs).map (x :: ·) := by
  obtain ⟨param, hparam⟩ := Option.isSome_iff_exists.mp (bindUbj_isSome p v)
  unfold paramVals bindUbjToStmt boundVal
  rw [List.filterMap_cons_some hparam, List.map_cons, List.mapM_cons, hparam, Option.bind_some]
  refine (congrArg (Option.bind · _) (?_ : _ = boundParam p param)).trans ?_
  · cases param with
    | zeroblob size => rfl
    | value x =>
      cases x with
      | blob data =>
        show Param.val p.sqlite (if _ then _ else _) = some (if _ then _ else _)
        by_cases hlen : data.length ≤ p.sqlite.maxLength
        · rw [if_pos hlen, if_pos hlen]
          rfl
        · rw [if_neg hlen, if_neg hlen]
          rfl
      | null => rfl
      | integer i => rfl
      | real bits => rfl
      | text s => rfl
  · cases boundParam p param with
    | none => rfl
    | some x =>
      cases List.mapM (Param.val p.sqlite) _ with
      | none => rfl
      | some vals => rfl

/-- Each parameter has the value that is bound to it. -/
theorem paramVals_getD {p : Platform} : ∀ {bound : List Value} {vals : List Val},
    paramVals p bound = some vals →
    ∀ k, vals.getD k .null = (boundVal p (bound.getD k .null)).getD .null
  | [], vals, h, k => by
      obtain rfl : vals = [] := (Option.some.inj h).symm
      rfl
  | v :: bound, vals, h, k => by
      rw [paramVals_cons] at h
      obtain ⟨x, hx, h⟩ := Option.bind_eq_some_iff.mp h
      obtain ⟨rest, hrest, rfl⟩ := Option.map_eq_some_iff.mp h
      cases k with
      | zero =>
        show x = (boundVal p v).getD .null
        rw [hx]
        rfl
      | succ k => exact paramVals_getD hrest k

/-! ## The row -/

/-- The row that an insertion makes of an object. -/
def rowFor (obj : Object) : Row := fun key =>
  match OrdMap.find? obj key with
  | some v => (boundVal p v).getD .null
  | none => .null

/-- Columns that are assigned once have what is assigned to them. -/
theorem assign_zip : ∀ (obj : Object) (vals : List Val) (row : Row), (obj.map (·.1)).Nodup →
    paramVals p (obj.map (·.2)) = some vals →
    vals.length = obj.length ∧ ∀ key, Row.assign row ((obj.map (·.1)).zip vals) key =
      match OrdMap.find? obj key with
      | some v => (boundVal p v).getD .null
      | none => row key
  | [], vals, row, _, h => by
      have hvals : vals = [] := (Option.some.inj h).symm
      subst hvals
      exact ⟨rfl, fun _ => rfl⟩
  | (k, v) :: obj, vals, row, hnodup, h => by
      obtain ⟨hk, hnodup⟩ := List.nodup_cons.mp hnodup
      rw [List.map_cons, paramVals_cons] at h
      obtain ⟨x, hx, h⟩ := Option.bind_eq_some_iff.mp h
      obtain ⟨rest, hrest, rfl⟩ := Option.map_eq_some_iff.mp h
      obtain ⟨hlen, hassign⟩ := assign_zip obj rest (Function.update row k x) hnodup hrest
      refine ⟨congrArg (· + 1) hlen, fun key => ?_⟩
      rw [List.map_cons, List.zip_cons_cons, Row.assign, hassign key, OrdMap.find?]
      by_cases hkey : k = key
      · subst hkey
        have hnone : OrdMap.find? obj k = none :=
          OrdMap.find?_eq_none (fun f hf he => hk (List.mem_map.mpr ⟨f, hf, he⟩))
        rw [if_pos rfl, hnone]
        dsimp only
        rw [Function.update_self, hx]
        rfl
      · rw [if_neg hkey, Function.update_of_ne (Ne.symm hkey)]

/-! ## The object -/

/-- What `xUpdate` stores for a value; nothing for a float. -/
def storedVal : Val → Option Value
  | .integer i => some (.int64 i)
  | .text s => some (Value.ofString (cstr s))
  | .blob data => some (Value.read p.env p.fuel .null data).2
  | .real _ => none
  | .null => none

theorem find?_setColumn {obj : Object} {key : Bytes} (hnew : OrdMap.find? obj key = none) (v : Val)
    (k : Bytes) : OrdMap.find? (setColumn p obj key v) k =
      if k = key then storedVal p v else OrdMap.find? obj k := by
  have hfield : field obj key = .null := by
    unfold field
    rw [hnew]
    rfl
  by_cases hk : k = key
  · subst hk
    rw [if_pos rfl]
    cases v with
    | integer i => exact OrdMap.find?_insert_self ..
    | text s => exact OrdMap.find?_insert_self ..
    | blob data =>
      rw [setColumn, hfield]
      exact OrdMap.find?_insert_self ..
    | real bits => exact hnew
    | null => exact hnew
  · rw [if_neg hk]
    cases v with
    | integer i => exact OrdMap.find?_insert_of_ne _ _ hk
    | text s => exact OrdMap.find?_insert_of_ne _ _ hk
    | blob data => exact OrdMap.find?_insert_of_ne _ _ hk
    | real bits => rfl
    | null => rfl

/-- The fields of the object are the columns of the row. -/
theorem find?_foldl_setColumn (row : Row) : ∀ (columns : List Bytes) (obj : Object), columns.Nodup →
    (∀ c ∈ columns, OrdMap.find? obj c = none) → ∀ k,
    OrdMap.find? (columns.foldl (fun obj key => setColumn p obj key (row key)) obj) k =
      if k ∈ columns then storedVal p (row k) else OrdMap.find? obj k
  | [], obj, _, _, k => (if_neg List.not_mem_nil).symm
  | c :: columns, obj, hnodup, hnew, k => by
      obtain ⟨hc, hnodup⟩ := List.nodup_cons.mp hnodup
      have hset := find?_setColumn p (hnew c List.mem_cons_self) (row c)
      have hnew' : ∀ c' ∈ columns, OrdMap.find? (setColumn p obj c (row c)) c' = none := by
        intro c' hc'
        have hne : c' ≠ c := by
          rintro rfl
          exact hc hc'
        rw [hset, if_neg hne]
        exact hnew c' (List.mem_cons_of_mem _ hc')
      rw [List.foldl_cons, find?_foldl_setColumn row columns _ hnodup hnew' k, hset]
      by_cases hk : k = c
      · subst hk
        rw [if_neg hc, if_pos rfl, if_pos List.mem_cons_self]
      · by_cases hmem : k ∈ columns
        · rw [if_pos hmem, if_pos (List.mem_cons_of_mem _ hmem)]
        · rw [if_neg hmem, if_neg hk, if_neg (fun h => (List.mem_cons.mp h).elim hk hmem)]

/-- The object that an insertion stores. -/
def recordOf (obj : Object) : Object := insertedObject p T (rowFor p obj)

/-- What is stored for a value. -/
def storedValue (v : Value) : Option Value := ((boundVal p v).getD .null |> storedVal p)

theorem find?_recordOf (obj : Object) (key : Bytes) :
    OrdMap.find? (recordOf p T obj) key =
      if key = lit "_$type" then some (.int32 T.type)
      else if key ∈ T.columns then (OrdMap.find? obj key).bind (storedValue p) else none := by
  unfold recordOf insertedObject
  by_cases htype : key = lit "_$type"
  · rw [if_pos htype, htype]
    exact OrdMap.find?_insert_self ..
  · rw [if_neg htype, OrdMap.find?_insert_of_ne _ _ htype,
      find?_foldl_setColumn p _ _ _ T.columns_nodup (fun _ _ => rfl)]
    have hrow : storedVal p (rowFor p obj key) = (OrdMap.find? obj key).bind (storedValue p) := by
      unfold rowFor
      cases OrdMap.find? obj key with
      | none => rfl
      | some v => rfl
    rw [hrow]
    rfl

theorem sorted_setColumn {obj : Object} (h : OrdMap.Sorted obj) (key : Bytes) (v : Val) :
    OrdMap.Sorted (setColumn p obj key v) := by
  cases v with
  | integer i => exact h.insert ..
  | text s => exact h.insert ..
  | blob data => exact h.insert ..
  | real bits => exact h
  | null => exact h

theorem sorted_recordOf (obj : Object) : OrdMap.Sorted (recordOf p T obj) := by
  have hfold : ∀ (columns : List Bytes) (o : Object), OrdMap.Sorted o → OrdMap.Sorted
      (columns.foldl (fun o key => setColumn p o key (rowFor p obj key)) o) := by
    intro columns
    induction columns with
    | nil => exact fun o h => h
    | cons c columns ih => exact fun o h => ih _ (sorted_setColumn p h c _)
  exact (hfold T.columns [] List.Pairwise.nil).insert ..

end Zway.Ubj.Store.VirtualTable
