import Mathlib.Algebra.Order.Field.Rat
import Zway.Store.Isolation
import Zway.Store.VirtualInsert
import Zway.Ubj.DocumentRead
import Zway.Ubj.Terminated

/-!
# Is an object that is inserted into a virtual table found again?

Five conversions lie between `Store::insert` and what `Store::query` reports: `bindUbjToStmt`,
`xUpdate`, the record in the blob, `xColumn` and `rowToUbj`. `KeptField` says which fields
come through all of them: `returned_iff`.
-/

namespace Zway.Ubj

/-! ## Numbers -/

/-- The number that a double is; none for infinities and NaNs. -/
def doubleNumber (bits : BitVec 64) : Option ℚ :=
  let sign : ℚ := if bits.toNat / 2 ^ 63 = 0 then 1 else -1
  let exponent := bits.toNat / 2 ^ 52 % 2 ^ 11
  let fraction : ℕ := bits.toNat % 2 ^ 52
  if exponent = 2047 then none
  else if exponent = 0 then some (sign * fraction / 2 ^ 1074)
  else some (sign * (2 ^ 52 + fraction) * 2 ^ exponent / 2 ^ 1075)

/-- The number that a value is, if it is one. A `bool` counts as 0 or 1. -/
def Value.number : Value → Option ℚ
  | .bool b => some (if b then 1 else 0)
  | .int32 i => some i.toInt
  | .int64 i => some i.toInt
  | .float32 bits => doubleNumber (floatToDouble bits)
  | .float64 bits => doubleNumber bits
  | _ => none

/-- Numbers are compared as numbers. -/
def Value.Equal (v w : Value) : Prop :=
  match v.number with
  | some x => w.number = some x
  | none => w = v

namespace Store.VirtualTable

open Sql

variable (p : Platform) (T : VirtualTable)

/-! ## Which fields are kept -/

/-- The values that a field to be inserted may have. -/
def Insertable : Value → Prop
  | .null => False
  | .string s => Carried s
  | .buffer data => data ≠ []
  | .array items => Document (.array items)
  | .object fields => Document (.object fields)
  | _ => True

/-- What `Value::read` makes of some bytes, into a null value. -/
def readsAs (data : Bytes) : Value := (Value.read p.env p.fuel .null data).2

/-- A blob that is read as a value. -/
def KeptBlob (data : Bytes) (v : Value) : Prop :=
  data.length ≤ p.sqlite.maxLength ∧ readsAs p data = v

/-- **What comes out as it went in.** A float does not: `xUpdate` has no case for it. A buffer and an
object with a `$zeroBlob` are no documents of themselves. -/
def Kept : Value → Prop
  | .bool _ | .int32 _ | .int64 _ | .string _ => True
  | .buffer data => KeptBlob p data (.buffer data)
  | .array items => (Writer.write (.array items)).length ≤ p.sqlite.maxLength
  | .object fields =>
      match OrdMap.find? fields (lit "$zeroBlob") with
      | some size => KeptBlob p (List.replicate (size.toLong.setWidth 32).toInt.toNat 0)
          (.object fields)
      | none => OrdMap.find? fields (lit "$bindNull") = none
          ∧ (Writer.write (.object fields)).length ≤ p.sqlite.maxLength
  | _ => False

/-- `xUpdate` puts the type of the table into `_$type`, whatever is there. -/
def KeptField (f : Bytes × Value) : Prop :=
  if f.1 = lit "_$type" then f.2.number = some (T.type.toInt : ℚ) else Kept p f.2

/-- **`Store::query` for a rowid returns one row, with the fields of an object.** -/
def Returned (db : Db) (id : BitVec 64) (obj : Object) : Prop :=
  ∃ row, (query p T db [(lit "rowid", .int64 id)] []).1 = some [row]
    ∧ ∀ f ∈ obj, ∃ w, OrdMap.find? row f.1 = some w ∧ f.2.Equal w

/-- A record is no longer than a blob can be, and is read as it is written. -/
structure Recorded (record : Object) : Prop where
  length_le : (Writer.write (.object record)).length ≤ p.sqlite.maxLength
  read : p.readObject (Writer.write (.object record)) = some record

/-- What is stored for a value, if it is a container, is read as it is written. -/
def Reread (v : Value) : Prop :=
  ∀ s, storedValue p v = some s → s.isContainer = true → readsAs p (Writer.write s) = s

/-- The record of an object and the containers in it are read as they are written. -/
structure Storable (obj : Object) : Prop where
  record : Recorded p (recordOf p T obj)
  fields : ∀ f ∈ obj, Reread p f.2

/-- **Everything comes back.** -/
structure ComesBack (id : BitVec 64) (obj : Object) : Prop where
  /-- `xFilter` and `xRowid` keep 32 bits of a rowid. -/
  rowid_lt : id.toNat < 2 ^ 32
  fields : ∀ f ∈ obj, KeptField p T f
  depth_le : depth (.object (recordOf p T obj)) ≤ 63
  length_le : (encode (.object (recordOf p T obj))).length ≤ p.sqlite.maxLength

/-! ## The insertion -/

/-- Nothing is inserted for an object without fields. -/
theorem parse_insert_nil {table : Bytes} (h : isName table = true) :
    parse (tokens (InsertAction.sql table []).1) = none := by
  have hinsert : scan .idle (lit "INSERT INTO ")
      = ([.word (lit "INSERT"), .word (lit "INTO")], .idle) := by decide
  have htext : (InsertAction.sql table []).1 = lit "INSERT INTO " ++ (table ++ 0x20 :: []) := by
    show lit "INSERT INTO " ++ table ++ lit " " ++ [] = _
    rw [List.append_nil, List.append_assoc]
    rfl
  rw [htext, tokens_append hinsert, tokens_name h (by decide)]
  show (keyword (lit "INTO") (.word (lit "INTO") :: .word table :: [])).bind parseInsert = none
  rw [keyword_word (by decide), Option.bind_some]
  unfold parseInsert
  rw [name_word h]

variable {p T} {db : Db}

/-- **What an insertion does**: it creates the blob with the record, or nothing. -/
theorem insert_cases {obj : Object} (hkeys : ∀ f ∈ obj, f.1 ∈ T.columns)
    (hsorted : OrdMap.Sorted obj) (random : Option SaltBytes) :
    (∃ calls, insert p T random db obj = (0, db.after calls))
      ∨ insert p T random db obj = createBlob p.sqlite p.behind p.aes_encrypt p.key random
          (db.after (db.calls + 2)) T.blobTable
          (some (MemoryBuffer.ofData (Writer.write (.object (recordOf p T obj))))) true := by
  unfold insert prepare
  by_cases hne : obj = []
  · subst hne
    rw [parse_insert_nil T.name_isName]
    cases db.ok with
    | true => exact .inl ⟨_, rfl⟩
    | false => exact .inl ⟨_, rfl⟩
  · have hnamed : Named obj := fun f hf => T.columns_isName _ (hkeys f hf)
    rw [parse_insert T.name_isName hnamed hne]
    cases db.ok with
    | false => exact .inl ⟨_, rfl⟩
    | true =>
      have hdeclared : (Stmt.insert T.name (obj.map (·.1))).declared (T.visible db.tables) = true := by
        unfold Stmt.declared visible
        show Option.any _ (Function.update db.tables T.name (some (T.table [])) T.name) = true
        rw [Function.update_self]
        refine List.all_eq_true.mpr (fun c hc => ?_)
        obtain ⟨f, hf, rfl⟩ := List.mem_map.mp hc
        exact decide_eq_true (.inr (.inr (hkeys f hf)))
      have hplanned : planned p (Stmt.insert T.name (obj.map (·.1))) = true := planned_of_onTop p rfl
      rw [if_pos rfl, Option.bind_some, Stmt.resolve_of_declared hdeclared,
        Option.filter_some, if_pos hplanned]
      dsimp only
      cases hvals : (if (db.called db.tables).ok then paramVals p (InsertAction.sql T.name obj).2
          else none) with
      | none => exact .inl ⟨_, rfl⟩
      | some vals =>
        have hparams : paramVals p (obj.map (·.2)) = some vals := by
          by_cases hok' : (db.called db.tables).ok = true
          · rw [if_pos hok'] at hvals
            exact hvals
          · rw [if_neg hok'] at hvals
            cases hvals
        obtain ⟨hlen, hrow⟩ := assign_zip p obj vals (fun _ => .null) hsorted.nodup hparams
        have hlen' : vals.length = (obj.map (·.1)).length := hlen.trans (List.length_map _).symm
        have hnodup : (((obj.map (·.1)).zip vals).map (·.1)).Nodup := by
          rw [List.map_fst_zip (Nat.le_of_eq hlen'.symm)]
          exact hsorted.nodup
        have hfill : Row.fill (fun _ => .null) (assignmentsOf (obj.map (·.1)) vals)
            = rowFor p obj := by
          rw [assignmentsOf_eq_zip hlen', Row.fill_eq_assign _ hnodup]
          exact funext hrow
        dsimp only
        rw [hfill]
        exact .inr rfl

/-- An insertion that returns an id creates the blob. -/
theorem insert_createBlob {obj : Object} (hkeys : ∀ f ∈ obj, f.1 ∈ T.columns)
    (hsorted : OrdMap.Sorted obj) {random : Option SaltBytes} {id : BitVec 64} {db' : Db}
    (hinsert : insert p T random db obj = (id, db')) (hid : id ≠ 0) :
    createBlob p.sqlite p.behind p.aes_encrypt p.key random (db.after (db.calls + 2)) T.blobTable
      (some (MemoryBuffer.ofData (Writer.write (.object (recordOf p T obj))))) true = (id, db') := by
  rcases @insert_cases p T db obj hkeys hsorted random with ⟨calls, hnone⟩ | hcreate
  · rw [hnone] at hinsert
    exact absurd (Prod.mk.inj hinsert).1.symm hid
  · rw [← hcreate]
    exact hinsert

/-- Without random bytes no blob is created. -/
theorem createBlob_none {data : MemoryBuffer} (db : Db) (table : Bytes) :
    (createBlob p.sqlite p.behind p.aes_encrypt p.key none db table (some data) true).1 = 0 := by
  unfold createBlob
  dsimp only
  by_cases hinsert : (Store.insert p.sqlite p.behind db table (createRec (some data) true)).1 = 0
  · rw [if_pos hinsert]
  · rw [if_neg hinsert, if_pos ⟨rfl, rfl⟩]
    rfl

/-- A record that can be stored fits into a blob. -/
theorem Recorded.data {record : Object} (h : Recorded p record) :
    (MemoryBuffer.ofData (Writer.write (.object record))).data = Writer.write (.object record)
      ∧ 0 < (MemoryBuffer.ofData (Writer.write (.object record))).size
      ∧ (MemoryBuffer.ofData (Writer.write (.object record))).size ≤ p.sqlite.maxLength := by
  have hlt : (Writer.write (.object record)).length < 2 ^ 32 :=
    Nat.lt_of_le_of_lt h.length_le (Nat.lt_trans p.sqlite.maxLength_lt (by decide))
  have hdata : (MemoryBuffer.ofData (Writer.write (.object record))).data
      = Writer.write (.object record) := MemoryBuffer.ofData_data hlt
  unfold MemoryBuffer.size
  rw [hdata]
  refine ⟨rfl, List.length_pos_of_ne_nil (fun hnil => ?_), h.length_le⟩
  have hread := h.read
  rw [hnil] at hread
  cases hread

section

variable (hok : ∀ n, db.succeeds n = true) (htable : HasBlobTable db T.blobTable)
include hok htable

/-- **The blob with the id has the record.** -/
theorem doc_inserted {obj : Object} (hrecord : Recorded p (recordOf p T obj))
    (hkeys : ∀ f ∈ obj, f.1 ∈ T.columns) (hsorted : OrdMap.Sorted obj)
    {random : Option SaltBytes} {id : BitVec 64} {db' : Db}
    (hinsert : insert p T random db obj = (id, db')) (hid : id ≠ 0) :
    ∃ row, RowSet db T.blobTable id row db'
      ∧ p.doc db' T.blobTable id = some (recordOf p T obj) := by
  have hcreate := insert_createBlob hkeys hsorted hinsert hid
  obtain ⟨hdata, hpos, hmax⟩ := hrecord.data
  cases random with
  | none =>
    refine absurd ?_ hid
    rw [← createBlob_none (p := p) (db.after (db.calls + 2)) T.blobTable, hcreate]
  | some salt =>
    have hok' : ∀ n, (db.after (db.calls + 2)).succeeds n = true := hok
    have hcreated := createBlob_eq p.sqlite p.behind p.aes_encrypt p.key hok'
      (htable.after (db.calls + 2)) hpos hmax salt true
    rw [hcreate] at hcreated
    obtain ⟨row, hset, hread⟩ := hcreated hid
    refine ⟨row, (RowSet.after htable id (db.calls + 2)).trans hset, ?_⟩
    unfold Platform.doc
    rw [hset.row, hread, hdata]
    exact hrecord.read

end

/-! ## The query -/

/-- The condition of a query for a rowid. -/
def rowidCond : Cond := .compare (lit "rowid") .eq 0

theorem meets_rowidCond (id id' : BitVec 64) (row : Row) :
    meets p T (some rowidCond) [.integer id] id' row = decide (id' = id) :=
  (congrArg (fun v => p.sqlite.compare .eq v (.integer id)) (if_pos (.inl rfl))).trans
    (p.sqlite.compare_integer id' id)

/-- A list of one. -/
theorem eq_singleton {α : Type} {l : List α} {a : α} (hnodup : l.Nodup) (h : ∀ b, b ∈ l ↔ b = a) :
    l = [a] := by
  cases l with
  | nil => exact absurd ((h a).mpr rfl) List.not_mem_nil
  | cons b l =>
    obtain rfl := (h b).mp List.mem_cons_self
    cases l with
    | nil => rfl
    | cons c l =>
      obtain rfl := (h c).mp (List.mem_cons_of_mem _ List.mem_cons_self)
      exact absurd List.mem_cons_self (List.nodup_cons.mp hnodup).1

/-- **A query for the rowid of a blob of the table** goes through its row, if the rowid is a number
of 32 bits, and else through none. -/
theorem selected_rowid (hcovers : Covering p T) {id : BitVec 64} {obj : Object}
    (hdoc : p.doc db T.blobTable id = some obj) (htype : typeOf p obj = some (typeText p T)) :
    selected p T db (some rowidCond) [.integer id]
      = if id.toNat < 2 ^ 32 then [(id, xColumn obj)] else [] := by
  have hfound : ∀ r ∈ selected p T db (some rowidCond) [.integer id],
      r.1 = id ∧ rowOf p T db (id.setWidth 32) = some r := by
    intro r hr
    obtain ⟨hfound, hmeets⟩ := List.mem_filter.mp hr
    rw [meets_rowidCond] at hmeets
    have hid := of_decide_eq_true hmeets
    have hrow := rowOf_of_mem_found p T hfound
    rw [hid] at hrow
    exact ⟨hid, hrow⟩
  by_cases hsmall : id.toNat < 2 ^ 32
  · rw [if_pos hsmall]
    have hwide : (id.setWidth 32).setWidth 64 = id := by
      refine BitVec.eq_of_toNat_eq ?_
      rw [BitVec.toNat_setWidth, BitVec.toNat_setWidth]
      omega
    have hrow : rowOf p T db (id.setWidth 32) = some (id, xColumn obj) := by
      unfold rowOf
      rw [hwide, hdoc]
      rfl
    have hnodup : (selected p T db (some rowidCond) [.integer id]).Nodup :=
      ((found_nodup p T db _).of_map _).filter _
    refine eq_singleton hnodup (fun r => ⟨fun hr => ?_, ?_⟩)
    · exact (Option.some.inj (hrow.symm.trans (hfound r hr).2)).symm
    · rintro rfl
      -- some scan goes through the row
      have hmeets : meets p T (some rowidCond) [.integer id] id (xColumn obj) = true := by
        rw [meets_rowidCond]
        exact decide_eq_true rfl
      obtain ⟨scan, hscan, hadmits⟩ := hcovers _ _ _ _ hmeets
      refine List.mem_filter.mpr ⟨mem_found_of_mem_scanIds p T hscan ?_ hrow, hmeets⟩
      unfold scanIds
      cases hpicked : pickedBy scan with
      | some c =>
        dsimp only
        rw [picked_of_admits p hpicked hadmits]
        exact List.mem_singleton_self _
      | none =>
        refine (mem_typedIds p T).mpr ⟨List.mem_map_of_mem ?_, ?_⟩
        · refine mem_blobIds.mpr ?_
          unfold Platform.doc readBack at hdoc
          cases hblob : db.row T.blobTable id with
          | none =>
            rw [hblob] at hdoc
            cases hdoc
          | some row => rfl
        · rw [hwide]
          exact ⟨obj, hdoc, htype⟩
  · rw [if_neg hsmall]
    refine List.eq_nil_iff_forall_not_mem.mpr (fun r hr => hsmall ?_)
    obtain ⟨hid, hrow⟩ := hfound r hr
    have hfst := rowOf_fst p T hrow
    rw [← hid, hfst, BitVec.toNat_setWidth, BitVec.toNat_setWidth]
    omega

section

variable (hok : ∀ n, db.succeeds n = true) (htable : HasBlobTable db T.blobTable)
include hok htable

/-- **What the query reports.** -/
theorem query_rowid (hcovers : Covering p T) {id : BitVec 64} {obj : Object}
    (hdoc : p.doc db T.blobTable id = some obj) (htype : typeOf p obj = some (typeText p T)) :
    (query p T db [(lit "rowid", .int64 id)] []).1
      = some (if id.toNat < 2 ^ 32 then [report p T [] (id, xColumn obj)] else []) := by
  have hstmt : stmtOf p T db (QueryAction.sql T.name [(lit "rowid", .int64 id)] [] [] 0 0)
      = some (.select [] T.name (some rowidCond)) := by
    refine stmtOf_eq (parse_query_star T.name_isName (parseWhere_rowid id 0)) rfl ?_ rfl
    show List.all [lit "rowid"] (T.table []).declares = true
    rw [List.all_cons, List.all_nil, Bool.and_true]
    exact decide_eq_true (.inl rfl)
  have hvals : paramVals p (QueryAction.sql T.name [(lit "rowid", .int64 id)] [] [] 0 0).2
      = some [.integer id] := rfl
  obtain ⟨calls, hrun⟩ := runSelect_eq p T hok htable
    (QueryAction.sql T.name [(lit "rowid", .int64 id)] [] [] 0 0)
  have hselected := selected_rowid hcovers hdoc htype
  unfold query
  rw [hrun, hstmt, hvals]
  show some (List.map _ (selected p T db (some rowidCond) [.integer id])) = _
  rw [hselected]
  by_cases hsmall : id.toNat < 2 ^ 32
  · rw [if_pos hsmall, if_pos hsmall]
    rfl
  · rw [if_neg hsmall, if_neg hsmall]
    rfl

end

/-! ## The row that is reported -/

variable (p) in
/-- What `xColumn` and `rowToUbj` make of a stored value. -/
def reportedValue (v : Value) : Option Value := columnToUbj p .null (columnVal v)

variable (p) in
/-- A turn of the loop of `rowToUbj`. -/
def addColumn (obj : Object) (column : Bytes × Val) : Object :=
  match columnToUbj p (field obj column.1) column.2 with
  | some v => OrdMap.insert column.1 v obj
  | none => obj

theorem find?_addColumn {obj : Object} {c : Bytes} (hnew : OrdMap.find? obj c = none) (v : Val)
    (k : Bytes) : OrdMap.find? (addColumn p obj (c, v)) k
      = if k = c then columnToUbj p .null v else OrdMap.find? obj k := by
  have hfield : field obj c = .null := by
    unfold field
    rw [hnew]
    rfl
  unfold addColumn
  dsimp only
  rw [hfield]
  cases columnToUbj p .null v with
  | none =>
    by_cases hk : k = c
    · rw [if_pos hk, hk]
      exact hnew
    · rw [if_neg hk]
  | some w =>
    by_cases hk : k = c
    · rw [if_pos hk, hk]
      exact OrdMap.find?_insert_self ..
    · rw [if_neg hk]
      exact OrdMap.find?_insert_of_ne _ _ hk

/-- Each column that has a value is a field of what is reported. -/
theorem find?_addColumns (vals : Bytes → Val) : ∀ (columns : List Bytes) (obj : Object),
    columns.Nodup → (∀ c ∈ columns, OrdMap.find? obj c = none) → ∀ k,
    OrdMap.find? ((columns.map (fun c => (c, vals c))).foldl (addColumn p) obj) k
      = if k ∈ columns then columnToUbj p .null (vals k) else OrdMap.find? obj k
  | [], obj, _, _, k => (if_neg List.not_mem_nil).symm
  | c :: columns, obj, hnodup, hnew, k => by
      obtain ⟨hc, hnodup⟩ := List.nodup_cons.mp hnodup
      have hadd := find?_addColumn (p := p) (hnew c List.mem_cons_self) (vals c)
      have hnew' : ∀ c' ∈ columns, OrdMap.find? (addColumn p obj (c, vals c)) c' = none := by
        intro c' hc'
        have hne : c' ≠ c := by
          rintro rfl
          exact hc hc'
        rw [hadd, if_neg hne]
        exact hnew c' (List.mem_cons_of_mem _ hc')
      rw [List.map_cons, List.foldl_cons, find?_addColumns vals columns _ hnodup hnew' k, hadd]
      by_cases hk : k = c
      · subst hk
        rw [if_neg hc, if_pos rfl, if_pos List.mem_cons_self]
      · by_cases hmem : k ∈ columns
        · rw [if_pos hmem, if_pos (List.mem_cons_of_mem _ hmem)]
        · rw [if_neg hmem, if_neg hk, if_neg (fun h => (List.mem_cons.mp h).elim hk hmem)]

/-- The columns that are reported of an object. -/
theorem find?_report (id : BitVec 64) (obj : Object) {k : Bytes} (hk : k ∈ T.columns) :
    OrdMap.find? (report p T [] (id, xColumn obj)) k
      = (OrdMap.find? obj k).bind (reportedValue p) := by
  have hempty : ¬ T.columns.isEmpty = true :=
    fun h => T.columns_ne_nil (List.isEmpty_iff.mp h)
  have hreport : report p T [] (id, xColumn obj) = rowToUbj p
      (T.columns.map (fun c => (c, (T.table []).value id (xColumn obj) c))) := by
    show rowToUbj p ((T.table []).report T.columns id (xColumn obj)) = _
    unfold Table.report
    rw [if_neg hempty]
    refine congrArg (rowToUbj p) (List.map_congr_left (fun c hc => ?_))
    have hne : c ≠ lit "rowid" := by
      rintro rfl
      exact T.rowid_notMem hc
    have hlabel : (T.table []).label c = c := if_neg hne
    rw [hlabel]
  have hvalue : (T.table []).value id (xColumn obj) k = xColumn obj k := by
    refine if_neg (fun h => T.rowid_notMem ?_)
    rcases h with rfl | rfl
    · exact hk
    · exact hk
  rw [hreport]
  show OrdMap.find? (List.foldl (addColumn p) [] _) k = _
  rw [find?_addColumns _ T.columns [] T.columns_nodup (fun _ _ => rfl), if_pos hk, hvalue]
  unfold xColumn
  cases OrdMap.find? obj k with
  | none => rfl
  | some v => rfl

/-! ## The fields -/

/-- A container that is read as it was written. -/
theorem readsAs_write {v : Value} (h : Document v) (hfuel : fuelOf v ≤ p.fuel) :
    readsAs p (Writer.write v) = v := by
  have hread := read_write h.roundTrip h.root h.depth_le ?_ p.env .null hfuel
  · unfold readsAs Value.read
    rw [hread]
  · rw [collect_eq_encode h.roundTrip h.root (Nat.lt_succ_of_le h.depth_le)]
    exact h.length_lt

/-- A container is reported as what its document is read as. -/
theorem reportedValue_container {v : Value} (h : v.isContainer = true) :
    reportedValue p v = some (readsAs p (Writer.write v)) := by
  cases v with
  | buffer data => rfl
  | array items => rfl
  | object fields => rfl
  | _ => cases h

/-- A double is not reported. -/
theorem columnToUbj_resultDouble (bits : BitVec 64) :
    columnToUbj p .null (resultDouble bits) = none := by
  unfold resultDouble
  split
  · rfl
  · rfl

/-- What a container is stored as is reported as the container, if it is the container. -/
theorem reported_iff_eq {v s : Value} (hv : v.isContainer = true)
    (hs : s.isContainer = true → readsAs p (Writer.write s) = s) :
    (∃ w, reportedValue p s = some w ∧ v.Equal w) ↔ s = v := by
  have hequal : ∀ w, v.Equal w ↔ w = v := by
    intro w
    cases v with
    | buffer data => exact Iff.rfl
    | array items => exact Iff.rfl
    | object fields => exact Iff.rfl
    | _ => cases hv
  simp only [hequal, exists_eq_right]
  by_cases hcontainer : s.isContainer = true
  · rw [reportedValue_container hcontainer, hs hcontainer]
    exact ⟨Option.some.inj, congrArg some⟩
  · -- a leaf is reported as a leaf
    have hleaf : ∀ w, reportedValue p s = some w → w.isContainer = false := by
      intro w hw
      cases s with
      | buffer data => exact absurd rfl hcontainer
      | array items => exact absurd rfl hcontainer
      | object fields => exact absurd rfl hcontainer
      | int32 i => exact Option.some.inj hw ▸ rfl
      | int64 i => exact Option.some.inj hw ▸ rfl
      | string t =>
        obtain rfl := Option.some.inj hw
        unfold Value.ofString
        split
        · rfl
        · rfl
      | float32 bits => cases (columnToUbj_resultDouble (floatToDouble bits)).symm.trans hw
      | float64 bits => cases (columnToUbj_resultDouble bits).symm.trans hw
      | null => cases hw
      | bool b => cases hw
    constructor
    · intro h
      rw [hleaf v h] at hv
      cases hv
    · rintro rfl
      exact absurd hv hcontainer

/-- What is stored for a value that is bound as a blob. -/
theorem storedValue_blob {v : Value} {data : Bytes}
    (h : bindUbj p.behind true v = some (.value (.blob data))) :
    storedValue p v
      = if data.length ≤ p.sqlite.maxLength then some (readsAs p data) else none := by
  unfold storedValue boundVal
  rw [h]
  show storedVal p (if data.length ≤ p.sqlite.maxLength then .blob data else .null) = _
  by_cases hlen : data.length ≤ p.sqlite.maxLength
  · rw [if_pos hlen, if_pos hlen]
    rfl
  · rw [if_neg hlen, if_neg hlen]
    rfl

theorem storedValue_zeroblob {v : Value} {n : Nat}
    (h : bindUbj p.behind true v = some (.zeroblob n)) :
    storedValue p v
      = if n ≤ p.sqlite.maxLength then some (readsAs p (List.replicate n 0)) else none := by
  unfold storedValue boundVal
  rw [h]
  show storedVal p (Option.getD (if _ then _ else _) .null) = _
  by_cases hlen : n ≤ p.sqlite.maxLength
  · rw [if_pos hlen, if_pos hlen]
    rfl
  · rw [if_neg hlen, if_neg hlen]
    rfl

/-- A container that is bound as a blob comes out as it went in if the blob is read as it. -/
theorem keptBlob_iff {v : Value} (hv : v.isContainer = true) {data : Bytes}
    (hstored : storedValue p v
      = if data.length ≤ p.sqlite.maxLength then some (readsAs p data) else none)
    (hread : Reread p v) :
    (∃ w, (storedValue p v).bind (reportedValue p) = some w ∧ v.Equal w) ↔ KeptBlob p data v := by
  unfold KeptBlob
  by_cases hlen : data.length ≤ p.sqlite.maxLength
  · rw [if_pos hlen] at hstored
    rw [hstored, Option.bind_some, reported_iff_eq hv (hread _ hstored)]
    exact ⟨fun h => ⟨hlen, h⟩, And.right⟩
  · rw [if_neg hlen] at hstored
    rw [hstored]
    constructor
    · rintro ⟨w, h, -⟩
      cases h
    · exact fun h => absurd h.1 hlen

/-- **Which values come out as they went in.** -/
theorem kept_iff {v : Value} (hv : Insertable v) (hfuel : fuelOf v ≤ p.fuel)
    (hread : Reread p v) :
    (∃ w, (storedValue p v).bind (reportedValue p) = some w ∧ v.Equal w) ↔ Kept p v := by
  cases v with
  | null => exact hv.elim
  | bool b =>
    refine ⟨fun _ => trivial, fun _ => ⟨_, rfl, ?_⟩⟩
    cases b with
    | true => rfl
    | false => rfl
  | int32 i =>
    refine ⟨fun _ => trivial, fun _ => ⟨_, rfl, ?_⟩⟩
    show some (((i.signExtend 64).toInt : ℚ)) = some (i.toInt : ℚ)
    rw [BitVec.toInt_signExtend_of_le (by decide)]
  | int64 i => exact ⟨fun _ => trivial, fun _ => ⟨_, rfl, rfl⟩⟩
  | float32 bits =>
    constructor
    · rintro ⟨w, h, -⟩
      cases h
    · exact False.elim
  | float64 bits =>
    constructor
    · rintro ⟨w, h, -⟩
      cases h
    · exact False.elim
  | string s =>
    have hstring : Value.ofString (cstr s) = .string s := (ofString_cstr_iff s).mpr hv
    have hs : Value.ofString s = .string s := by
      rw [cstr_of_nulFree hv.2] at hstring
      exact hstring
    refine ⟨fun _ => trivial, fun _ => ⟨.string s, ?_, rfl⟩⟩
    show Option.bind (some (Value.ofString (cstr s))) (reportedValue p) = _
    rw [hstring]
    exact congrArg some hs
  | buffer data =>
    have hne : data.isEmpty = false := by
      rw [List.isEmpty_eq_false_iff]
      exact hv
    have hbind : bindUbj p.behind true (.buffer data) = some (.value (.blob data)) := by
      rw [bindUbj, hne]
      rfl
    exact keptBlob_iff rfl (storedValue_blob hbind) hread
  | array items =>
    refine (keptBlob_iff rfl (storedValue_blob rfl) hread).trans ?_
    exact ⟨And.left, fun h => ⟨h, readsAs_write hv hfuel⟩⟩
  | object fields =>
    unfold Kept
    dsimp only
    cases hzero : OrdMap.find? fields (lit "$zeroBlob") with
    | some size =>
      have hbind : bindUbj p.behind true (.object fields)
          = some (.zeroblob (size.toLong.setWidth 32).toInt.toNat) := by
        rw [bindUbj, hzero]
      have hstored := storedValue_zeroblob hbind
      refine keptBlob_iff rfl ?_ hread
      rw [hstored, List.length_replicate]
    | none =>
      dsimp only
      cases hnull : OrdMap.find? fields (lit "$bindNull") with
      | some one =>
        have hbind : bindUbj p.behind true (.object fields) = some (.value .null) := by
          rw [bindUbj, hzero, hnull]
          rfl
        have hstored : storedValue p (.object fields) = none := by
          unfold storedValue boundVal
          rw [hbind]
          rfl
        rw [hstored]
        constructor
        · rintro ⟨w, h, -⟩
          cases h
        · rintro ⟨h, -⟩
          cases h
      | none =>
        have hbind : bindUbj p.behind true (.object fields)
            = some (.value (.blob (Writer.write (.object fields)))) := by
          rw [bindUbj, hzero, hnull]
          rfl
        refine (keptBlob_iff rfl (storedValue_blob hbind) hread).trans ?_
        exact ⟨fun h => ⟨rfl, h.1⟩, fun h => ⟨h.2, readsAs_write hv hfuel⟩⟩

/-- What is reported for the type of the table. -/
theorem type_iff (v : Value) :
    (∃ w, reportedValue p (.int32 T.type) = some w ∧ v.Equal w)
      ↔ v.number = some (T.type.toInt : ℚ) := by
  have hnumber : (Value.int64 (T.type.signExtend 64)).number = some (T.type.toInt : ℚ) := by
    show some (((T.type.signExtend 64).toInt : ℚ)) = _
    rw [BitVec.toInt_signExtend_of_le (by decide)]
  have hreported : reportedValue p (.int32 T.type) = some (.int64 (T.type.signExtend 64)) := rfl
  rw [hreported]
  simp only [Option.some.injEq, exists_eq_left']
  unfold Value.Equal
  rw [hnumber]
  cases hv : v.number with
  | some x => exact eq_comm
  | none =>
    constructor
    · intro h
      rw [← h, hnumber] at hv
      cases hv
    · intro h
      cases h

section

variable (hok : ∀ n, db.succeeds n = true) (htable : HasBlobTable db T.blobTable)
include hok htable

/-- **When the object is returned**, if its record can be stored. -/
theorem returned_of_storable (hcovers : Covering p T) {obj : Object} (hsorted : OrdMap.Sorted obj)
    (hkeys : ∀ f ∈ obj, f.1 ∈ T.columns) (hvalues : ∀ f ∈ obj, Insertable f.2)
    (hfuel : ∀ f ∈ obj, fuelOf f.2 ≤ p.fuel) (hstorable : Storable p T obj)
    {random : Option SaltBytes} {id : BitVec 64} {db' : Db}
    (hinsert : insert p T random db obj = (id, db')) (hid : id ≠ 0) :
    Returned p T db' id obj ↔ id.toNat < 2 ^ 32 ∧ ∀ f ∈ obj, KeptField p T f := by
  obtain ⟨row, hset, hdoc⟩ := doc_inserted hok htable hstorable.record hkeys hsorted hinsert hid
  have hok' : ∀ n, db'.succeeds n = true := fun n => by rw [hset.succeeds, hok]
  have htype : typeOf p (recordOf p T obj) = some (typeText p T) := by
    unfold typeOf
    rw [find?_recordOf, if_pos rfl]
    rfl
  have hquery := query_rowid hok' hset.blobTable hcovers hdoc htype
  -- field by field
  have hfield : ∀ f ∈ obj,
      (∃ w, OrdMap.find? (report p T [] (id, xColumn (recordOf p T obj))) f.1 = some w
        ∧ f.2.Equal w) ↔ KeptField p T f := by
    intro f hf
    rw [find?_report id _ (hkeys f hf), find?_recordOf]
    unfold KeptField
    by_cases hname : f.1 = lit "_$type"
    · rw [if_pos hname, if_pos hname, Option.bind_some]
      exact type_iff f.2
    · rw [if_neg hname, if_neg hname, if_pos (hkeys f hf), OrdMap.find?_of_mem hsorted hf,
        Option.bind_some]
      exact kept_iff (hvalues f hf) (hfuel f hf) (hstorable.fields f hf)
  unfold Returned
  rw [hquery]
  by_cases hsmall : id.toNat < 2 ^ 32
  · rw [if_pos hsmall]
    constructor
    · rintro ⟨row, hrow, hfields⟩
      obtain rfl := (List.cons.inj (Option.some.inj hrow)).1
      exact ⟨hsmall, fun f hf => (hfield f hf).mp (hfields f hf)⟩
    · rintro ⟨-, hkept⟩
      exact ⟨_, rfl, fun f hf => (hfield f hf).mpr (hkept f hf)⟩
  · rw [if_neg hsmall]
    constructor
    · rintro ⟨row, hrow, -⟩
      cases hrow
    · exact fun h => absurd h.1 hsmall

end

/-! ## Records that can be stored -/

theorem encode_buffer_length {data : Bytes} (h : data.length < 2 ^ 31) :
    (encode (.buffer data)).length < 2 ^ 32 := by
  obtain ⟨l, -, hlength⟩ := @encodeLength_eq data.length (by omega)
  have hwidth : (encodeLength data.length).length ≤ 9 := by
    rw [hlength]
    unfold LengthType.encode
    rw [List.length_cons, beBytes_length]
    cases l <;> decide
  rw [encode]
  split
  · decide
  · simp only [List.length_cons, List.length_append]
    omega

/-- What is kept is stored in the round-trip class. -/
theorem stored_of_kept {v : Value} (hv : Insertable v) (hfuel : fuelOf v ≤ p.fuel) (hkept : Kept p v) :
    ∃ s, storedValue p v = some s ∧ RoundTrip s
      ∧ (s.isContainer = true → readsAs p (Writer.write s) = s) := by
  have hblob : ∀ data, Document v → storedValue p v
      = (if data.length ≤ p.sqlite.maxLength then some (readsAs p data) else none) →
      KeptBlob p data v → ∃ s, storedValue p v = some s ∧ RoundTrip s
        ∧ (s.isContainer = true → readsAs p (Writer.write s) = s) := by
    rintro data hdoc hstored ⟨hlen, hread⟩
    rw [if_pos hlen, hread] at hstored
    exact ⟨v, hstored, hdoc.roundTrip, fun _ => readsAs_write hdoc hfuel⟩
  cases v with
  | null => exact hv.elim
  | bool b => exact ⟨_, rfl, .int64 _, fun h => by cases h⟩
  | int32 i => exact ⟨_, rfl, .int64 _, fun h => by cases h⟩
  | int64 i => exact ⟨_, rfl, .int64 _, fun h => by cases h⟩
  | float32 bits => exact hkept.elim
  | float64 bits => exact hkept.elim
  | string s =>
    refine ⟨.string s, ?_, .string hv, fun h => by cases h⟩
    exact congrArg some ((ofString_cstr_iff s).mpr hv)
  | buffer data =>
    have hne : data.isEmpty = false := by
      rw [List.isEmpty_eq_false_iff]
      exact hv
    have hbind : bindUbj p.behind true (.buffer data) = some (.value (.blob data)) := by
      rw [bindUbj, hne]
      rfl
    have hlen : data.length < 2 ^ 31 := Nat.lt_of_le_of_lt hkept.1 p.sqlite.maxLength_lt
    have hdepth : depth (.buffer data) ≤ 63 := by
      rw [depth]
      omega
    exact hblob data ⟨.buffer hv, rfl, hdepth, encode_buffer_length hlen⟩ (storedValue_blob hbind)
      hkept
  | array items =>
    exact hblob _ hv (storedValue_blob rfl) ⟨hkept, readsAs_write hv hfuel⟩
  | object fields =>
    unfold Kept at hkept
    dsimp only at hkept
    cases hzero : OrdMap.find? fields (lit "$zeroBlob") with
    | some size =>
      rw [hzero] at hkept
      have hbind : bindUbj p.behind true (.object fields)
          = some (.zeroblob (size.toLong.setWidth 32).toInt.toNat) := by
        rw [bindUbj, hzero]
      refine hblob _ hv ?_ hkept
      rw [storedValue_zeroblob hbind, List.length_replicate]
    | none =>
      rw [hzero] at hkept
      have hbind : bindUbj p.behind true (.object fields)
          = some (.value (.blob (Writer.write (.object fields)))) := by
        rw [bindUbj, hzero, hkept.1]
        rfl
      exact hblob _ hv (storedValue_blob hbind) ⟨hkept.2, readsAs_write hv hfuel⟩

/-- A name is a key that the format carries. -/
theorem carried_of_isName {w : Bytes} (h : isName w = true) : Carried w := by
  refine ⟨ne_nil_of_isName h, fun b hb hzero => ?_⟩
  have hchar := wordChars_of_isName h b hb
  rw [hzero] at hchar
  exact absurd hchar (by decide)

/-- **A document can be a record**, if it is not too long. -/
theorem recorded_of_document {record : Object} (h : Document (.object record))
    (hlen : (encode (.object record)).length ≤ p.sqlite.maxLength)
    (hfuel : fuelOf (.object record) ≤ p.fuel) : Recorded p record := by
  have hcollect := collect_eq_encode h.roundTrip rfl (Nat.lt_succ_of_le h.depth_le)
  have hlen' : (Writer.collect (.object record)).length < 2 ^ 32 := by
    rw [hcollect]
    exact h.length_lt
  obtain ⟨hwrite, -⟩ := write_eq_encode h.roundTrip rfl h.depth_le hlen'
  constructor
  · rw [hwrite]
    exact hlen
  · unfold Platform.readObject Value.read
    rw [read_write h.roundTrip rfl h.depth_le hlen' p.env .null hfuel]
    rfl

/-- **If all fields are kept, the record can be stored**, unless it is too deep or too long. -/
theorem storable_of_kept {obj : Object} (hvalues : ∀ f ∈ obj, Insertable f.2)
    (hfuel : ∀ f ∈ obj, fuelOf f.2 ≤ p.fuel) (hkept : ∀ f ∈ obj, KeptField p T f)
    (hdepth : depth (.object (recordOf p T obj)) ≤ 63)
    (hlen : (encode (.object (recordOf p T obj))).length ≤ p.sqlite.maxLength)
    (hrecord : fuelOf (.object (recordOf p T obj)) ≤ p.fuel) : Storable p T obj := by
  have hstored : ∀ f ∈ obj, f.1 ≠ lit "_$type" → ∃ s, storedValue p f.2 = some s ∧ RoundTrip s
      ∧ (s.isContainer = true → readsAs p (Writer.write s) = s) := by
    intro f hf hname
    have hfield := hkept f hf
    unfold KeptField at hfield
    rw [if_neg hname] at hfield
    exact stored_of_kept (hvalues f hf) (hfuel f hf) hfield
  have hfields : RoundTripFields (recordOf p T obj) := by
    refine roundTripFields_of_forall (fun f hf => ?_)
    have hfind := OrdMap.find?_of_mem (sorted_recordOf p T obj) hf
    rw [find?_recordOf] at hfind
    by_cases hname : f.1 = lit "_$type"
    · rw [if_pos hname] at hfind
      rw [hname, ← Option.some.inj hfind]
      exact ⟨by unfold Carried; decide, .int32 _⟩
    · rw [if_neg hname] at hfind
      by_cases hcolumn : f.1 ∈ T.columns
      · rw [if_pos hcolumn] at hfind
        obtain ⟨v, hv, hs⟩ := Option.bind_eq_some_iff.mp hfind
        obtain ⟨s, hs', hround, -⟩ := hstored (f.1, v) (OrdMap.mem_of_find? hv) hname
        obtain rfl := Option.some.inj (hs'.symm.trans hs)
        exact ⟨carried_of_isName (T.columns_isName _ hcolumn), hround⟩
      · rw [if_neg hcolumn] at hfind
        cases hfind
  have hdoc : Document (.object (recordOf p T obj)) :=
    ⟨.object (sorted_recordOf p T obj) hfields, rfl, hdepth, Nat.lt_of_le_of_lt hlen
      (Nat.lt_trans p.sqlite.maxLength_lt (by decide))⟩
  refine ⟨recorded_of_document hdoc hlen hrecord, ?_⟩
  intro f hf v hv hcontainer
  by_cases hname : f.1 = lit "_$type"
  · -- a number is not stored as a container
    have hfield := hkept f hf
    unfold KeptField at hfield
    rw [if_pos hname] at hfield
    generalize f.2 = w at hv hfield
    cases w with
    | bool b => exact absurd hcontainer (Option.some.inj hv ▸ Bool.false_ne_true)
    | int32 i => exact absurd hcontainer (Option.some.inj hv ▸ Bool.false_ne_true)
    | int64 i => exact absurd hcontainer (Option.some.inj hv ▸ Bool.false_ne_true)
    | float32 bits => cases hv
    | float64 bits => cases hv
    | _ => cases hfield
  · obtain ⟨s, hs, -, hread⟩ := hstored f hf hname
    obtain rfl := Option.some.inj (hs.symm.trans hv)
    exact hread hcontainer

/-- **Which objects come back as they were inserted.** The condition is enough, and it is needed as
far as the record is read as it was written. -/
theorem returned_iff (hok : ∀ n, db.succeeds n = true) (htable : HasBlobTable db T.blobTable)
    (hcovers : Covering p T) {obj : Object} (hsorted : OrdMap.Sorted obj)
    (hkeys : ∀ f ∈ obj, f.1 ∈ T.columns) (hvalues : ∀ f ∈ obj, Insertable f.2)
    (hfuel : ∀ f ∈ obj, fuelOf f.2 ≤ p.fuel)
    (hrecord : fuelOf (.object (recordOf p T obj)) ≤ p.fuel)
    {random : Option SaltBytes} {id : BitVec 64} {db' : Db}
    (hinsert : insert p T random db obj = (id, db')) (hid : id ≠ 0) :
    (ComesBack p T id obj → Returned p T db' id obj)
      ∧ (Storable p T obj →
        (Returned p T db' id obj ↔ id.toNat < 2 ^ 32 ∧ ∀ f ∈ obj, KeptField p T f)) := by
  have hiff : Storable p T obj →
      (Returned p T db' id obj ↔ id.toNat < 2 ^ 32 ∧ ∀ f ∈ obj, KeptField p T f) :=
    fun hstorable => returned_of_storable hok htable hcovers hsorted hkeys hvalues hfuel hstorable
      hinsert hid
  refine ⟨fun h => ?_, hiff⟩
  have hstorable := storable_of_kept hvalues hfuel h.fields h.depth_le h.length_le hrecord
  exact (hiff hstorable).mpr ⟨h.rowid_lt, h.fields⟩

/-- A platform on which the parser can go a little deeper. -/
def deep : Platform := { Platform.plain with fuel := 44 }

/-- What an insertion into a table without blobs does. -/
def insertedInto (obj : Object) : BitVec 64 × Db :=
  insert deep (names 1) (some ⟨List.replicate 12 7, rfl⟩) (blobsDb []) obj

/-- `{"name": "a"}` -/
def nameA : Object := [(lit "name", .string (lit "a"))]

theorem returned_iff_name :
    (ComesBack deep (names 1) (insertedInto nameA).1 nameA →
        Returned deep (names 1) (insertedInto nameA).2 (insertedInto nameA).1 nameA)
      ∧ (Storable deep (names 1) nameA →
        (Returned deep (names 1) (insertedInto nameA).2 (insertedInto nameA).1 nameA
          ↔ (insertedInto nameA).1.toNat < 2 ^ 32
            ∧ ∀ f ∈ nameA, KeptField deep (names 1) f)) := by
  have hf : ∀ f ∈ nameA, f = (lit "name", .string (lit "a")) := fun f hf => List.mem_singleton.mp hf
  have hid : (insertedInto nameA).1 ≠ 0 := by decide +kernel
  have hinsert : insert deep (names 1) (some ⟨List.replicate 12 7, rfl⟩) (blobsDb []) nameA
      = insertedInto nameA := rfl
  generalize insertedInto nameA = r at hid hinsert ⊢
  obtain ⟨id, db'⟩ := r
  refine returned_iff (fun _ => rfl) (blobsDb_hasBlobTable _) (covering_rowidPlan _ _ rfl)
    (List.pairwise_singleton _ _) ?_ ?_ ?_ (by decide +kernel) hinsert hid
  · intro f h
    rw [hf f h]
    exact List.mem_singleton_self _
  · intro f h
    rw [hf f h]
    show Carried (lit "a")
    unfold Carried
    decide
  · intro f h
    rw [hf f h]
    decide

/-- `{"name": 1.5}` -/
def nameFloat : Object := [(lit "name", .float64 0x3FF8000000000000#64)]

/-- **A float does not come back.** -/
theorem not_returned : (insertedInto nameFloat).1 = 1
    ∧ ¬ Returned deep (names 1) (insertedInto nameFloat).2 (insertedInto nameFloat).1 nameFloat := by
  have hf : ∀ f ∈ nameFloat, f = (lit "name", .float64 0x3FF8000000000000#64) :=
    fun f hf => List.mem_singleton.mp hf
  have hid : (insertedInto nameFloat).1 = 1 := by decide +kernel
  refine ⟨hid, fun h => ?_⟩
  have hstorable : Storable deep (names 1) nameFloat := by
    refine ⟨⟨by decide +kernel, rfl⟩, ?_⟩
    · intro f h v hv
      rw [hf f h] at hv
      cases hv
  have hinsert : insert deep (names 1) (some ⟨List.replicate 12 7, rfl⟩) (blobsDb []) nameFloat
      = insertedInto nameFloat := rfl
  generalize insertedInto nameFloat = r at hid hinsert h
  obtain ⟨id, db'⟩ := r
  obtain rfl : id = 1 := hid
  have hiff := @returned_of_storable deep (names 1) (blobsDb []) (fun _ => rfl)
    (blobsDb_hasBlobTable _) (covering_rowidPlan _ _ rfl) nameFloat (List.pairwise_singleton _ _)
    (fun f h => by rw [hf f h]; exact List.mem_singleton_self _)
    (fun f h => by rw [hf f h]; trivial) (fun f h => by rw [hf f h]; decide) hstorable _ _ _
    hinsert (by decide)
  have hkept := (hiff.mp h).2 _ List.mem_cons_self
  unfold KeptField at hkept
  rw [if_neg (by decide)] at hkept
  exact hkept

end Store.VirtualTable

end Zway.Ubj
