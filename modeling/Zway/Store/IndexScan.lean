import Zway.Lib.Select
import Zway.Store.Indexes

/-!
# A scan with an index

With `idxNum` at a column, `xFilter` goes through the keys of the column's index. The keys are texts.
For an integer they are to be compared as numbers, but what `toInt` makes of a text is always zero:
so it is zero that is compared with the integer, and either all keys are taken or none. If none are,
the entry of the constant's own text is taken, whatever the operator is, and only if there is no such
entry the scan goes through all ids.

`included_iff` says when no row is missed by this.
-/

namespace Zway.Ubj.Store.VirtualTable

open Sql

def SQLITE_INDEX_CONSTRAINT_GT : Nat := 4

def SQLITE_INDEX_CONSTRAINT_LE : Nat := 8

def SQLITE_INDEX_CONSTRAINT_LT : Nat := 16

def SQLITE_INDEX_CONSTRAINT_GE : Nat := 32

def SQLITE_INDEX_CONSTRAINT_MATCH : Nat := 64

def SQLITE_INDEX_CONSTRAINT_LIKE : Nat := 65

def SQLITE_INDEX_CONSTRAINT_GLOB : Nat := 66

def SQLITE_INDEX_CONSTRAINT_REGEXP : Nat := 67

section

variable (p : Platform) (T : VirtualTable)

/-- The loop of `VirtualTableModule::createIndexes`. -/
def createIndexesLoop (ids : List Value) : List Bytes → Object → Db → Object × Db
  | [], indexes, db => (indexes, db)
  | column :: columns, indexes, db =>
      match OrdMap.find? indexes column with
      | some _ => createIndexesLoop ids columns indexes db
      | none =>
          let index := createIndex p T column ids db
          createIndexesLoop ids columns (OrdMap.insert column (.object index.1) indexes) index.2

/-- `VirtualTableModule::createIndexes`. -/
def createIndexes (indexes : Object) (ids : List Value) (db : Db) : Object × Db :=
  createIndexesLoop p T ids T.columns indexes db

/-- How `xFilter` compares a key with an integer: an `int` with a `uint64_t`. -/
def hitsInteger (op : Nat) (value : BitVec 64) (key : Bytes) : Bool :=
  let val := (Value.ofString key).toInt.signExtend 64
  (op == SQLITE_INDEX_CONSTRAINT_EQ && val == value)
    || (op == SQLITE_INDEX_CONSTRAINT_GT && value.ult val)
    || (op == SQLITE_INDEX_CONSTRAINT_LE && val.ule value)
    || (op == SQLITE_INDEX_CONSTRAINT_LT && val.ult value)
    || (op == SQLITE_INDEX_CONSTRAINT_GE && value.ule val)

/-- How it compares a key with a text. -/
def hitsText (op : Nat) (value key : Bytes) : Bool :=
  (op == SQLITE_INDEX_CONSTRAINT_EQ && key == value)
    || (op == SQLITE_INDEX_CONSTRAINT_GT && decide (value < key))
    || (op == SQLITE_INDEX_CONSTRAINT_LE && !decide (value < key))
    || (op == SQLITE_INDEX_CONSTRAINT_LT && decide (key < value))
    || (op == SQLITE_INDEX_CONSTRAINT_GE && !decide (key < value))

/-- The ids of the keys that hit; if there are none, those of another key. -/
def hitIds (index : Object) (hits : Bytes → Bool) (key : Bytes) : List Value :=
  let ids := index.flatMap (fun v => if hits v.1 then toArray v.2 else [])
  if ids.isEmpty then toArray (field index key) else ids

/-- The ids that `VirtualTableModule::xFilter` goes through with `idxNum` at a column. -/
def columnIds (indexes : Object) (mIds : List Value) (idxNum op : Nat) (arg : Val) : List Value :=
  let index := (field indexes (T.columns.getD (idxNum - 1) [])).toObject
  let ids :=
    match arg with
    | .integer value => hitIds index (hitsInteger op value) ((Value.int64 value).toStr p.printed)
    | .text s =>
        if op = SQLITE_INDEX_CONSTRAINT_MATCH ∨ op = SQLITE_INDEX_CONSTRAINT_LIKE
            ∨ op = SQLITE_INDEX_CONSTRAINT_GLOB ∨ op = SQLITE_INDEX_CONSTRAINT_REGEXP then []
        else hitIds index (hitsText op (cstr s)) (cstr s)
    | _ => []
  if ids.isEmpty then mIds else ids

end

/-! ## What is said of it -/

/-- The operators that an index is for. -/
inductive IndexOp where
  | eq
  | gt
  | le
  | lt
  | ge
  deriving Repr, DecidableEq

/-- The number in `idxStr`. -/
def IndexOp.code : IndexOp → Nat
  | eq => SQLITE_INDEX_CONSTRAINT_EQ
  | gt => SQLITE_INDEX_CONSTRAINT_GT
  | le => SQLITE_INDEX_CONSTRAINT_LE
  | lt => SQLITE_INDEX_CONSTRAINT_LT
  | ge => SQLITE_INDEX_CONSTRAINT_GE

def IndexOp.cmp : IndexOp → CmpOp
  | eq => .eq
  | gt => .gt
  | le => .le
  | lt => .lt
  | ge => .ge

/-- The operator, on whether the one is less than the other, and whether they are equal. -/
def IndexOp.test (less equal : Bool) : IndexOp → Bool
  | eq => equal
  | gt => !less && !equal
  | le => less || equal
  | lt => less
  | ge => !less

/-- What is compared with. -/
inductive Constant where
  | integer (value : BitVec 64)
  | text (s : Bytes)
  deriving Repr, DecidableEq

def Constant.val : Constant → Val
  | integer value => .integer value
  | text s => .text s

/-- **A value satisfies the constraint.** Integers are compared as integers, and texts byte by byte;
nothing holds of NULL. The rest is up to SQLite. -/
def IndexOp.holds (sqlite : Behaviour) (op : IndexOp) (v : Val) (c : Constant) : Bool :=
  match v, c with
  | .null, _ => false
  | .integer i, .integer value => op.test (i.slt value) (i == value)
  | .text s, .text t => op.test (decide (s < t)) (s == t)
  | v, c => sqlite.compare op.cmp v c.val

section

variable (p : Platform)

/-- The keys that hit. -/
def hits (op : IndexOp) : Constant → Bytes → Bool
  | .integer value, key => hitsInteger op.code value key
  | .text s, key => hitsText op.code (cstr s) key

/-- The text of the constant, as `xFilter` has it. -/
def textIn : Constant → Bytes
  | .integer value => (Value.int64 value).toStr p.printed
  | .text s => cstr s

/-- A record that satisfies the constraint. -/
def Satisfies (record : BitVec 32 → Option Object) (column : Bytes) (op : IndexOp) (c : Constant)
    (id : BitVec 32) : Prop :=
  ∃ obj, record id = some obj ∧ op.holds p.sqlite (xColumn obj column) c = true

/-- A record whose key hits. -/
def Hit (record : BitVec 32 → Option Object) (column : Bytes) (op : IndexOp) (c : Constant)
    (id : BitVec 32) : Prop :=
  ∃ s, textOf p record column id = some s ∧ hits op c s = true

/-- **When nothing is missed**: if some key hits, then that of every record that satisfies the
constraint does; if none hits, but a record has the text of the constant, then all of these have. -/
structure Covered (record : BitVec 32 → Option Object) (column : Bytes) (op : IndexOp) (c : Constant)
    (ids : List (BitVec 32)) : Prop where
  hit : (∃ id ∈ ids, Hit p record column op c id) →
    ∀ id ∈ ids, Satisfies p record column op c id → Hit p record column op c id
  own : (¬ ∃ id ∈ ids, Hit p record column op c id) →
    (∃ id ∈ ids, textOf p record column id = some (textIn p c)) →
    ∀ id ∈ ids, Satisfies p record column op c id → textOf p record column id = some (textIn p c)

variable (T : VirtualTable)

/-- **No row is missed**: what the scan of all ids finds, and what satisfies the constraint, is found
with the index, too. -/
def Included (indexes : Object) (mIds : List Value) (db : Db) (idxNum : Nat) (op : IndexOp)
    (c : Constant) : Prop :=
  ∀ r ∈ (filterRows p T mIds db).1,
    op.holds p.sqlite (xColumn r.2 (T.columns.getD (idxNum - 1) [])) c = true →
      r ∈ (filterRows p T (columnIds p T indexes mIds idxNum op.code c.val) db).1

end

/-! ## What an index is used for -/

variable {p : Platform} {T : VirtualTable} {record : BitVec 32 → Option Object}
  {all : List (BitVec 64)} {Same : Db → Prop}

/-- `m_indexes` has an index for each column. -/
theorem Answers.createIndexesLoop (h : Answers p T record all Same) {ids : List Value} :
    ∀ {columns : List Bytes} {indexes : Object} {db : Db}, Same db →
      (∀ column v, OrdMap.find? indexes column = some v →
        ∃ db', Same db' ∧ v = .object (VirtualTable.createIndex p T column ids db').1) →
      ∀ column, (column ∈ columns ∨ (OrdMap.find? indexes column).isSome) →
        ∃ db', Same db' ∧ OrdMap.find? (VirtualTable.createIndexesLoop p T ids columns indexes db).1 column
          = some (.object (VirtualTable.createIndex p T column ids db').1)
  | [], indexes, db, hdb, hindexes, column, hcolumn => by
      rcases hcolumn with hnil | hsome
      · cases hnil
      · obtain ⟨v, hv⟩ := Option.isSome_iff_exists.mp hsome
        obtain ⟨db', hdb', rfl⟩ := hindexes column v hv
        exact ⟨db', hdb', hv⟩
  | c :: columns, indexes, db, hdb, hindexes, column, hcolumn => by
      rw [VirtualTable.createIndexesLoop]
      cases hfind : OrdMap.find? indexes c with
      | some v =>
        refine h.createIndexesLoop hdb hindexes column ?_
        rcases hcolumn with hmem | hsome
        · rcases List.mem_cons.mp hmem with rfl | hmem
          · rw [hfind]
            exact .inr rfl
          · exact .inl hmem
        · exact .inr hsome
      | none =>
        have hdb' := (@Answers.createIndex p T record all Same h c [] ids db hdb).2
        refine h.createIndexesLoop hdb' ?_ column ?_
        · intro column' v hv
          by_cases hsame : column' = c
          · subst hsame
            rw [OrdMap.find?_insert_self] at hv
            exact ⟨db, hdb, (Option.some.inj hv).symm⟩
          · rw [OrdMap.find?_insert_of_ne _ _ hsame] at hv
            exact hindexes column' v hv
        · rcases hcolumn with hmem | hsome
          · rcases List.mem_cons.mp hmem with rfl | hmem
            · rw [OrdMap.find?_insert_self]
              exact .inr rfl
            · exact .inl hmem
          · refine .inr ?_
            by_cases hsame : column = c
            · subst hsame
              rw [OrdMap.find?_insert_self]
              rfl
            · rw [OrdMap.find?_insert_of_ne _ _ hsame]
              exact hsome

/-- The index that `xFilter` looks into. -/
theorem Answers.index (h : Answers p T record all Same) {ids : List Value} {db : Db} (hdb : Same db)
    {column : Bytes} (hcolumn : column ∈ T.columns) :
    ∃ db', Same db' ∧ (field (VirtualTable.createIndexes p T [] ids db).1 column).toObject
      = (VirtualTable.createIndex p T column ids db').1 := by
  have hempty : ∀ column v, OrdMap.find? ([] : Object) column = some v →
      ∃ db', Same db' ∧ v = .object (VirtualTable.createIndex p T column ids db').1 := by
    intro column v hv
    cases hv
  obtain ⟨db', hdb', hfind⟩ := h.createIndexesLoop hdb hempty column (.inl hcolumn)
  refine ⟨db', hdb', ?_⟩
  unfold field createIndexes
  rw [hfind]
  rfl

section

variable (h : Answers p T record all Same) {ids : List Value} (hids : ids ≠ []) {db : Db}
  (hdb : Same db) (column : Bytes)
include h hids hdb

/-- The ids of an entry. -/
theorem Answers.entry_of_ids (s : Bytes) :
    OrdMap.find? (VirtualTable.createIndex p T column ids db).1 s
      = if (idsOf p record column s (ids.map Value.toInt)).isEmpty then none
        else some (.array ((idsOf p record column s (ids.map Value.toInt)).map .int32)) := by
  have hentry := h.entry hdb column s ids
  unfold indexed at hentry
  rwa [if_neg (fun hnil => hids (List.isEmpty_iff.mp hnil))] at hentry

/-- The ids of the keys that hit. -/
theorem Answers.mem_hits (hits : Bytes → Bool) (id : BitVec 32) :
    id ∈ ((VirtualTable.createIndex p T column ids db).1.flatMap
        (fun v => if hits v.1 then toArray v.2 else [])).map Value.toInt
      ↔ id ∈ ids.map Value.toInt ∧ ∃ s, textOf p record column id = some s ∧ hits s = true := by
  rw [List.mem_map]
  constructor
  · rintro ⟨x, hx, rfl⟩
    obtain ⟨v, hv, hx⟩ := List.mem_flatMap.mp hx
    by_cases hhit : hits v.1 = true
    · rw [if_pos hhit] at hx
      have hfind := OrdMap.find?_of_mem (sorted_createIndex column ids db) hv
      rw [h.entry_of_ids hids hdb column v.1] at hfind
      split at hfind
      · cases hfind
      · rw [← Option.some.inj hfind] at hx
        obtain ⟨i, hi, rfl⟩ := List.mem_map.mp hx
        obtain ⟨hmem, htext⟩ := mem_idsOf.mp hi
        exact ⟨hmem, v.1, htext, hhit⟩
    · rw [if_neg hhit] at hx
      cases hx
  · rintro ⟨hmem, s, htext, hhit⟩
    have hi : id ∈ idsOf p record column s (ids.map Value.toInt) := mem_idsOf.mpr ⟨hmem, htext⟩
    have hfind := h.entry_of_ids hids hdb column s
    rw [if_neg (fun hnil => List.ne_nil_of_mem hi (List.isEmpty_iff.mp hnil))] at hfind
    refine ⟨.int32 id, List.mem_flatMap.mpr ⟨_, OrdMap.mem_of_find? hfind, ?_⟩, rfl⟩
    dsimp only
    rw [if_pos hhit]
    exact List.mem_map_of_mem hi

/-- The ids of one key. -/
theorem Answers.mem_own (key : Bytes) (id : BitVec 32) :
    id ∈ (toArray (field (VirtualTable.createIndex p T column ids db).1 key)).map Value.toInt
      ↔ id ∈ ids.map Value.toInt ∧ textOf p record column id = some key := by
  have hlists : Lists (VirtualTable.createIndex p T column ids db).1 key
      (idsOf p record column key (ids.map Value.toInt)) := h.entry_of_ids hids hdb column key
  rw [hlists.toArray, List.map_map, ← mem_idsOf]
  exact iff_of_eq (congrArg (id ∈ ·) (List.map_id _))

end

/-- `xFilter` looks up both kinds of constants in the same way. -/
theorem columnIds_eq (indexes : Object) (mIds : List Value) (idxNum : Nat) (op : IndexOp)
    (c : Constant) :
    columnIds p T indexes mIds idxNum op.code c.val
      = if (hitIds (field indexes (T.columns.getD (idxNum - 1) [])).toObject (hits op c)
            (textIn p c)).isEmpty then mIds
        else hitIds (field indexes (T.columns.getD (idxNum - 1) [])).toObject (hits op c)
          (textIn p c) := by
  cases c with
  | integer value => rfl
  | text s =>
    have hop : ¬ (op.code = SQLITE_INDEX_CONSTRAINT_MATCH ∨ op.code = SQLITE_INDEX_CONSTRAINT_LIKE
        ∨ op.code = SQLITE_INDEX_CONSTRAINT_GLOB ∨ op.code = SQLITE_INDEX_CONSTRAINT_REGEXP) := by
      cases op <;> decide
    unfold columnIds Constant.val
    dsimp only
    rw [if_neg hop]
    rfl

/-! ## Columns of integers and of texts -/

/-- Numbers are written apart. -/
theorem decimal_inj {i j : Int} (h : lit (toString i) = lit (toString j)) : i = j := by
  have hsign : ∀ n m : Nat, lit n.repr ≠ lit ("-" ++ m.repr) := by
    intro n m he
    have hminus : (0x2D : UInt8) ∈ lit n.repr := by
      rw [he]
      unfold lit
      rw [String.toList_append]
      exact List.mem_map_of_mem (f := fun c : Char => c.toNat.toUInt8)
        (List.mem_append_left _ (List.mem_singleton_self '-'))
    exact absurd (digit_of_mem_repr hminus).1 (by decide)
  have hnat : ∀ n m : Nat, lit n.repr = lit m.repr → n = m := by
    intro n m he
    have hnumber := congrArg number he
    rw [number_repr, number_repr] at hnumber
    exact Option.some.inj hnumber
  cases i with
  | ofNat n =>
    cases j with
    | ofNat m => exact congrArg Int.ofNat (hnat n m h)
    | negSucc m => exact absurd h (hsign n (m + 1))
  | negSucc n =>
    cases j with
    | ofNat m => exact absurd h.symm (hsign m (n + 1))
    | negSucc m =>
      have hrepr : lit ("-" ++ (n + 1).repr) = lit ("-" ++ (m + 1).repr) := h
      unfold lit at hrepr
      rw [String.toList_append, String.toList_append, List.map_append, List.map_append] at hrepr
      have hnext := hnat (n + 1) (m + 1) (List.append_cancel_left hrepr)
      rw [Nat.succ.inj hnext]

/-- What a key is compared with an integer as: zero. -/
theorem hitsInteger_eq (op : IndexOp) (value : BitVec 64) (key : Bytes) :
    hitsInteger op.code value key = op.test (decide (value ≠ 0)) (decide (value = 0)) := by
  have hzero : (Value.ofString key).toInt = 0 := by
    unfold Value.ofString
    cases key.isEmpty with
    | true => rfl
    | false => rfl
  unfold hitsInteger
  rw [hzero]
  by_cases hvalue : value = 0
  · subst hvalue
    cases op <;> rfl
  · have hpos : 0 < value.toNat := by
      have hne : value.toNat ≠ (0 : BitVec 64).toNat := fun he => hvalue (BitVec.eq_of_toNat_eq he)
      exact Nat.pos_of_ne_zero hne
    have hless : (0 : BitVec 64).ult value = true := decide_eq_true hpos
    have hnot : value.ult (0 : BitVec 64) = false := decide_eq_false (Nat.not_lt_zero _)
    have hle : (0 : BitVec 64).ule value = true := decide_eq_true (Nat.zero_le _)
    have hnle : value.ule (0 : BitVec 64) = false := decide_eq_false (Nat.not_le.mpr hpos)
    have hne : ((0 : BitVec 64) == value) = false := beq_eq_false_iff_ne.mpr (Ne.symm hvalue)
    have hext : BitVec.signExtend 64 (0 : BitVec 32) = 0 := rfl
    dsimp only
    rw [hext, hless, hnot, hle, hnle, hne, decide_eq_true hvalue, decide_eq_false hvalue]
    cases op <;> rfl

/-- How a key is compared with a text. -/
theorem hitsText_eq (op : IndexOp) (value key : Bytes) :
    hitsText op.code value key = op.test (decide (key < value)) (key == value) := by
  unfold hitsText
  rcases trichotomous_of (fun a b : Bytes => a < b) key value with hless | rfl | hgreater
  · have hne : (key == value) = false := beq_eq_false_iff_ne.mpr (fun he => irrefl value (he ▸ hless))
    rw [decide_eq_true hless, decide_eq_false (asymm hless), hne]
    cases op <;> rfl
  · rw [decide_eq_false (irrefl key), beq_self_eq_true]
    cases op <;> rfl
  · have hne : (key == value) = false := beq_eq_false_iff_ne.mpr (fun he => irrefl value (he ▸ hgreater))
    rw [decide_eq_true hgreater, decide_eq_false (asymm hgreater), hne]
    cases op <;> rfl

/-- The column is one of integers in these records. -/
def IntegerColumn (record : BitVec 32 → Option Object) (column : Bytes) (ids : List (BitVec 32)) : Prop :=
  ∀ id ∈ ids, ∀ v, (record id).bind (OrdMap.find? · column) = some v →
    (∃ i, v = .int32 i) ∨ ∃ i, v = .int64 i

/-- The column is one of texts. -/
def TextColumn (record : BitVec 32 → Option Object) (column : Bytes) (ids : List (BitVec 32)) : Prop :=
  ∀ id ∈ ids, ∀ v, (record id).bind (OrdMap.find? · column) = some v → ∃ s, v = .string s

/-- The integer in a column of a record. -/
def HasInteger (record : BitVec 32 → Option Object) (column : Bytes) (i : BitVec 64) (id : BitVec 32) :
    Prop :=
  ∃ v, (record id).bind (OrdMap.find? · column) = some v ∧ columnVal v = .integer i

section

variable {column : Bytes} {ids : List (BitVec 32)} (op : IndexOp)

/-- A record satisfies a constraint with the value of its column. -/
theorem satisfies_iff {c : Constant} {id : BitVec 32} :
    Satisfies p record column op c id
      ↔ ∃ v, (record id).bind (OrdMap.find? · column) = some v
        ∧ op.holds p.sqlite (columnVal v) c = true := by
  unfold Satisfies xColumn
  cases record id with
  | none =>
    constructor
    · rintro ⟨obj, hobj, -⟩
      cases hobj
    · rintro ⟨v, hv, -⟩
      cases hv
  | some obj =>
    rw [Option.bind_some]
    constructor
    · rintro ⟨obj', hobj, hholds⟩
      obtain rfl := Option.some.inj hobj
      cases hfind : OrdMap.find? obj column with
      | none =>
        rw [hfind] at hholds
        cases hholds
      | some v =>
        rw [hfind] at hholds
        exact ⟨v, rfl, hholds⟩
    · rintro ⟨v, hv, hholds⟩
      refine ⟨obj, rfl, ?_⟩
      rw [hv]
      exact hholds

/-- **Integers are missed** just if an operator that does not hit all keys, that is one that does not
hold of zero, meets a record with the constant itself and another one that satisfies the
constraint. -/
theorem covered_integer_iff (hcolumn : IntegerColumn record column ids) (value : BitVec 64) :
    Covered p record column op (.integer value) ids
      ↔ op.test (decide (value ≠ 0)) (decide (value = 0)) = true
        ∨ ((∃ id ∈ ids, HasInteger record column value id) →
          ∀ id ∈ ids, ∀ i, HasInteger record column i id →
            op.test (i.slt value) (i == value) = true → i = value) := by
  -- the text of a value is that of its integer
  have htext : ∀ id ∈ ids, ∀ v, (record id).bind (OrdMap.find? · column) = some v →
      ∃ i : BitVec 64, columnVal v = .integer i
        ∧ textOf p record column id = some (lit (toString i.toInt)) := by
    intro id hid v hv
    have hof : textOf p record column id = some (v.toStr p.printed) := by
      unfold textOf
      rw [hv]
      rfl
    rcases hcolumn id hid v hv with ⟨i, rfl⟩ | ⟨i, rfl⟩
    · refine ⟨i.signExtend 64, rfl, ?_⟩
      rw [hof, BitVec.toInt_signExtend_of_le (by decide)]
      rfl
    · exact ⟨i, rfl, hof⟩
  have hhas : ∀ id ∈ ids, ∀ i : BitVec 64, HasInteger record column i id
      ↔ textOf p record column id = some (lit (toString i.toInt)) := by
    intro id hid i
    constructor
    · rintro ⟨v, hv, hcol⟩
      obtain ⟨j, hj, hjtext⟩ := htext id hid v hv
      rw [hcol] at hj
      rw [hjtext, Val.integer.inj hj]
    · intro h
      have hsome : ∃ v, (record id).bind (OrdMap.find? · column) = some v := by
        unfold textOf at h
        obtain ⟨v, hv, -⟩ := Option.map_eq_some_iff.mp h
        exact ⟨v, hv⟩
      obtain ⟨v, hv⟩ := hsome
      obtain ⟨j, hj, hjtext⟩ := htext id hid v hv
      rw [hjtext] at h
      have hij := decimal_inj (Option.some.inj h)
      exact ⟨v, hv, hj.trans (congrArg Val.integer (BitVec.eq_of_toInt_eq hij))⟩
  have hsat : ∀ id ∈ ids, Satisfies p record column op (.integer value) id
      ↔ ∃ i, HasInteger record column i id ∧ op.test (i.slt value) (i == value) = true := by
    intro id hid
    rw [satisfies_iff]
    constructor
    · rintro ⟨v, hv, hholds⟩
      obtain ⟨i, hi, -⟩ := htext id hid v hv
      rw [hi] at hholds
      exact ⟨i, ⟨v, hv, hi⟩, hholds⟩
    · rintro ⟨i, ⟨v, hv, hi⟩, htest⟩
      refine ⟨v, hv, ?_⟩
      rw [hi]
      exact htest
  have hhit : ∀ id ∈ ids, Hit p record column op (.integer value) id
      ↔ (∃ i, HasInteger record column i id)
        ∧ op.test (decide (value ≠ 0)) (decide (value = 0)) = true := by
    intro id hid
    constructor
    · rintro ⟨s, hs, hhits⟩
      refine ⟨?_, (hitsInteger_eq op value s).symm.trans hhits⟩
      unfold textOf at hs
      obtain ⟨v, hv, -⟩ := Option.map_eq_some_iff.mp hs
      obtain ⟨i, hi, -⟩ := htext id hid v hv
      exact ⟨i, v, hv, hi⟩
    · rintro ⟨⟨i, hi⟩, htest⟩
      exact ⟨_, (hhas id hid i).mp hi, (hitsInteger_eq op value _).trans htest⟩
  by_cases hzero : op.test (decide (value ≠ 0)) (decide (value = 0)) = true
  · have hall : ∀ id ∈ ids, Satisfies p record column op (.integer value) id →
        Hit p record column op (.integer value) id := by
      intro id hid h
      obtain ⟨i, hi, -⟩ := (hsat id hid).mp h
      exact (hhit id hid).mpr ⟨⟨i, hi⟩, hzero⟩
    refine ⟨fun _ => .inl hzero, fun _ => ⟨fun _ => hall, ?_⟩⟩
    intro hno _ id hid h
    exact absurd ⟨id, hid, hall id hid h⟩ hno
  · have hno : ¬ ∃ id ∈ ids, Hit p record column op (.integer value) id := by
      rintro ⟨id, hid, h⟩
      exact hzero ((hhit id hid).mp h).2
    constructor
    · intro hcovered
      refine .inr ?_
      rintro ⟨id₀, hid₀, hhas₀⟩ id hid i hi htest
      have hown := hcovered.own hno ⟨id₀, hid₀, (hhas id₀ hid₀ value).mp hhas₀⟩ id hid
        ((hsat id hid).mpr ⟨i, hi, htest⟩)
      rw [(hhas id hid i).mp hi] at hown
      exact BitVec.eq_of_toInt_eq (decimal_inj (Option.some.inj hown))
    · intro h
      have hsame := h.resolve_left hzero
      refine ⟨fun hyes => absurd hyes hno, ?_⟩
      rintro - ⟨id₀, hid₀, htext₀⟩ id hid h
      obtain ⟨i, hi, htest⟩ := (hsat id hid).mp h
      have hi' := hsame ⟨id₀, hid₀, (hhas id₀ hid₀ value).mpr htext₀⟩ id hid i hi htest
      subst hi'
      exact (hhas id hid i).mp hi

/-- **Texts are not missed**, unless the constant has a zero byte. -/
theorem covered_text (hcolumn : TextColumn record column ids) {s : Bytes} (hs : NulFree s) :
    Covered p record column op (.text s) ids := by
  have hcstr := cstr_of_nulFree hs
  have hhit : ∀ id ∈ ids, Satisfies p record column op (.text s) id →
      Hit p record column op (.text s) id := by
    intro id hid hsat
    obtain ⟨v, hv, hholds⟩ := (satisfies_iff op).mp hsat
    obtain ⟨t, rfl⟩ := hcolumn id hid v hv
    refine ⟨t, ?_, ?_⟩
    · unfold textOf
      rw [hv]
      rfl
    · show hitsText op.code (cstr s) t = true
      rw [hcstr, hitsText_eq]
      exact hholds
  refine ⟨fun _ => hhit, fun hno _ id hid hsat => ?_⟩
  exact absurd ⟨id, hid, hhit id hid hsat⟩ hno

end

/-! ## When no row is missed -/

/-- Which ids the scan goes through. -/
theorem Answers.mem_columnIds (h : Answers p T record all Same) {mIds : List Value} (hids : mIds ≠ [])
    {db : Db} (hdb : Same db) {idxNum : Nat} (hcolumn : T.columns.getD (idxNum - 1) [] ∈ T.columns)
    (op : IndexOp) (c : Constant) (id : BitVec 32) :
    id ∈ (columnIds p T (createIndexes p T [] mIds db).1 mIds idxNum op.code c.val).map Value.toInt
      ↔ id ∈ mIds.map Value.toInt
        ∧ ((∃ i ∈ mIds.map Value.toInt, Hit p record (T.columns.getD (idxNum - 1) []) op c i) →
          Hit p record (T.columns.getD (idxNum - 1) []) op c id)
        ∧ ((¬ ∃ i ∈ mIds.map Value.toInt, Hit p record (T.columns.getD (idxNum - 1) []) op c i) →
          (∃ i ∈ mIds.map Value.toInt,
            textOf p record (T.columns.getD (idxNum - 1) []) i = some (textIn p c)) →
          textOf p record (T.columns.getD (idxNum - 1) []) id = some (textIn p c)) := by
  have hindex := @Answers.index p T record all Same h mIds db hdb _ hcolumn
  rw [columnIds_eq]
  generalize T.columns.getD (idxNum - 1) [] = column at hcolumn hindex ⊢
  obtain ⟨db', hdb', hindex⟩ := hindex
  rw [hindex]
  have hhits := h.mem_hits hids hdb' column (hits op c)
  have hown := h.mem_own hids hdb' column (textIn p c)
  -- a list is empty if it has no ids
  have hempty : ∀ (l : List Value), (∀ i, i ∉ l.map Value.toInt) → l = [] := by
    intro l hl
    cases l with
    | nil => rfl
    | cons v l => exact absurd List.mem_cons_self (hl v.toInt)
  unfold hitIds
  dsimp only
  generalize (VirtualTable.createIndex p T column mIds db').1.flatMap
    (fun v => if hits op c v.1 then toArray v.2 else []) = found at hhits ⊢
  generalize toArray (field (VirtualTable.createIndex p T column mIds db').1 (textIn p c)) = own
    at hown ⊢
  by_cases hhit : ∃ i ∈ mIds.map Value.toInt, Hit p record column op c i
  · have hsome : found ≠ [] := by
      obtain ⟨i, hi, hkey⟩ := hhit
      rintro rfl
      exact absurd ((hhits i).mpr ⟨hi, hkey⟩) List.not_mem_nil
    have hne : ¬ found.isEmpty = true := fun hnil => hsome (List.isEmpty_iff.mp hnil)
    rw [if_neg hne, if_neg hne, hhits]
    exact ⟨fun hid => ⟨hid.1, fun _ => hid.2, fun hno => absurd hhit hno⟩,
      fun hid => ⟨hid.1, hid.2.1 hhit⟩⟩
  · have hnil : found = [] := hempty found (fun i hi => hhit ⟨i, (hhits i).mp hi⟩)
    rw [if_pos (List.isEmpty_iff.mpr hnil)]
    by_cases hkey : ∃ i ∈ mIds.map Value.toInt, textOf p record column i = some (textIn p c)
    · have hsome : own ≠ [] := by
        obtain ⟨i, hi, htext⟩ := hkey
        rintro rfl
        exact absurd ((hown i).mpr ⟨hi, htext⟩) List.not_mem_nil
      rw [if_neg (fun hnil => hsome (List.isEmpty_iff.mp hnil)), hown]
      exact ⟨fun hid => ⟨hid.1, fun hyes => absurd hyes hhit, fun _ _ => hid.2⟩,
        fun hid => ⟨hid.1, hid.2.2 hhit hkey⟩⟩
    · have hnone : own = [] := hempty own (fun i hi => hkey ⟨i, (hown i).mp hi⟩)
      rw [if_pos (List.isEmpty_iff.mpr hnone)]
      exact ⟨fun hid => ⟨hid, fun hyes => absurd hyes hhit, fun _ hyes => absurd hyes hkey⟩,
        fun hid => hid.1⟩

/-- **When the index agrees with the full scan.** -/
theorem included_iff (h : Answers p T record all Same) (mIds : List Value) {db : Db} (hdb : Same db)
    {idxNum : Nat} (hcolumn : T.columns.getD (idxNum - 1) [] ∈ T.columns) (op : IndexOp)
    (c : Constant) :
    Included p T (createIndexes p T [] mIds db).1 mIds db idxNum op c
      ↔ Covered p record (T.columns.getD (idxNum - 1) []) op c (mIds.map Value.toInt) := by
  have hrow : ∀ (ids : List Value) (r : BitVec 32 × Object),
      r ∈ (VirtualTable.filterRows p T ids db).1 ↔ r.1 ∈ ids.map Value.toInt ∧ record r.1 = some r.2 := by
    rintro ids ⟨id, obj⟩
    rw [(h.filterRows ids hdb).1, List.mem_filterMap]
    constructor
    · rintro ⟨i, hi, he⟩
      obtain ⟨obj', hobj, he⟩ := Option.map_eq_some_iff.mp he
      obtain ⟨rfl, rfl⟩ := Prod.mk.inj he
      exact ⟨hi, hobj⟩
    · rintro ⟨hid, hobj⟩
      refine ⟨id, hid, ?_⟩
      dsimp only at hobj
      rw [hobj]
      rfl
  by_cases hids : mIds = []
  · subst hids
    refine ⟨fun _ => ⟨?_, ?_⟩, ?_⟩
    · intro _ id hid
      cases hid
    · intro _ _ id hid
      cases hid
    · intro _ r hr
      exact absurd ((hrow [] r).mp hr).1 List.not_mem_nil
  · have hmem := h.mem_columnIds hids hdb hcolumn op c
    constructor
    · intro hincluded
      have hall : ∀ id ∈ mIds.map Value.toInt,
          Satisfies p record (T.columns.getD (idxNum - 1) []) op c id →
          id ∈ (columnIds p T (createIndexes p T [] mIds db).1 mIds idxNum op.code c.val).map
            Value.toInt := by
        rintro id hid ⟨obj, hobj, hholds⟩
        exact ((hrow _ (id, obj)).mp (hincluded (id, obj) ((hrow _ _).mpr ⟨hid, hobj⟩) hholds)).1
      exact ⟨fun hhit id hid hsat => ((hmem id).mp (hall id hid hsat)).2.1 hhit,
        fun hno hkey id hid hsat => ((hmem id).mp (hall id hid hsat)).2.2 hno hkey⟩
    · rintro hcovered ⟨id, obj⟩ hr hholds
      obtain ⟨hid, hobj⟩ := (hrow _ _).mp hr
      have hsat : Satisfies p record (T.columns.getD (idxNum - 1) []) op c id := ⟨obj, hobj, hholds⟩
      refine (hrow _ _).mpr ⟨(hmem id).mpr ⟨hid, ?_, ?_⟩, hobj⟩
      · intro hhit
        exact hcovered.hit hhit id hid hsat
      · intro hno hkey
        exact hcovered.own hno hkey id hid hsat

/-- `{"name": n}` -/
def named (n : UInt8) : Bytes :=
  [0x7B, 0x23, 0x69, 1, 0x69, 4, 0x6E, 0x61, 0x6D, 0x65, 0x6C, 0, 0, 0, n]

def numbersDb : Db := blobsDb [(1, named 5), (2, named 7)]

theorem numbers_answers :
    Answers .plain (names 1) (fun id => Platform.plain.doc numbersDb (lit "blobs") (id.setWidth 64))
      [1, 2] (fun db => ∃ calls, db = numbersDb.after calls) :=
  answers_of_works .plain (names 1) (fun _ => rfl) (blobsDb_hasBlobTable _)

theorem included_iff_numbers :
    Included .plain (names 1) (createIndexes .plain (names 1) [] [.int32 1, .int32 2] numbersDb).1
        [.int32 1, .int32 2] numbersDb 1 .gt (.integer 5)
      ↔ Covered .plain (fun id => Platform.plain.doc numbersDb (lit "blobs") (id.setWidth 64))
        (lit "name") .gt (.integer 5) [1, 2] :=
  @included_iff .plain (names 1) _ _ _ numbers_answers [.int32 1, .int32 2] numbersDb ⟨0, rfl⟩ 1
    (List.mem_singleton_self _) .gt (.integer 5)

/-- **Of 5 and 7, a scan with the index for what is more than 5 finds 5 only.** -/
theorem not_included :
    ¬ Included .plain (names 1) (createIndexes .plain (names 1) [] [.int32 1, .int32 2] numbersDb).1
      [.int32 1, .int32 2] numbersDb 1 .gt (.integer 5) := by
  intro hincluded
  have hfive : Platform.plain.doc numbersDb (lit "blobs") 1 = some [(lit "name", .int32 5)] := rfl
  have hseven : Platform.plain.doc numbersDb (lit "blobs") 2 = some [(lit "name", .int32 7)] := rfl
  have hsame : ∃ calls, numbersDb = numbersDb.after calls := ⟨0, rfl⟩
  have hrows := fun ids => (numbers_answers.filterRows ids hsame).1
  have hmem := (@Answers.mem_columnIds .plain (names 1) _ _ _ numbers_answers [.int32 1, .int32 2]
    (List.cons_ne_nil _ _) numbersDb hsame 1 (List.mem_singleton_self _) .gt (.integer 5) 2).mp
  have hrow : (2, [(lit "name", .int32 7)])
      ∈ (VirtualTable.filterRows .plain (names 1) [.int32 1, .int32 2] numbersDb).1 := by
    rw [hrows]
    refine List.mem_filterMap.mpr ⟨2, List.mem_cons_of_mem _ (List.mem_singleton_self _), ?_⟩
    exact congrArg (Option.map _) hseven
  have hfound := hincluded _ hrow rfl
  rw [hrows] at hfound
  obtain ⟨id, hid, he⟩ := List.mem_filterMap.mp hfound
  obtain ⟨obj, -, he⟩ := Option.map_eq_some_iff.mp he
  obtain ⟨rfl, -⟩ := Prod.mk.inj he
  have htextOf : ∀ (i : BitVec 32) (n : BitVec 32),
      Platform.plain.doc numbersDb (lit "blobs") (i.setWidth 64) = some [(lit "name", .int32 n)] →
      textOf .plain (fun id => Platform.plain.doc numbersDb (lit "blobs") (id.setWidth 64))
        (lit "name") i = some (lit (toString n.toInt)) := by
    intro i n hdoc
    unfold textOf
    dsimp only
    rw [hdoc]
    rfl
  have hown := (hmem hid).2.2 ?_ ⟨1, List.mem_cons_self, htextOf 1 5 hfive⟩
  · rw [show (names 1).columns.getD (1 - 1) [] = lit "name" from rfl, htextOf 2 7 hseven] at hown
    exact absurd hown (by decide)
  · rintro ⟨i, -, s, -, hhits⟩
    rw [show hits .gt (.integer 5) s = hitsInteger IndexOp.gt.code 5 s from rfl, hitsInteger_eq]
      at hhits
    cases hhits

end Zway.Ubj.Store.VirtualTable
