import Zway.Store.Neighbours

/-!
# Do an insertion and an update agree?

`Store::insert` takes a value through `bindUbjToStmt` and `xUpdate` to the record, and
`Store::update` puts it there as it is. `ShownAlike` says for which values `xColumn` then
makes the same of both: `agree_iff`.
-/

namespace Zway.Ubj.Store.VirtualTable

open Sql Records Steps

section

variable (p : Platform) (T : VirtualTable)

/-- What `xColumn` makes of a value that was inserted. -/
def insertedColumn (v : Value) : Val := ((storedValue p v).map columnVal).getD .null

/-- **What is shown alike.** `xColumn` has no case for a `bool`, which is stored as a number by an
insertion; `xUpdate` has none for a float. A container has to be read as what is written as the
same document. -/
def ShownAlike : Value → Prop
  | .null | .int32 _ | .int64 _ => True
  | .bool _ => False
  | .float32 bits => isNaN64 (floatToDouble bits) = true
  | .float64 bits => isNaN64 bits = true
  | .string s => Carried s
  | v => ∃ data, boundVal p v = some (.blob data)
      ∧ columnVal (readsAs p data) = .blob (Writer.write v)

/-- The same for a field. The type of an inserted object is that of the table. -/
def AsInserted (f : Bytes × Value) : Prop :=
  if f.1 = lit "_$type" then f.2 = .int32 T.type ∨ f.2 = .int64 (T.type.signExtend 64)
  else ShownAlike p f.2

variable {p T}

/-! ## Values -/

theorem resultDouble_eq_null (bits : BitVec 64) :
    Val.null = resultDouble bits ↔ isNaN64 bits = true := by
  unfold resultDouble
  by_cases h : isNaN64 bits = true
  · rw [if_pos h]
    exact ⟨fun _ => h, fun _ => rfl⟩
  · rw [if_neg h]
    exact ⟨fun he => (by cases he), fun he => absurd he h⟩

/-- A container is shown alike if it is bound as a blob, and this is read as what has its document. -/
theorem container_alike {v : Value} (hcolumn : columnVal v = .blob (Writer.write v)) :
    insertedColumn p v = columnVal v ↔ ∃ data, boundVal p v = some (.blob data)
      ∧ columnVal (readsAs p data) = .blob (Writer.write v) := by
  rw [hcolumn]
  unfold insertedColumn storedValue
  have hother : ∀ w, (∀ data, w ≠ Val.blob data) →
      (((storedVal p w).map columnVal).getD .null ≠ .blob (Writer.write v)) := by
    intro w hw h
    cases w with
    | blob data => exact hw data rfl
    | text s =>
      have hstring : columnVal (Value.ofString (cstr s)) = .blob (Writer.write v) := h
      unfold Value.ofString at hstring
      split at hstring
      · cases hstring
      · cases hstring
    | null => cases h
    | integer i => cases h
    | real bits => cases h
  cases hbound : boundVal p v with
  | none =>
    constructor
    · intro h
      exact absurd h (hother .null (fun _ h => by cases h))
    · rintro ⟨data, h, -⟩
      cases h
  | some w =>
    by_cases hblob : ∃ data, w = .blob data
    · obtain ⟨data, rfl⟩ := hblob
      constructor
      · intro h
        exact ⟨data, rfl, h⟩
      · rintro ⟨data', hdata, h⟩
        obtain rfl := Val.blob.inj (Option.some.inj hdata)
        exact h
    · constructor
      · intro h
        exact absurd h (hother w (fun data hdata => hblob ⟨data, hdata⟩))
      · rintro ⟨data, hdata, -⟩
        exact absurd ⟨data, Option.some.inj hdata⟩ hblob

/-- **Which values are shown alike.** -/
theorem shownAlike_iff (v : Value) : insertedColumn p v = columnVal v ↔ ShownAlike p v := by
  cases v with
  | null => exact ⟨fun _ => trivial, fun _ => rfl⟩
  | bool b => exact ⟨fun h => (by cases h), False.elim⟩
  | int32 i => exact ⟨fun _ => trivial, fun _ => rfl⟩
  | int64 i => exact ⟨fun _ => trivial, fun _ => rfl⟩
  | float32 bits => exact resultDouble_eq_null (floatToDouble bits)
  | float64 bits => exact resultDouble_eq_null bits
  | string s =>
    show columnVal (Value.ofString (cstr s)) = .text s ↔ Carried s
    rw [← ofString_cstr_iff]
    constructor
    · intro h
      unfold Value.ofString at h ⊢
      split at h
      · cases h
      · rename_i hne
        rw [if_neg hne, Val.text.inj h]
    · intro h
      rw [h]
      rfl
  | buffer data => exact container_alike rfl
  | array items => exact container_alike rfl
  | object fields => exact container_alike rfl

/-! ## Records -/

theorem sorted_override {o : Object} (h : OrdMap.Sorted o) (u : Object) :
    OrdMap.Sorted (override o u) := by
  induction u generalizing o with
  | nil => exact h
  | cons f u ih => exact ih (h.insert f.1 f.2)

theorem mem_override {o u : Object} {f : Bytes × Value} (h : f ∈ override o u) : f ∈ u ∨ f ∈ o := by
  induction u generalizing o with
  | nil => exact .inr h
  | cons g u ih =>
    rcases ih h with hmem | hmem
    · exact .inl (List.mem_cons_of_mem _ hmem)
    · rcases OrdMap.mem_insert hmem with rfl | hmem
      · exact .inl List.mem_cons_self
      · exact .inr hmem

theorem xColumn_recordOf (obj : Object) (key : Bytes) : xColumn (recordOf p T obj) key
    = if key = lit "_$type" then .integer (T.type.signExtend 64)
      else if key ∈ T.columns then ((OrdMap.find? obj key).map (insertedColumn p)).getD .null
      else .null := by
  unfold xColumn
  rw [find?_recordOf]
  by_cases htype : key = lit "_$type"
  · rw [if_pos htype, if_pos htype]
    rfl
  · rw [if_neg htype, if_neg htype]
    by_cases hcolumn : key ∈ T.columns
    · rw [if_pos hcolumn, if_pos hcolumn]
      cases OrdMap.find? obj key with
      | none => rfl
      | some v =>
        rw [Option.bind_some, Option.map_some, Option.getD_some]
        unfold insertedColumn
        cases storedValue p v with
        | none => rfl
        | some w => rfl
    · rw [if_neg hcolumn, if_neg hcolumn]

theorem columnVal_type_iff (v : Value) : Val.integer (T.type.signExtend 64) = columnVal v
    ↔ v = .int32 T.type ∨ v = .int64 (T.type.signExtend 64) := by
  constructor
  · intro h
    cases v with
    | int32 i =>
      have hwide : T.type.signExtend 64 = i.signExtend 64 := Val.integer.inj h
      have hnarrow := congrArg (BitVec.setWidth 32) hwide
      rw [setWidth_signExtend, setWidth_signExtend] at hnarrow
      exact .inl (congrArg Value.int32 hnarrow.symm)
    | int64 i => exact .inr (congrArg Value.int64 (Val.integer.inj h).symm)
    | float32 bits =>
      change _ = resultDouble _ at h
      unfold resultDouble at h
      split at h
      · cases h
      · cases h
    | float64 bits =>
      change _ = resultDouble _ at h
      unfold resultDouble at h
      split at h
      · cases h
      · cases h
    | _ => cases h
  · rintro (rfl | rfl)
    · rfl
    · rfl

/-- **Two records are shown alike** if every field of the update is. -/
theorem xColumn_eq_iff {o u : Object} (hnodup : (u.map (·.1)).Nodup)
    (hkeys : ∀ f ∈ u, f.1 ∈ T.columns) :
    xColumn (recordOf p T (override o u)) = xColumn (override (recordOf p T o) u)
      ↔ ∀ f ∈ u, AsInserted p T f := by
  have hinserted : ∀ key, xColumn (recordOf p T (override o u)) key
      = if key = lit "_$type" then .integer (T.type.signExtend 64)
        else if key ∈ T.columns then (((OrdMap.find? u key).or (OrdMap.find? o key)).map
          (insertedColumn p)).getD .null
        else .null := by
    intro key
    rw [xColumn_recordOf, find?_override_eq key hnodup]
  have hupdated : ∀ key v, OrdMap.find? u key = some v →
      xColumn (override (recordOf p T o) u) key = columnVal v := by
    intro key v hv
    unfold xColumn
    rw [find?_override_eq key hnodup, hv]
    rfl
  have hfield : ∀ f ∈ u, xColumn (recordOf p T (override o u)) f.1
      = xColumn (override (recordOf p T o) u) f.1 ↔ AsInserted p T f := by
    intro f hf
    have hfind := OrdMap.find?_of_mem_of_nodup hnodup hf
    rw [hinserted, hupdated f.1 f.2 hfind, hfind]
    unfold AsInserted
    by_cases htype : f.1 = lit "_$type"
    · rw [if_pos htype, if_pos htype]
      exact columnVal_type_iff f.2
    · rw [if_neg htype, if_neg htype, if_pos (hkeys f hf)]
      exact shownAlike_iff f.2
  constructor
  · intro h f hf
    exact (hfield f hf).mp (congrFun h f.1)
  · intro h
    funext key
    cases hfind : OrdMap.find? u key with
    | some v => exact (hfield (key, v) (OrdMap.mem_of_find? hfind)).mpr (h _ (OrdMap.mem_of_find? hfind))
    | none =>
      have hkept : xColumn (override (recordOf p T o) u) key = xColumn (recordOf p T o) key := by
        unfold xColumn
        rw [find?_override_eq key hnodup, hfind]
        rfl
      rw [hkept, hinserted, xColumn_recordOf, hfind]
      rfl

/-- An object whose update is shown like its insertion is one of the table. -/
theorem typed_updated {o u : Object} (hnodup : (u.map (·.1)).Nodup)
    (h : ∀ f ∈ u, AsInserted p T f) : Typed p T (override (recordOf p T o) u) := by
  unfold Typed typeOf
  rw [find?_override_eq _ hnodup]
  cases hfind : OrdMap.find? u (lit "_$type") with
  | none =>
    rw [Option.none_or, find?_recordOf, if_pos rfl]
    rfl
  | some v =>
    have hfield := h _ (OrdMap.mem_of_find? hfind)
    unfold AsInserted at hfield
    rw [if_pos rfl] at hfield
    rcases hfield with hv | hv
    · obtain rfl : v = _ := hv
      rfl
    · obtain rfl : v = _ := hv
      show some (lit (toString (T.type.signExtend 64).toInt)) = some (lit (toString T.type.toInt))
      rw [BitVec.toInt_signExtend_of_le (by decide)]

/-! ## Two runs -/

/-- The query for a rowid. -/
theorem sayable_rowid (id : BitVec 64) : Sayable p T [(lit "rowid", .int64 id)] where
  named := ⟨show isName (lit "rowid") = true from by decide, trivial⟩
  said := .inr ⟨rfl, fun _ h => h⟩
  columns := by
    intro cond hcond
    obtain rfl := Option.some.inj (Option.some.inj ((parseWhere_rowid id 0).symm.trans hcond))
    show List.all [lit "rowid"] _ = true
    rw [List.all_cons, List.all_nil, Bool.and_true]
    exact decide_eq_true (.inl rfl)
  onTop := by
    intro cond hcond
    obtain rfl := Option.some.inj (Option.some.inj ((parseWhere_rowid id 0).symm.trans hcond))
    rfl
  bound := rfl

/-- It is about the one object. -/
theorem matching_rowid {docs : Documents} {id : BitVec 64} (hsmall : id.toNat < 2 ^ 32) {obj : Object}
    (hdoc : docs id = some obj) (htyped : Typed p T obj) :
    matching p T docs [(lit "rowid", .int64 id)] = {id} := by
  have hcompare : ∀ (i : BitVec 64) (row : Row),
      satisfies (compares p T i row) [(lit "rowid", .int64 id)] = decide (i = id) := by
    intro i row
    have hvalue : (T.table []).value i row (lit "rowid") = .integer i := if_pos (.inl rfl)
    rw [satisfies, satisfies, Bool.and_true, satisfiesEntry]
    · show p.sqlite.compare .eq ((T.table []).value i row (lit "rowid")) (.integer id) = _
      rw [hvalue]
      exact p.sqlite.compare_integer i id
    · exact fun _ h => by cases h
    · exact fun _ _ h => by cases h
  ext i
  constructor
  · rintro ⟨-, obj', -, -, hsatisfies⟩
    rw [hcompare] at hsatisfies
    exact of_decide_eq_true hsatisfies
  · rintro rfl
    refine ⟨hsmall, obj, hdoc, .inl htyped, ?_⟩
    rw [hcompare]
    exact decide_eq_true rfl

/-- What a query is about, in two stores that differ in one object, which is shown alike. -/
theorem matching_update {docs : Documents} {id : BitVec 64} {obj obj' : Object}
    (htyped : Typed p T obj) (htyped' : Typed p T obj') (hcolumns : xColumn obj = xColumn obj')
    (where_ : Object) : matching p T (Function.update docs id (some obj)) where_
      = matching p T (Function.update docs id (some obj')) where_ := by
  have hsub : ∀ {a b : Object}, Typed p T b → xColumn a = xColumn b → ∀ i,
      i ∈ matching p T (Function.update docs id (some a)) where_ →
      i ∈ matching p T (Function.update docs id (some b)) where_ := by
    rintro a b hb hab i ⟨hsmall, o, ho, hmine, hsatisfies⟩
    by_cases hi : i = id
    · subst hi
      rw [Function.update_self] at ho
      obtain rfl := Option.some.inj ho
      rw [hab] at hsatisfies
      exact ⟨hsmall, b, Function.update_self .., .inl hb, hsatisfies⟩
    · rw [Function.update_of_ne hi] at ho
      exact ⟨hsmall, o, (Function.update_of_ne hi ..).trans ho, hmine, hsatisfies⟩
  ext i
  exact ⟨hsub htyped' hcolumns i, hsub htyped hcolumns.symm i⟩

/-- **Inserting an object with changes, and inserting it and then updating it**, give the same row
exactly if every changed field is shown alike. If they do, no query and no count on the table tells
one store from the other. -/
theorem agree_iff (hcovers : Covering p T) {random : Nat → Option SaltBytes}
    (hrandom : ∀ n, (random n).isSome = true) {db : Db} (husable : Usable T.blobTable db)
    {o u : Object} (ho : OrdMap.Sorted o) (hu : OrdMap.Sorted u)
    (hokeys : ∀ f ∈ o, f.1 ∈ T.columns) (hukeys : ∀ f ∈ u, f.1 ∈ T.columns)
    (hboth : Recorded p (recordOf p T (override o u))) (hfirst : Recorded p (recordOf p T o))
    (hthen : Recorded p (override (recordOf p T o) u)) {id id' : BitVec 64} {db₁ db₂ : Db}
    (hinsert₁ : insert p T (random db.calls) db (override o u) = (id, db₁)) (hid : id ≠ 0)
    (hinsert₂ : insert p T (random db.calls) db o = (id', db₂)) (hid' : id' ≠ 0)
    (hsmall : id.toNat < 2 ^ 32) :
    id' = id
      ∧ (rowOf p T db₁ (id.setWidth 32)
          = rowOf p T (update p T random db₂ u [(lit "rowid", .int64 id)]).2 (id.setWidth 32)
        ↔ ∀ f ∈ u, AsInserted p T f)
      ∧ ((∀ f ∈ u, AsInserted p T f) → ∀ where_ fields, Sayable p T where_ →
          (∀ f ∈ fields, isName f = true ∧ (T.table []).declares f = true) →
          Undisturbed p T db₁ (update p T random db₂ u [(lit "rowid", .int64 id)]).2 where_
            fields) := by
  obtain ⟨hok, htable⟩ := husable
  have hou := sorted_override ho u
  have houkeys : ∀ f ∈ override o u, f.1 ∈ T.columns := by
    intro f hf
    rcases mem_override hf with hmem | hmem
    · exact hukeys f hmem
    · exact hokeys f hmem
  -- both get the next rowid
  have hsame : id' = id := by
    obtain ⟨t, ht, hnew⟩ := createBlob_newRowid (htable.after (db.calls + 2)) hid
      (insert_createBlob houkeys hou hinsert₁ hid)
    obtain ⟨t', ht', hnew'⟩ := createBlob_newRowid (htable.after (db.calls + 2)) hid'
      (insert_createBlob hokeys ho hinsert₂ hid')
    obtain rfl := Option.some.inj (ht.symm.trans ht')
    exact Option.some.inj (hnew'.symm.trans hnew)
  subst hsame
  obtain ⟨-, hdocs₁, htable₁, hsucceeds₁⟩ := docs_inserted hok htable houkeys hou hboth hinsert₁ hid
  obtain ⟨-, hdocs₂, htable₂, hsucceeds₂⟩ := docs_inserted hok htable hokeys ho hfirst hinsert₂ hid
  have hok₂ : ∀ n, db₂.succeeds n = true := fun n => by rw [hsucceeds₂, hok]
  have hdoc₂ : p.doc db₂ T.blobTable id' = some (recordOf p T o) := by
    rw [hdocs₂, Function.update_self]
  have hone := matching_rowid hsmall hdoc₂ (typed_recordOf o)
  have hrecords : ∀ i ∈ matching p T (p.doc db₂ T.blobTable) [(lit "rowid", .int64 id')], ∀ obj,
      p.doc db₂ T.blobTable i = some obj → Recorded p (override obj u) := by
    intro i hi obj hobj
    rw [hone] at hi
    obtain rfl : i = id' := hi
    obtain rfl := Option.some.inj (hdoc₂.symm.trans hobj)
    exact hthen
  obtain ⟨-, hdocs₃, htable₃, hsucceeds₃⟩ :=
    does_update hok₂ htable₂ hcovers hrandom (sayable_rowid id') hrecords
  generalize (update p T random db₂ u [(lit "rowid", .int64 id')]).2 = db₃ at *
  -- the update changes the one record
  have hdocs : p.doc db₃ T.blobTable = Function.update (p.doc db T.blobTable) id'
      (some (override (recordOf p T o) u)) := by
    rw [hdocs₃, hone, hdocs₂]
    funext i
    by_cases hi : i = id'
    · subst hi
      rw [change_of_mem (Set.mem_singleton i), Function.update_self, Function.update_self]
      rfl
    · have hnot : i ∉ ({id'} : Set (BitVec 64)) := hi
      rw [change_of_notMem hnot, Function.update_of_ne hi, Function.update_of_ne hi]
  have hrow : ∀ {db' : Db} {obj : Object},
      p.doc db' T.blobTable = Function.update (p.doc db T.blobTable) id' (some obj) →
      rowOf p T db' (id'.setWidth 32) = some (id', xColumn obj) := by
    intro db' obj hdoc
    unfold rowOf
    rw [setWidth_small hsmall, hdoc, Function.update_self]
    rfl
  have hiff := @xColumn_eq_iff p T o u hu.nodup hukeys
  refine ⟨rfl, ?_, ?_⟩
  · rw [hrow hdocs₁, hrow hdocs, ← hiff]
    exact ⟨fun h => (Prod.mk.inj (Option.some.inj h)).2, fun h => by rw [h]⟩
  · intro h where_ fields hsayable hfields
    have hcolumns := hiff.mpr h
    have hmatching := @matching_update p T (p.doc db T.blobTable) id' _ _
      (typed_recordOf (override o u)) (typed_updated hu.nodup h) hcolumns where_
    refine undisturbed_of_matching hcovers ⟨fun n => by rw [hsucceeds₁, hok], htable₁⟩
      ⟨fun n => by rw [hsucceeds₃, hok₂], htable₃⟩ hsayable hfields ?_ ?_
    · rw [hdocs₁, hdocs]
      exact hmatching.symm
    · intro i _
      unfold itemOf
      rw [hdocs₁, hdocs]
      by_cases hi : i = id'
      · subst hi
        rw [Function.update_self, Function.update_self, Option.getD_some, Option.getD_some, hcolumns]
      · rw [Function.update_of_ne hi, Function.update_of_ne hi]

/-- `{"name": "b"}` -/
def nameB : Object := [(lit "name", .string (lit "b"))]

/-- A name is overridden. -/
theorem agree_iff_name :
    (insertedInto nameA).1 = (insertedInto nameB).1
      ∧ (rowOf deep (names 1) (insertedInto nameB).2 ((insertedInto nameB).1.setWidth 32)
          = rowOf deep (names 1) (update deep (names 1) sevens (insertedInto nameA).2 nameB
              [(lit "rowid", .int64 (insertedInto nameB).1)]).2
            ((insertedInto nameB).1.setWidth 32)
        ↔ ∀ f ∈ nameB, AsInserted deep (names 1) f)
      ∧ ((∀ f ∈ nameB, AsInserted deep (names 1) f) → ∀ where_ fields,
          Sayable deep (names 1) where_ →
          (∀ f ∈ fields, isName f = true ∧ ((names 1).table []).declares f = true) →
          Undisturbed deep (names 1) (insertedInto nameB).2
            (update deep (names 1) sevens (insertedInto nameA).2 nameB
              [(lit "rowid", .int64 (insertedInto nameB).1)]).2 where_ fields) := by
  have hkeysA : ∀ f ∈ nameA, f.1 ∈ (names 1).columns := by decide
  have hkeysB : ∀ f ∈ nameB, f.1 ∈ (names 1).columns := by decide
  have hrecordedB : Recorded deep (recordOf deep (names 1) nameB) :=
    recorded_name (by unfold Carried; decide) (by decide +kernel) (by decide +kernel)
      (by decide +kernel) (by decide)
  have hround : RoundTripFields (override (recordOf deep (names 1) nameA) nameB) :=
    .cons ⟨by decide, by decide⟩ (.int32 1)
      (.cons ⟨by decide, by decide⟩ (.string ⟨by decide, by decide⟩) .nil)
  have hthen : Recorded deep (override (recordOf deep (names 1) nameA) nameB) :=
    recorded_of_document ⟨.object (sorted_override (sorted_recordOf ..) _) hround, rfl,
      by decide +kernel, by decide +kernel⟩ (by decide +kernel) (by decide +kernel)
  have hinsertA : insert deep (names 1) (sevens (blobsDb []).calls) (blobsDb []) nameA
      = insertedInto nameA := rfl
  have hinsertB : insert deep (names 1) (sevens (blobsDb []).calls) (blobsDb [])
      (override nameA nameB) = insertedInto nameB := rfl
  have hidA : (insertedInto nameA).1 ≠ 0 := by decide +kernel
  have hidB : (insertedInto nameB).1 ≠ 0 := by decide +kernel
  have hsmall : (insertedInto nameB).1.toNat < 2 ^ 32 := by decide +kernel
  generalize insertedInto nameA = a at *
  generalize insertedInto nameB = b at *
  obtain ⟨id, db₁⟩ := a
  obtain ⟨id', db₂⟩ := b
  exact agree_iff (covering_rowidPlan deep (names 1) rfl) (fun _ => rfl)
    ⟨fun _ => rfl, blobsDb_hasBlobTable _⟩ (List.pairwise_singleton _ _)
    (List.pairwise_singleton _ _) hkeysA hkeysB hrecordedB recorded_nameA hthen hinsertB hidB
    hinsertA hidA hsmall

end

end Zway.Ubj.Store.VirtualTable
