import Zway.Client.UniqueNodes
import Zway.Lib.Records
import Zway.Lib.Select
import Zway.Store.VirtualRows

/-!
# The folders of a contact

`Store::ioDir` looks for a folder and, in it, for a folder with the name of a contact, and makes
those that are missing. Unlike `createVfsNode` it looks for a type, a parent and a name only, so
a time does not matter.

The rest of the program goes on with the store between the calls: it stores objects of any table,
changes and removes them. A call is answered with the same folder for the same names, and with
another one for other names: `ioDir_eq_iff`.
-/

namespace Zway.Client

open FileStore (Directory)
open Ubj Ubj.Store Sql Steps

/-- What becomes of the calls of the store for one folder. -/
structure FolderCalls where
  queries : Bool
  counts : Bool
  inserts : Bool
  /-- `time(nullptr)`. -/
  time : BitVec 64

/-- A call of `Store::ioDir`. -/
structure FolderCall where
  /-- The name of the contact, if the query of `contacts` finds it. -/
  contact : Option Bytes
  name : Bytes
  outer : FolderCalls
  inner : FolderCalls

/-- The call of `createVfsNode` for a folder. -/
def FolderCalls.node (c : FolderCalls) (parent : BitVec 64) (name : Bytes) : NodeCall where
  type := Directory
  name := name
  parent := parent
  data := []
  time := c.time
  counts := c.counts
  inserts := c.inserts

/-- What is asked for a folder. -/
def folderQuery (parent : Value) (name : Bytes) : Object :=
  [(lit "name", Value.ofString name), (lit "parent", parent), (lit "type", .int32 Directory)]

namespace NodeStore

section

variable (p : Platform)

/-- The selection with the columns that its names stand for. -/
def resolveSelection (sel : Selection) : Option Selection :=
  ((vfs.visible fun _ => none) sel.table).bind fun t =>
    (sel.columns.mapM t.resolve).bind fun columns =>
      (renameWhere t.resolve sel.clauses.cond).bind fun cond =>
        (sel.clauses.order.mapM fun o => (t.resolve o.column).map (⟨·, o.ascending⟩)).map fun order =>
          ⟨columns, sel.table, ⟨cond, order, sel.clauses.limit, sel.clauses.offset⟩⟩

/-- `Action::prepareStmt` of a query. -/
def prepareSelection (text : Bytes) : Option Selection :=
  ((parseSelection (tokens text)).bind resolveSelection).filter
    (fun sel => VirtualTable.planned p (.select sel.columns sel.table sel.clauses.cond))

/-- What is left of the rows with a limit and an offset. -/
def limited (c : Clauses) (rows : List (BitVec 64 × Row)) : List (BitVec 64 × Row) :=
  (rows.drop (c.offset.getD 0)).take (c.limit.getD rows.length)

/-- `Store::queryInt`. -/
def queryInt (s : NodeStore) (works : Bool) (column : Bytes) (where_ : Object) : BitVec 64 :=
  match if works then prepareSelection p (QueryAction.sql vfs.name where_ [] [column] 1 0).1
    else none with
  | none => 0
  | some sel =>
      match VirtualTable.paramVals p (QueryAction.sql vfs.name where_ [] [column] 1 0).2 with
      | none => 0
      | some vals =>
          match (limited sel.clauses (s.selected p sel.clauses.cond vals)).head? with
          | none => 0
          | some r => (field (VirtualTable.report p vfs sel.columns r) column).toLong

/-- A folder in `parent`, or else a new one. -/
def openFolder (s : NodeStore) (c : FolderCalls) (parent : Value) (name : Bytes) :
    BitVec 64 × NodeStore :=
  if s.queryInt p c.queries (lit "rowid") (folderQuery parent name) ≠ 0 then
    (s.queryInt p c.queries (lit "rowid") (folderQuery parent name), s)
  else s.createVfsNode p (c.node parent.toLong name)

/-- The folder that is not of a contact. -/
def outDir (s : NodeStore) (c : FolderCall) : BitVec 64 × NodeStore :=
  s.openFolder p c.outer (.int32 0) c.name

/-- `Store::ioDir`. -/
def ioDir (s : NodeStore) (c : FolderCall) : BitVec 64 × NodeStore :=
  match c.contact with
  | none => (0, s)
  | some contactName =>
      if (s.outDir p c).1 = 0 then (0, (s.outDir p c).2)
      else (s.outDir p c).2.openFolder p c.inner (.int64 (s.outDir p c).1) contactName

/-! ## What else happens to the store -/

/-- A new object, of any table. -/
def stored (s : NodeStore) (obj : Object) : NodeStore :=
  match h : Rows.newId p.sqlite s.rows with
  | none => s
  | some id => s.append p id obj h

/-- An object is written anew. -/
def changed (s : NodeStore) (id : BitVec 64) (obj : Object) : NodeStore where
  rows := s.rows.map (fun r => if r.1 = id then (id, obj) else r)
  low := by
    intro r hr
    obtain ⟨r', hr', rfl⟩ := List.mem_map.mp hr
    split
    · rename_i hid
      exact hid ▸ s.low r' hr'
    · exact s.low r' hr'

/-- An object is removed. -/
def removed (s : NodeStore) (id : BitVec 64) : NodeStore where
  rows := s.rows.filter (fun r => r.1 ≠ id)
  low := fun r hr => s.low r (List.mem_of_mem_filter hr)

end

/-- What happens to the store. -/
inductive FolderEvent where
  | ioDir (c : FolderCall)
  | stored (obj : Object)
  | changed (id : BitVec 64) (obj : Object)
  | removed (id : BitVec 64)

/-- The row that is changed or removed. -/
def FolderEvent.touched : FolderEvent → Option (BitVec 64)
  | .changed id _ => some id
  | .removed id => some id
  | _ => none

section

variable (p : Platform)

/-- Only `ioDir` has a reply. -/
def perform (s : NodeStore) : FolderEvent → BitVec 64 × NodeStore
  | .ioDir c => s.ioDir p c
  | .stored obj => (0, s.stored p obj)
  | .changed id obj => (0, s.changed id obj)
  | .removed id => (0, s.removed id)

/-- The object is a folder. -/
def IsFolder (obj : Object) (parent : BitVec 64) (name : Bytes) : Prop :=
  ofVfs p obj = true ∧ key obj = (.integer (Directory.signExtend 64), .integer parent, .text name)

/-- No query for a folder is about the object. -/
def Foreign (obj : Object) : Prop :=
  ∀ parent name, ¬ (p.sqlite.compare .eq (VirtualTable.xColumn obj (lit "name")) (.text name) = true
    ∧ p.sqlite.compare .eq (VirtualTable.xColumn obj (lit "parent")) (.integer parent) = true
    ∧ p.sqlite.compare .eq (VirtualTable.xColumn obj (lit "type"))
      (.integer (Directory.signExtend 64)) = true)

/-- The rowids have 32 bits. -/
def Fits (s : NodeStore) : Prop := ∀ r ∈ s.rows, r.1.toNat < 2 ^ 32

/-- A name that can be looked for. -/
def Nameable (name : Bytes) : Prop := name ≠ [] ∧ NulFree name

/-- The queries are answered, and the names can be looked for. -/
structure Works (c : FolderCall) : Prop where
  outer : c.outer.queries = true
  inner : c.inner.queries = true
  name : Nameable c.name
  contact : ∀ name, c.contact = some name → Nameable name

/-- A new object is not a folder that there is. -/
def Admits (s : NodeStore) (obj : Object) : Prop :=
  Foreign p obj ∨ ∃ parent name, IsFolder p obj parent name
    ∧ ∀ r ∈ s.rows, ¬ IsFolder p r.2 parent name

/-- What may happen. -/
def Good (s : NodeStore) : FolderEvent → Prop
  | .ioDir c => Works c ∧ (s.ioDir p c).2.Fits
  | .stored obj => s.Admits p obj ∧ (s.stored p obj).Fits
  | .changed id obj => (s.removed id).Admits p obj
  | .removed _ => True

/-- **Of each folder there is one.** -/
structure Tidy (s : NodeStore) : Prop where
  nodup : (s.rows.map (·.1)).Nodup
  fits : s.Fits
  sorted : ∀ r ∈ s.rows, Foreign p r.2 ∨ ∃ parent name, IsFolder p r.2 parent name
  unique : ∀ r ∈ s.rows, ∀ r' ∈ s.rows, ∀ parent name, IsFolder p r.2 parent name →
    IsFolder p r'.2 parent name → r.1 = r'.1

/-- A folder of the store. -/
def Holds (s : NodeStore) (id parent : BitVec 64) (name : Bytes) : Prop :=
  ∃ obj, (id, obj) ∈ s.rows ∧ IsFolder p obj parent name

/-- A folder of a contact. -/
def Path (s : NodeStore) (outer id : BitVec 64) (name contact : Bytes) : Prop :=
  s.Holds p outer 0 name ∧ s.Holds p id outer contact

end

variable {p : Platform} {s s' : NodeStore} {id parent : BitVec 64} {name : Bytes} {obj : Object}

/-! ## The query -/

/-- The condition of the query. -/
def folderCond : Cond :=
  .and (.and (.compare (lit "name") .eq 0) (.compare (lit "parent") .eq 1)) (.compare (lit "type") .eq 2)

def folderVals (parent : BitVec 64) (name : Bytes) : List Val :=
  [.text name, .integer parent, .integer (Directory.signExtend 64)]

/-- What the query says. -/
theorem selection_folder {where_ : Value} (hparent : where_ = .int32 0 ∨ ∃ id, where_ = .int64 id)
    (hname : name ≠ []) :
    prepareSelection p (QueryAction.sql vfs.name (folderQuery where_ name) [] [lit "rowid"] 1 0).1
        = some ⟨[lit "rowid"], vfs.name, ⟨some folderCond, [], some 1, none⟩⟩
      ∧ VirtualTable.paramVals p
          (QueryAction.sql vfs.name (folderQuery where_ name) [] [lit "rowid"] 1 0).2
        = some (folderVals where_.toLong name) := by
  have hresolve : (parseSelection (tokens
        (lit "SELECT rowid FROM vfs WHERE name=? AND parent=? AND type=? LIMIT 1"))).bind resolveSelection
      = some ⟨[lit "rowid"], vfs.name, ⟨some folderCond, [], some 1, none⟩⟩ := by decide +kernel
  have hparse : prepareSelection p
        (lit "SELECT rowid FROM vfs WHERE name=? AND parent=? AND type=? LIMIT 1")
      = some ⟨[lit "rowid"], vfs.name, ⟨some folderCond, [], some 1, none⟩⟩ := by
    unfold prepareSelection
    rw [hresolve]
    exact if_pos (VirtualTable.planned_of_onTop p rfl)
  unfold folderQuery Value.ofString
  cases name with
  | nil => exact absurd rfl hname
  | cons b name =>
    rcases hparent with rfl | ⟨id, rfl⟩
    · exact ⟨hparse, rfl⟩
    · exact ⟨hparse, rfl⟩

theorem report_rowid (r : BitVec 64 × Row) :
    (field (VirtualTable.report p vfs [lit "rowid"] r) (lit "rowid")).toLong = r.1 := by
  have hvalue : (vfs.table []).value r.1 r.2 (lit "rowid") = .integer r.1 := if_pos (.inl rfl)
  have hreport : VirtualTable.report p vfs [lit "rowid"] r
      = VirtualTable.rowToUbj p [(lit "rowid", (vfs.table []).value r.1 r.2 (lit "rowid"))] := rfl
  rw [hreport, hvalue]
  rfl

/-- **What the query gives**: the rowid of the first row that is selected. -/
theorem queryInt_folder (s : NodeStore) {where_ : Value}
    (hparent : where_ = .int32 0 ∨ ∃ id, where_ = .int64 id) (hname : name ≠ []) :
    s.queryInt p true (lit "rowid") (folderQuery where_ name)
      = ((s.selected p (some folderCond) (folderVals where_.toLong name)).head?.map (·.1)).getD 0 := by
  obtain ⟨hsel, hvals⟩ := selection_folder (p := p) hparent hname
  unfold queryInt
  rw [if_pos rfl, hsel]
  dsimp only
  rw [hvals]
  dsimp only
  cases s.selected p (some folderCond) (folderVals where_.toLong name) with
  | nil => rfl
  | cons r rows => exact report_rowid r

/-- A row meets the condition with these three columns. -/
theorem meets_folder {row : Row} :
    VirtualTable.meets p vfs (some folderCond) (folderVals parent name) id row = true
      ↔ p.sqlite.compare .eq (row (lit "name")) (.text name) = true
        ∧ p.sqlite.compare .eq (row (lit "parent")) (.integer parent) = true
        ∧ p.sqlite.compare .eq (row (lit "type")) (.integer (Directory.signExtend 64)) = true := by
  show ((_ && _) && _) = true ↔ _
  rw [Bool.and_eq_true, Bool.and_eq_true, and_assoc]
  rfl

/-! ## What is found -/

/-- All rows are still there. -/
def Extends (s s' : NodeStore) : Prop := ∀ r ∈ s.rows, r ∈ s'.rows

theorem Holds.extends (h : s.Holds p id parent name) (hext : s.Extends s') :
    s'.Holds p id parent name := by
  obtain ⟨obj, hmem, hfolder⟩ := h
  exact ⟨obj, hext _ hmem, hfolder⟩

theorem Holds.ne_zero (h : s.Holds p id parent name) : id ≠ 0 := by
  obtain ⟨obj, hmem, -⟩ := h
  rintro rfl
  exact s.low _ hmem rfl

/-- Folders with the same parent and name are the same. -/
theorem Tidy.same {id' : BitVec 64} (hs : s.Tidy p) (h : s.Holds p id parent name)
    (h' : s.Holds p id' parent name) : id = id' := by
  obtain ⟨obj, hmem, hfolder⟩ := h
  obtain ⟨obj', hmem', hfolder'⟩ := h'
  exact hs.unique _ hmem _ hmem' parent name hfolder hfolder'

theorem IsFolder.inj {parent' : BitVec 64} {name' : Bytes} (h : IsFolder p obj parent name)
    (h' : IsFolder p obj parent' name') : parent = parent' ∧ name = name' := by
  obtain ⟨-, hrest⟩ := Prod.mk.inj (h.2.symm.trans h'.2)
  obtain ⟨hparent, hname⟩ := Prod.mk.inj hrest
  exact ⟨Val.integer.inj hparent, Val.text.inj hname⟩

/-- A folder has one parent and one name. -/
theorem Tidy.names {parent' : BitVec 64} {name' : Bytes} (hs : s.Tidy p)
    (h : s.Holds p id parent name) (h' : s.Holds p id parent' name') :
    parent = parent' ∧ name = name' := by
  obtain ⟨obj, hmem, hfolder⟩ := h
  obtain ⟨obj', hmem', hfolder'⟩ := h'
  have hfind := OrdMap.find?_of_mem_of_nodup hs.nodup hmem
  rw [OrdMap.find?_of_mem_of_nodup hs.nodup hmem'] at hfind
  obtain rfl := Option.some.inj hfind
  exact hfolder.inj hfolder'

section

variable (hcovers : VirtualTable.Covering p vfs)
  (htext : ∀ a b, p.sqlite.compare .eq (.text a) (.text b) = decide (a = b))

include htext in
/-- The query for a folder is about no other one. -/
theorem IsFolder.meets_iff (h : IsFolder p obj parent name) {parent' : BitVec 64} {name' : Bytes} :
    VirtualTable.meets p vfs (some folderCond) (folderVals parent' name') id
        (VirtualTable.xColumn obj) = true ↔ parent = parent' ∧ name = name' := by
  obtain ⟨htype, hrest⟩ := Prod.mk.inj h.2
  obtain ⟨hparent, hname⟩ := Prod.mk.inj hrest
  rw [meets_folder, htype, hparent, hname, htext, p.sqlite.compare_integer,
    p.sqlite.compare_integer, decide_eq_true_iff, decide_eq_true_iff, decide_eq_true_iff]
  constructor
  · rintro ⟨rfl, rfl, -⟩
    exact ⟨rfl, rfl⟩
  · rintro ⟨rfl, rfl⟩
    exact ⟨rfl, rfl, rfl⟩

include hcovers htext in
/-- **What the query is about** is the folder, if there is one. -/
theorem Tidy.selected_iff (hs : s.Tidy p) :
    (∃ row, (id, row) ∈ s.selected p (some folderCond) (folderVals parent name))
      ↔ s.Holds p id parent name := by
  constructor
  · rintro ⟨row, hrow⟩
    obtain ⟨-, -, low, -, obj, hrecord, he, hmeets⟩ := of_mem_selected hrow
    obtain ⟨rfl, rfl⟩ := Prod.mk.inj he
    have hmem := OrdMap.mem_of_find? hrecord
    rcases hs.sorted _ hmem with hforeign | ⟨parent', name', hfolder⟩
    · exact absurd (meets_folder.mp hmeets) (hforeign parent name)
    · obtain ⟨rfl, rfl⟩ := (hfolder.meets_iff htext).mp hmeets
      exact ⟨obj, hmem, hfolder⟩
  · rintro ⟨obj, hmem, hfolder⟩
    have hback : (id.setWidth 32).setWidth 64 = id :=
      FileStore.setWidth_setWidth_of_lt (hs.fits _ hmem)
    have hlisted : (id.setWidth 32, obj) ∈ s.listed p := by
      refine Rows.mem_scan.mpr ⟨obj, ?_, if_pos hfolder.1⟩
      unfold Rows.record
      rw [hback]
      exact OrdMap.find?_of_mem_of_nodup hs.nodup hmem
    have hselected := mem_selected hcovers hlisted ((hfolder.meets_iff htext).mpr ⟨rfl, rfl⟩)
    rw [hback] at hselected
    exact ⟨_, hselected⟩

variable {c : FolderCalls} {where_ : Value} (hparent : where_ = .int32 0 ∨ ∃ id, where_ = .int64 id)
  (hname : Nameable name) (hqueries : c.queries = true)

include hcovers htext hparent hname in
/-- The query gives the folder, or 0 if there is none. -/
theorem Tidy.queryInt_cases (hs : s.Tidy p) :
    s.Holds p (s.queryInt p true (lit "rowid") (folderQuery where_ name)) where_.toLong name
      ∨ s.queryInt p true (lit "rowid") (folderQuery where_ name) = 0
        ∧ ∀ id, ¬ s.Holds p id where_.toLong name := by
  rw [s.queryInt_folder hparent hname.1]
  cases hselected : s.selected p (some folderCond) (folderVals where_.toLong name) with
  | nil =>
    refine .inr ⟨rfl, fun id hholds => ?_⟩
    obtain ⟨row, hrow⟩ := (hs.selected_iff hcovers htext).mpr hholds
    rw [hselected] at hrow
    cases hrow
  | cons r rows =>
    refine .inl ((hs.selected_iff hcovers htext).mp ⟨r.2, ?_⟩)
    rw [hselected]
    exact List.mem_cons_self

include hcovers htext hparent hname hqueries in
/-- **A folder that is there is found**, and nothing is made. -/
theorem Tidy.openFolder_of_holds (hs : s.Tidy p) (h : s.Holds p id where_.toLong name) :
    s.openFolder p c where_ name = (id, s) := by
  unfold openFolder
  rw [hqueries]
  rcases hs.queryInt_cases hcovers htext hparent hname with hfound | ⟨-, hnone⟩
  · rw [if_pos hfound.ne_zero, hs.same hfound h]
  · exact absurd h (hnone id)

end

/-! ## What is made -/

/-- The node that is inserted is the folder. -/
theorem isFolder_inserted {c : FolderCalls} (hname : Nameable name)
    (h : inserted p (c.node parent name).node = some obj) : IsFolder p obj parent name := by
  obtain ⟨obj', hobj, hkey⟩ := inserted_bare (p := p) (c := c.node parent name) rfl
  obtain rfl := Option.some.inj (hobj.symm.trans h)
  refine ⟨ofVfs_inserted h, hkey.trans ?_⟩
  show (_, _, nameVal (cstr name)) = _
  rw [cstr_of_nulFree hname.2]
  unfold nameVal
  rw [if_neg (by rw [List.isEmpty_iff]; exact hname.1)]
  rfl

theorem mem_append {h : Rows.newId p.sqlite s.rows = some id} {r : BitVec 64 × Object} :
    r ∈ (s.append p id obj h).rows ↔ r ∈ s.rows ∨ r = (id, obj) := by
  show r ∈ s.rows ++ [(id, obj)] ↔ _
  rw [List.mem_append, List.mem_singleton]

theorem extends_append (h : Rows.newId p.sqlite s.rows = some id) :
    s.Extends (s.append p id obj h) := fun _ hr => mem_append.mpr (.inl hr)

/-- No row is lost. -/
theorem extends_openFolder (s : NodeStore) (c : FolderCalls) (where_ : Value) (name : Bytes) :
    s.Extends (s.openFolder p c where_ name).2 := by
  unfold openFolder
  split
  · exact fun _ hr => hr
  · rcases s.createVfsNode_cases (p := p) (c.node where_.toLong name)
      with ⟨heq, -⟩ | ⟨obj, id, h, -, -, -, heq⟩
    · rw [heq]
      exact fun _ hr => hr
    · rw [heq]
      exact extends_append h

theorem extends_ioDir (s : NodeStore) (c : FolderCall) : s.Extends (s.ioDir p c).2 := by
  have houter : s.Extends (s.outDir p c).2 := extends_openFolder s c.outer (.int32 0) c.name
  unfold ioDir
  split
  · exact fun _ hr => hr
  · split
    · exact houter
    · exact fun r hr => extends_openFolder _ c.inner _ _ r (houter r hr)

section

variable (hcovers : VirtualTable.Covering p vfs)
  (htext : ∀ a b, p.sqlite.compare .eq (.text a) (.text b) = decide (a = b))

include htext in
theorem IsFolder.not_foreign (h : IsFolder p obj parent name) : ¬ Foreign p obj := by
  intro hforeign
  have hmeets : VirtualTable.meets p vfs (some folderCond) (folderVals parent name) 0
      (VirtualTable.xColumn obj) = true := (h.meets_iff htext).mpr ⟨rfl, rfl⟩
  exact hforeign parent name (meets_folder.mp hmeets)

include htext in
/-- With one more object, of each folder there is still one. -/
theorem Tidy.add (hs : s.Tidy p) (hadmits : s.Admits p obj)
    (hrows : ∀ r ∈ s'.rows, r ∈ s.rows ∨ r = (id, obj)) (hnodup : (s'.rows.map (·.1)).Nodup)
    (hfits : s'.Fits) : s'.Tidy p := by
  have hnew : ∀ r ∈ s.rows, ∀ parent name, IsFolder p r.2 parent name →
      ¬ IsFolder p obj parent name := by
    intro r hr parent name hfolder hobj
    rcases hadmits with hforeign | ⟨parent', name', hobj', hfree⟩
    · exact hobj.not_foreign htext hforeign
    · obtain ⟨rfl, rfl⟩ := hobj.inj hobj'
      exact hfree r hr hfolder
  refine ⟨hnodup, hfits, fun r hr => ?_, fun r hr r' hr' parent name hfolder hfolder' => ?_⟩
  · rcases hrows r hr with hold | rfl
    · exact hs.sorted r hold
    · rcases hadmits with hforeign | ⟨parent, name, hobj, -⟩
      · exact .inl hforeign
      · exact .inr ⟨parent, name, hobj⟩
  · rcases hrows r hr with hold | rfl
    · rcases hrows r' hr' with hold' | rfl
      · exact hs.unique r hold r' hold' parent name hfolder hfolder'
      · exact absurd hfolder' (hnew r hold parent name hfolder)
    · rcases hrows r' hr' with hold' | rfl
      · exact absurd hfolder (hnew r' hold' parent name hfolder')
      · rfl

include htext in
theorem Tidy.append (hs : s.Tidy p) (h : Rows.newId p.sqlite s.rows = some id)
    (hadmits : s.Admits p obj) (hfits : (s.append p id obj h).Fits) :
    (s.append p id obj h).Tidy p := by
  refine hs.add htext hadmits (fun r hr => mem_append.mp hr) ?_ hfits
  show ((s.rows ++ [(id, obj)]).map (·.1)).Nodup
  rw [List.map_append]
  refine hs.nodup.append (List.nodup_singleton _) ?_
  rw [List.map_singleton, List.disjoint_singleton]
  exact (Rows.newId_spec h).1

include hcovers htext in
/-- **A folder is found or made.** -/
theorem Tidy.openFolder (hs : s.Tidy p) {c : FolderCalls} {where_ : Value}
    (hparent : where_ = .int32 0 ∨ ∃ id, where_ = .int64 id) (hname : Nameable name)
    (hqueries : c.queries = true) (hfits : (s.openFolder p c where_ name).2.Fits) :
    (s.openFolder p c where_ name).2.Tidy p ∧ ((s.openFolder p c where_ name).1 ≠ 0 →
      (s.openFolder p c where_ name).2.Holds p (s.openFolder p c where_ name).1 where_.toLong name) := by
  rcases hs.queryInt_cases hcovers htext hparent hname with hfound | ⟨hzero, hnone⟩
  · rw [hs.openFolder_of_holds hcovers htext hparent hname hqueries hfound]
    exact ⟨hs, fun _ => hfound⟩
  · have hmake : s.openFolder p c where_ name = s.createVfsNode p (c.node where_.toLong name) := by
      unfold NodeStore.openFolder
      rw [hqueries, if_neg (not_not_intro hzero)]
    rw [hmake] at hfits ⊢
    rcases s.createVfsNode_cases (p := p) (c.node where_.toLong name)
      with ⟨heq, -⟩ | ⟨obj, id, h, -, -, hobj, heq⟩
    · rw [heq]
      exact ⟨hs, fun h => absurd rfl h⟩
    · have hfolder := isFolder_inserted hname hobj
      rw [heq] at hfits ⊢
      have hfree : ∀ r ∈ s.rows, ¬ IsFolder p r.2 where_.toLong name :=
        fun r hr hother => hnone r.1 ⟨r.2, hr, hother⟩
      have hmem : (id, obj) ∈ (s.append p id obj h).rows := mem_append.mpr (.inr rfl)
      exact ⟨hs.append htext h (.inr ⟨_, _, hfolder, hfree⟩) hfits, fun _ => ⟨obj, hmem, hfolder⟩⟩

include hcovers htext in
/-- **What `ioDir` does.** -/
theorem Tidy.ioDir (hs : s.Tidy p) {c : FolderCall} (hworks : Works c)
    (hfits : (s.ioDir p c).2.Fits) :
    (s.ioDir p c).2.Tidy p ∧ ((s.ioDir p c).1 ≠ 0 → ∃ contact, c.contact = some contact
      ∧ (s.ioDir p c).2.Path p (s.outDir p c).1 (s.ioDir p c).1 c.name contact) := by
  have houter : (s.outDir p c).2.Fits → (s.outDir p c).2.Tidy p ∧ ((s.outDir p c).1 ≠ 0 →
      (s.outDir p c).2.Holds p (s.outDir p c).1 0 c.name) :=
    hs.openFolder hcovers htext (.inl rfl) hworks.name hworks.outer
  unfold NodeStore.ioDir at hfits ⊢
  cases hcontact : c.contact with
  | none => exact ⟨hs, fun h => absurd rfl h⟩
  | some contact =>
    rw [hcontact] at hfits
    dsimp only at hfits ⊢
    by_cases hzero : (s.outDir p c).1 = 0
    · rw [if_pos hzero] at hfits ⊢
      exact ⟨(houter hfits).1, fun h => absurd rfl h⟩
    · rw [if_neg hzero] at hfits ⊢
      have hext := extends_openFolder (p := p) (s.outDir p c).2 c.inner (.int64 (s.outDir p c).1) contact
      obtain ⟨htidy, hholds⟩ := houter (fun r hr => hfits r (hext r hr))
      obtain ⟨htidy', hholds'⟩ := htidy.openFolder hcovers htext (.inr ⟨_, rfl⟩)
        (hworks.contact contact hcontact) hworks.inner hfits
      exact ⟨htidy', fun hid => ⟨contact, rfl, (hholds hzero).extends hext, hholds' hid⟩⟩

include hcovers htext in
/-- **A call for folders that are there.** -/
theorem Tidy.ioDir_of_path (hs : s.Tidy p) {c : FolderCall} (hworks : Works c) {outer : BitVec 64}
    {contact : Bytes} (hcontact : c.contact = some contact) (h : s.Path p outer id c.name contact) :
    s.ioDir p c = (id, s) := by
  have houter : s.outDir p c = (outer, s) :=
    hs.openFolder_of_holds hcovers htext (.inl rfl) hworks.name hworks.outer h.1
  unfold NodeStore.ioDir
  rw [hcontact, houter]
  dsimp only
  rw [if_neg h.1.ne_zero]
  exact hs.openFolder_of_holds hcovers htext (.inr ⟨_, rfl⟩) (hworks.contact _ hcontact)
    hworks.inner h.2

/-! ## Steps -/

theorem Tidy.removed (hs : s.Tidy p) (id : BitVec 64) : (s.removed id).Tidy p where
  nodup := hs.nodup.sublist (List.filter_sublist.map _)
  fits := fun r hr => hs.fits r (List.mem_of_mem_filter hr)
  sorted := fun r hr => hs.sorted r (List.mem_of_mem_filter hr)
  unique := fun r hr r' hr' =>
    hs.unique r (List.mem_of_mem_filter hr) r' (List.mem_of_mem_filter hr')

include htext in
theorem Tidy.changed (hs : s.Tidy p) (hadmits : (s.removed id).Admits p obj) :
    (s.changed id obj).Tidy p := by
  have hids : (s.changed id obj).rows.map (·.1) = s.rows.map (·.1) := by
    show (s.rows.map _).map _ = _
    rw [List.map_map]
    refine List.map_congr_left (fun r _ => ?_)
    dsimp only [Function.comp]
    split
    · rename_i hid
      exact hid.symm
    · rfl
  have hrows : ∀ r ∈ (s.changed id obj).rows, r ∈ (s.removed id).rows ∨ r = (id, obj) := by
    intro r hr
    obtain ⟨r', hr', rfl⟩ := List.mem_map.mp hr
    split
    · exact .inr rfl
    · rename_i hid
      exact .inl (List.mem_filter.mpr ⟨hr', decide_eq_true hid⟩)
  refine (hs.removed id).add htext hadmits hrows (hids ▸ hs.nodup) (fun r hr => ?_)
  obtain ⟨r', hr', hid⟩ := List.mem_map.mp (hids ▸ List.mem_map_of_mem hr)
  exact hid ▸ hs.fits r' hr'

include htext in
theorem Tidy.stored (hs : s.Tidy p) (hadmits : s.Admits p obj) (hfits : (s.stored p obj).Fits) :
    (s.stored p obj).Tidy p := by
  unfold NodeStore.stored at hfits ⊢
  split at hfits
  · exact hs
  · exact hs.append htext _ hadmits hfits

include hcovers htext in
/-- Of each folder there is one after every step. -/
theorem Tidy.step (hs : s.Tidy p) {e : FolderEvent} (hgood : Good p s e) :
    (perform p s e).2.Tidy p := by
  cases e with
  | ioDir c => exact (hs.ioDir hcovers htext hgood.1 hgood.2).1
  | stored obj => exact hs.stored htext hgood.1 hgood.2
  | changed id obj => exact hs.changed htext hgood
  | removed id => exact hs.removed id

/-- A folder stays if it is not touched. -/
theorem Holds.step (h : s.Holds p id parent name) {e : FolderEvent} (hkept : e.touched ≠ some id) :
    (perform p s e).2.Holds p id parent name := by
  cases e with
  | ioDir c => exact h.extends (extends_ioDir s c)
  | stored obj =>
    refine h.extends ?_
    show s.Extends (s.stored p obj)
    unfold NodeStore.stored
    split
    · exact fun _ hr => hr
    · exact extends_append _
  | changed id' obj =>
    obtain ⟨obj', hmem, hfolder⟩ := h
    refine ⟨obj', List.mem_map.mpr ⟨(id, obj'), hmem, if_neg (fun hid => hkept ?_)⟩, hfolder⟩
    exact congrArg some hid.symm
  | removed id' =>
    obtain ⟨obj', hmem, hfolder⟩ := h
    refine ⟨obj', List.mem_filter.mpr ⟨hmem, decide_eq_true (fun hid => hkept ?_)⟩, hfolder⟩
    exact congrArg some hid.symm

end

/-! ## Runs -/

theorem tidy_of_empty (h : s.rows = []) : s.Tidy p := by
  have hnone : ∀ r, r ∉ s.rows := fun r hr => by
    rw [h] at hr
    cases hr
  exact ⟨h ▸ List.nodup_nil, fun r hr => absurd hr (hnone r), fun r hr => absurd hr (hnone r),
    fun r hr => absurd hr (hnone r)⟩

/-- **Two calls get the same folder just if they are for the same names**, whatever happens in between,
unless the folder or the one it lies in is changed or removed. The later of two such calls makes
nothing. -/
theorem ioDir_eq_iff (hcovers : VirtualTable.Covering p vfs)
    (htext : ∀ a b, p.sqlite.compare .eq (.text a) (.text b) = decide (a = b))
    {s₀ s₁ : NodeStore} (hempty : s₀.rows = []) {c c' : FolderCall} {es es' : List FolderEvent}
    (hmeets : Meets (performed (perform p)) (Good p) s₀ (es ++ .ioDir c :: (es' ++ [.ioDir c'])))
    (hrun : run (performed (perform p)) s₀ es = some s)
    (hanswered : s.ioDir p c = (id, s₁)) (hid : id ≠ 0)
    (hrun' : run (performed (perform p)) s₁ es' = some s')
    (hkept : ∀ e ∈ es', e.touched ≠ some id ∧ e.touched ≠ some (s.outDir p c).1) :
    ((s'.ioDir p c').1 = id ↔ c'.contact = c.contact ∧ c'.name = c.name)
      ∧ ((s'.ioDir p c').1 = id → (s'.ioDir p c').2 = s') := by
  -- up to the first call
  have hstep : ∀ s e s', s.Tidy p → Good p s e → performed (perform p) s e = some s' → s'.Tidy p := by
    rintro s e s' hs hgood hnext
    obtain rfl := Option.some.inj hnext
    exact hs.step hcovers htext hgood
  have hs : s.Tidy p := run_invariant_of_meets hstep (tidy_of_empty hempty) hmeets.of_append hrun
  obtain ⟨⟨hworks, hfits⟩, hrest⟩ := hmeets.rest hrun
  obtain ⟨hs₁, hpath⟩ := hs.ioDir hcovers htext hworks hfits
  rw [hanswered] at hs₁ hpath
  obtain ⟨contact, hcontact, hpath⟩ := hpath hid
  -- up to the second call
  have hnext : (perform p s (.ioDir c)).2 = s₁ := congrArg (·.2) hanswered
  have hrest' := hrest s₁ (congrArg some hnext)
  have hspared := hrest'.of_append.and (meets_of_forall (fun e he _ => hkept e he))
  have hpaths : ∀ t e t', (t.Tidy p ∧ t.Path p (s.outDir p c).1 id c.name contact) →
      (Good p t e ∧ e.touched ≠ some id ∧ e.touched ≠ some (s.outDir p c).1) →
      performed (perform p) t e = some t' →
      t'.Tidy p ∧ t'.Path p (s.outDir p c).1 id c.name contact := by
    rintro t e t' ⟨ht, houter, hinner⟩ ⟨hgood, hid, houterid⟩ hnext
    obtain rfl := Option.some.inj hnext
    exact ⟨ht.step hcovers htext hgood, houter.step houterid, hinner.step hid⟩
  obtain ⟨hs', hpath'⟩ := run_invariant_of_meets hpaths ⟨hs₁, hpath⟩ hspared hrun'
  obtain ⟨⟨hworks', hfits'⟩, -⟩ := hrest'.rest hrun'
  -- the second call
  have hsame : c'.contact = c.contact ∧ c'.name = c.name → s'.ioDir p c' = (id, s') := by
    rintro ⟨hcontact', hname⟩
    have hthere : s'.Path p (s.outDir p c).1 id c'.name contact := by
      rw [hname]
      exact hpath'
    exact hs'.ioDir_of_path hcovers htext hworks' (hcontact'.trans hcontact) hthere
  have hother : (s'.ioDir p c').1 = id → c'.contact = c.contact ∧ c'.name = c.name := by
    intro heq
    obtain ⟨htidy, hpath''⟩ := hs'.ioDir hcovers htext hworks' hfits'
    rw [heq] at hpath''
    obtain ⟨contact', hcontact', houter, hinner⟩ := hpath'' hid
    have hext := extends_ioDir (p := p) s' c'
    obtain ⟨hparent, rfl⟩ := htidy.names (hpath'.2.extends hext) hinner
    rw [← hparent] at houter
    obtain ⟨-, hname⟩ := htidy.names (hpath'.1.extends hext) houter
    exact ⟨hcontact'.trans hcontact.symm, hname.symm⟩
  exact ⟨⟨hother, fun h => congrArg Prod.fst (hsame h)⟩, fun h => congrArg Prod.snd (hsame (hother h))⟩

/-- A call for the folder of `b` in `a`. -/
def callB (time : BitVec 64) : FolderCall where
  contact := some (lit "b")
  name := lit "a"
  outer := ⟨true, true, true, time⟩
  inner := ⟨true, true, true, time⟩

/-- An object of another table. -/
def contactB : Object := [(lit "name", Value.ofString (lit "b"))]

/-- The store after the first call, and after the object is stored. -/
def withFolders : NodeStore := (empty.ioDir .plain (callB 1)).2

def withContact : NodeStore := withFolders.stored .plain contactB

theorem callB_works (time : BitVec 64) : Works (callB time) := by
  have ha : Nameable (lit "a") := ⟨by decide, by decide⟩
  have hb : Nameable (lit "b") := ⟨by decide, by decide⟩
  refine ⟨rfl, rfl, ha, fun name hname => ?_⟩
  exact Option.some.inj hname ▸ hb

theorem foreign_contactB : Foreign .plain contactB :=
  fun _ _ h => absurd h.2.1 Bool.false_ne_true

/-- A call at another time, after an object has been stored. -/
theorem ioDir_eq_iff_later : (withContact.ioDir .plain (callB 5)).1 = 2
    ∧ (withContact.ioDir .plain (callB 5)).2 = withContact := by
  have hfirst : empty.ioDir .plain (callB 1) = (2, withFolders) := Prod.ext (by decide +kernel) rfl
  have hfits : withFolders.Fits := by
    unfold Fits
    decide +kernel
  have hfits' : withContact.Fits := by
    unfold Fits
    decide +kernel
  have hfits'' : (withContact.ioDir .plain (callB 5)).2.Fits := by
    unfold Fits
    decide +kernel
  have hmeets : Meets (performed (perform .plain)) (Good .plain) empty
      ([] ++ .ioDir (callB 1) :: ([.stored contactB] ++ [.ioDir (callB 5)])) := by
    refine .cons ⟨callB_works 1, hfits⟩ rfl ?_
    refine .cons ⟨.inl foreign_contactB, hfits'⟩ rfl ?_
    exact .cons ⟨callB_works 5, hfits''⟩ rfl trivial
  obtain ⟨hiff, hsame⟩ := ioDir_eq_iff (VirtualTable.covering_rowidPlan .plain vfs rfl)
    (fun a b => by simp [Platform.plain, Behaviour.plain]) rfl hmeets rfl hfirst (by decide) rfl
    (fun e he => by obtain rfl := List.mem_singleton.mp he; exact ⟨nofun, nofun⟩)
  have hid := hiff.mpr ⟨rfl, rfl⟩
  exact ⟨hid, hsame hid⟩

end NodeStore

end Zway.Client
