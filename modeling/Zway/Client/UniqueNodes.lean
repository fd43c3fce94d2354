import Mathlib.Data.Fintype.EquivFin
import Zway.Client.Nodes
import Zway.Lib.Run
import Zway.Store.Terms
import Zway.Store.VirtualInsert

/-!
# When the nodes of the file tree are unique

`createVfsNode` looks for the whole node that it is going to insert. So it finds a node with the
same type, parent and name only if the rest is the same, too: the status, the time, and what the
caller has given. `unique_of_run` says that this is all that has to be taken care of.
-/

namespace Zway.Client.NodeStore

open Ubj Ubj.Store Ubj.Store.VirtualTable Sql

variable {p : Platform} {s s' : NodeStore}

/-! ## What is said of the tree -/

/-- The type, the parent and the name of a node, as a query reports them. -/
def key (obj : Object) : Val × Val × Val :=
  (xColumn obj (lit "type"), xColumn obj (lit "parent"), xColumn obj (lit "name"))

/-- The column that a field is about. -/
def columnOf (name : Bytes) : Bytes := ((vfs.table []).resolve name).getD name

/-- The value that a node is given for a column. Of fields that differ only in case the first one
counts. -/
def given (node : Object) (column : Bytes) : Option Value :=
  (node.find? (fun f => decide (columnOf f.1 = column))).map (·.2)

/-- The fields that are about the rowid. -/
def rowidFields (node : Object) : Object :=
  node.filter (fun f => decide (columnOf f.1 = lit "rowid"))

section

variable (p)

/-- The rows of `vfs`. -/
def nodes (s : NodeStore) : List (BitVec 64 × Object) := s.rows.filter (fun r => ofVfs p r.2)

/-- **No two nodes have the same type, parent and name.** -/
def Unique (s : NodeStore) : Prop :=
  ∀ r ∈ s.nodes p, ∀ r' ∈ s.nodes p, key r.2 = key r'.2 → r.1 = r'.1

/-- What a call is to keep up. -/
structure Kept (s : NodeStore) (c : NodeCall) : Prop where
  unique : (s.createVfsNode p c).2.Unique p
  refused : (s.createVfsNode p c).1 = 0 → (s.createVfsNode p c).2.rows = s.rows

/-- What a column shows of the value that a node is given for it. -/
def shown (node : Object) (column : Bytes) : Val :=
  (((given node column).bind (storedValue p)).map columnVal).getD .null

/-- The type, the parent and the name that a node is stored with. -/
def keyOf (node : Object) : Val × Val × Val :=
  (shown p node (lit "type"), shown p node (lit "parent"), shown p node (lit "name"))

/-- A node that can be stored: its fields are columns, and no value is too big. -/
structure Storable (s : NodeStore) (c : NodeCall) : Prop where
  columns : ∀ f ∈ c.node, ((vfs.table []).resolve f.1).isSome = true
  values : (paramVals p (c.node.map (·.2))).isSome = true
  inserts : c.inserts = true
  newId : (Rows.newId p.sqlite s.rows).isSome = true

/-- **A row has all the fields of a node**: what the node compares with each column holds there. -/
def Alike (node : Object) (id : BitVec 64) (obj : Object) : Prop :=
  ∀ f ∈ node, p.sqlite.compare (termOf f.2).1 ((vfs.table []).value id (xColumn obj) (columnOf f.1))
    ((boundVal p (termOf f.2).2).getD .null) = true

/-- A node that is there already. If a field asks for a rowid, it may be a row of any table. -/
def Known (s : NodeStore) (node : Object) : Prop :=
  (∃ r ∈ s.listed p, Alike p node (r.1.setWidth 64) r.2)
    ∨ ((∃ f, rowidFields node = [f] ∧ (termOf f.2).1 = .eq)
      ∧ ∃ id obj, Rows.record s.rows id = some obj ∧ Alike p node (id.setWidth 64) obj)

/-- There is no asking for a node: the store does not answer, a field has no term in a query, or a
value is too big. -/
def Unasked (c : NodeCall) : Prop :=
  c.counts = false ∨ complete c.node = false
    ∨ (paramVals p (c.node.map (fun f => (termOf f.2).2))).isSome = false

/-- A call that keeps the nodes unique: if it can make a node, and the type, the parent and the name
of it are taken, then there is a node that has everything else, too, or no asking for it. If a field
is not named like a column, then what is made of the fields has others. -/
structure Careful (s : NodeStore) (c : NodeCall) : Prop where
  named : ¬ Named c.node → c.inserts = true → ∀ obj, inserted p c.node = some obj →
    ∀ r ∈ s.nodes p, key r.2 ≠ key obj
  known : Named c.node → Storable p s c → (∃ r ∈ s.nodes p, key r.2 = keyOf p c.node) →
    Unasked p c ∨ s.Known p c.node

/-- The query for the whole node finds a row, or it is an error. -/
def Finds (s : NodeStore) (c : NodeCall) : Prop :=
  c.counts = true → ∀ stmt vals, prepare p (CountAction.sql vfs.name c.node).1 = some stmt →
    paramVals p (CountAction.sql vfs.name c.node).2 = some vals → s.selected p (condOf stmt) vals ≠ []

end

/-! ## Counting -/

theorem length_lt_of_nodup {l : List (BitVec 32)} (hnodup : l.Nodup) (hzero : 0 ∉ l) :
    l.length < 2 ^ 32 := by
  have hall : ((0 :: l).map BitVec.toFin).Nodup := by
    refine List.Nodup.map ?_ (List.nodup_cons.mpr ⟨hzero, hnodup⟩)
    intro a b h
    exact BitVec.eq_of_toFin_eq h
  have hcard := hall.length_le_card
  rw [Fintype.card_fin, List.length_map, List.length_cons] at hcard
  omega

theorem rowOf_spec {id : BitVec 32} {r : BitVec 64 × Row} (h : s.rowOf id = some r) :
    r.1 = id.setWidth 64 ∧ id ≠ 0 := by
  obtain ⟨obj, hrecord, rfl⟩ := Option.map_eq_some_iff.mp h
  refine ⟨rfl, ?_⟩
  rintro rfl
  exact s.low _ (OrdMap.mem_of_find? hrecord) rfl

theorem listed_nodup (s : NodeStore) : ((s.listed p).map (·.1)).Nodup := Rows.nodup_scan ..

/-- Fewer rows are selected than a `uint32_t` can count. -/
theorem selected_length_lt (s : NodeStore) (cond : Option Cond) (vals : List Val) :
    (s.selected p cond vals).length < 2 ^ 32 := by
  have hscan : ∀ scan, (((s.scanIds p scan).filterMap s.rowOf).map (·.1)).Nodup := by
    intro scan
    have hids : (s.scanIds p scan).Nodup := by
      unfold scanIds
      cases pickedBy scan with
      | none => exact s.listed_nodup
      | some c => exact List.nodup_singleton _
    refine List.Nodup.map_on ?_ (List.Nodup.filterMap ?_ hids)
    rotate_left
    · intro id id' r hr hr'
      have hsame := (rowOf_spec hr).1.symm.trans (rowOf_spec hr').1
      have hback := congrArg (BitVec.setWidth 32) hsame
      rwa [setWidth_setWidth, setWidth_setWidth] at hback
    · intro r hr r' hr' he
      obtain ⟨id, -, hid⟩ := List.mem_filterMap.mp hr
      obtain ⟨id', -, hid'⟩ := List.mem_filterMap.mp hr'
      have hback := congrArg (BitVec.setWidth 32) ((rowOf_spec hid).1.symm.trans (he.trans (rowOf_spec hid').1))
      rw [setWidth_setWidth, setWidth_setWidth] at hback
      rw [hback] at hid
      exact Option.some.inj (hid.symm.trans hid')
  have hnodup : ((s.selected p cond vals).map (·.1)).Nodup := by
    refine (gather_nodup (fun rows hrows => ?_)).sublist (List.filter_sublist.map _)
    obtain ⟨scan, -, rfl⟩ := List.mem_map.mp hrows
    exact hscan scan
  have hrow : ∀ r ∈ s.selected p cond vals, ∃ id : BitVec 32, r.1 = id.setWidth 64 ∧ id ≠ 0 := by
    intro r hr
    obtain ⟨rows, hrows, hmem⟩ := mem_of_mem_gather (List.mem_of_mem_filter hr)
    obtain ⟨scan, -, rfl⟩ := List.mem_map.mp hrows
    obtain ⟨id, -, hid⟩ := List.mem_filterMap.mp hmem
    exact ⟨id, rowOf_spec hid⟩
  have hlow : ((s.selected p cond vals).map (·.1.setWidth 32)).Nodup := by
    rw [show (fun r : BitVec 64 × Row => r.1.setWidth 32) = BitVec.setWidth 32 ∘ (·.1) from rfl,
      ← List.map_map]
    refine List.Nodup.map_on ?_ hnodup
    intro x hx y hy he
    obtain ⟨r, hr, rfl⟩ := List.mem_map.mp hx
    obtain ⟨r', hr', rfl⟩ := List.mem_map.mp hy
    obtain ⟨id, hid, -⟩ := hrow r hr
    obtain ⟨id', hid', -⟩ := hrow r' hr'
    rw [hid, hid', setWidth_setWidth, setWidth_setWidth] at he
    rw [hid, hid', he]
  have hzero : (0 : BitVec 32) ∉ (s.selected p cond vals).map (·.1.setWidth 32) := by
    intro hmem
    obtain ⟨r, hr, he⟩ := List.mem_map.mp hmem
    obtain ⟨id, hid, hne⟩ := hrow r hr
    rw [hid, setWidth_setWidth] at he
    exact hne he
  have hlen := length_lt_of_nodup hlow hzero
  rwa [List.length_map] at hlen

/-- **When the query finds nothing.** -/
theorem count_pos_iff (s : NodeStore) (c : NodeCall) :
    0 < (s.count p c.counts c.node).toNat ↔ s.Finds p c := by
  have herror : 0 < (-1 : BitVec 32).toNat := by decide
  unfold count Finds
  cases c.counts with
  | false => exact ⟨fun _ h => absurd h Bool.false_ne_true, fun _ => herror⟩
  | true =>
    rw [if_pos rfl]
    cases hstmt : prepare p (CountAction.sql vfs.name c.node).1 with
    | none => exact ⟨fun _ _ stmt vals h => (by cases h), fun _ => herror⟩
    | some stmt =>
      dsimp only
      cases hvals : paramVals p (CountAction.sql vfs.name c.node).2 with
      | none => exact ⟨fun _ _ stmt vals _ h => (by cases h), fun _ => herror⟩
      | some vals =>
        dsimp only
        rw [BitVec.toNat_ofNat, Nat.mod_eq_of_lt (s.selected_length_lt _ _)]
        constructor
        · rintro hpos - stmt' vals' hs hv
          obtain rfl := Option.some.inj hs
          obtain rfl := Option.some.inj hv
          exact List.ne_nil_of_length_pos hpos
        · intro h
          exact List.length_pos_of_ne_nil (h rfl stmt vals rfl rfl)

/-! ## Asking for a node -/

/-- The condition of the query for a node. -/
def nodeCond (node : Object) : Option Cond :=
  conj none ((termsOf 0 node).map (fun t => (columnOf t.1, t.2)))

theorem resolve_columnOf {name : Bytes} (h : ((vfs.table []).resolve name).isSome = true) :
    (vfs.table []).resolve name = some (columnOf name) := by
  obtain ⟨c, hc⟩ := Option.isSome_iff_exists.mp h
  unfold columnOf
  rw [hc]
  rfl

theorem resolve_vfs {stmt : Stmt} (htable : stmt.table = vfs.name) :
    stmt.resolve (vfs.visible fun _ => none) = stmt.rename (vfs.table []).resolve := by
  unfold Stmt.resolve visible
  rw [htable, Function.update_self]
  rfl

section

variable {node : Object}

/-- What the query says. -/
theorem prepare_count (h : Named node)
    (hcolumns : ∀ f ∈ node, ((vfs.table []).resolve f.1).isSome = true)
    (hcomplete : complete node = true) :
    prepare p (CountAction.sql vfs.name node).1 = some (.count vfs.name (nodeCond node)) := by
  have hrename : renameWhere (vfs.table []).resolve (conj none (termsOf 0 node))
      = some (nodeCond node) := by
    refine renameWhere_conj rfl (fun t ht => ?_)
    obtain ⟨f, hf, hkey⟩ := mem_termsOf ht
    rw [hkey]
    exact resolve_columnOf (hcolumns f hf)
  have hplanned : planned p (.count vfs.name (nodeCond node)) = true :=
    planned_of_onTop p rowidOnTop_conj
  unfold prepare
  rw [parse_count_eq vfs.name_isName, parseWhere_names 0 h hcomplete, Option.map_some,
    Option.bind_some, resolve_vfs rfl, Stmt.rename, hrename, Option.map_some, Option.filter_some,
    if_pos hplanned]

/-- A field without a term is an error. -/
theorem prepare_count_none (h : Named node) (htext : (wherePart node).1.isEmpty = false)
    (hcomplete : complete node = false) : prepare p (CountAction.sql vfs.name node).1 = none := by
  have hnone : parseWhere 0 (tokens (whereText node)) = none := by
    rcases parseWhere_of_not_complete 0 h.wellNamed hcomplete with hnone | hall
    · exact hnone
    · unfold whereText at hall
      rw [htext, if_neg Bool.false_ne_true, parseWhere_text] at hall
      obtain ⟨c, -, hc⟩ := Option.map_eq_some_iff.mp hall
      cases hc
  unfold prepare
  rw [parse_count_eq vfs.name_isName, hnone]
  rfl

/-- A row meets the condition if it is alike. -/
theorem meets_node {vals : List Val}
    (hvals : paramVals p (node.map (fun f => (termOf f.2).2)) = some vals) {id : BitVec 64}
    {obj : Object} :
    meets p vfs (nodeCond node) vals id (xColumn obj) = true ↔ Alike p node id obj := by
  have hmeets : meets p vfs (nodeCond node) vals id (xColumn obj)
      = (nodeCond node).all (·.eval (fun column op k => p.sqlite.compare op
          ((vfs.table []).value id (xColumn obj) column) (vals.getD k .null))) := by
    unfold meets Table.meets
    cases nodeCond node with
    | none => rfl
    | some cond => rfl
  have hterms := @all_termsOf (node.map (fun f => (termOf f.2).2)) (fun column op v =>
    p.sqlite.compare op ((vfs.table []).value id (xColumn obj) (columnOf column))
      ((boundVal p v).getD .null)) node 0 rfl
  have hsame : meets p vfs (nodeCond node) vals id (xColumn obj)
      = node.all (fun f => p.sqlite.compare (termOf f.2).1
          ((vfs.table []).value id (xColumn obj) (columnOf f.1))
          ((boundVal p (termOf f.2).2).getD .null)) := by
    rw [hmeets, ← hterms]
    unfold nodeCond
    rw [all_conj, Option.all_none, Bool.true_and, List.all_map]
    refine congrArg (List.all (termsOf 0 node)) (funext fun t => ?_)
    show p.sqlite.compare _ _ (vals.getD t.2.2 .null) = _
    rw [paramVals_getD hvals]
  rw [hsame, List.all_eq_true]
  rfl

/-- Which fields are about the rowid can be seen in the condition. -/
theorem rowids_nodeCond :
    (((nodeCond node).map Cond.rowids).getD []).map (·.1)
      = (rowidFields node).map (fun f => (termOf f.2).1) := by
  have hfilter : ∀ (q : Object) (k : Nat),
      ((((termsOf k q).map (fun t => (columnOf t.1, t.2))).filter
          (fun t => decide (t.1 = lit "rowid"))).map (·.2)).map (·.1)
        = (rowidFields q).map (fun f => (termOf f.2).1) := by
    intro q
    induction q with
    | nil => exact fun _ => rfl
    | cons f q ih =>
      intro k
      unfold rowidFields at ih ⊢
      rw [termsOf, List.map_cons]
      by_cases hrowid : columnOf f.1 = lit "rowid"
      · rw [List.filter_cons_of_pos (by exact decide_eq_true hrowid),
          List.filter_cons_of_pos (by exact decide_eq_true hrowid), List.map_cons, List.map_cons,
          ih, List.map_cons]
      · rw [List.filter_cons_of_neg (by exact fun h => hrowid (of_decide_eq_true h)),
          List.filter_cons_of_neg (by exact fun h => hrowid (of_decide_eq_true h)), ih]
  unfold nodeCond
  rw [rowids_conj]
  exact hfilter node 0

end

/-! ## What is selected -/

theorem rowOf_of_record {id : BitVec 32} {obj : Object} (h : Rows.record s.rows id = some obj) :
    s.rowOf id = some (id.setWidth 64, xColumn obj) := congrArg _ h

/-- What is selected is a row of the store that a scan goes through. -/
theorem of_mem_selected {cond : Option Cond} {vals : List Val} {r : BitVec 64 × Row}
    (h : r ∈ s.selected p cond vals) :
    ∃ scan ∈ p.plan cond vals, ∃ id ∈ s.scanIds p scan, ∃ obj, Rows.record s.rows id = some obj
      ∧ r = (id.setWidth 64, xColumn obj) ∧ meets p vfs cond vals r.1 r.2 = true := by
  obtain ⟨hmem, hmeets⟩ := List.mem_filter.mp h
  obtain ⟨rows, hrows, hrow⟩ := mem_of_mem_gather hmem
  obtain ⟨scan, hscan, rfl⟩ := List.mem_map.mp hrows
  obtain ⟨id, hids, hid⟩ := List.mem_filterMap.mp hrow
  obtain ⟨obj, hrecord, rfl⟩ := Option.map_eq_some_iff.mp hid
  exact ⟨scan, hscan, id, hids, obj, hrecord, rfl, hmeets⟩

/-- What a scan goes through is selected if it meets the condition. -/
theorem mem_selected_of_scan {cond : Option Cond} {vals : List Val} {scan : Scan}
    (hscan : scan ∈ p.plan cond vals) {id : BitVec 32} (hid : id ∈ s.scanIds p scan) {obj : Object}
    (hrecord : Rows.record s.rows id = some obj)
    (hmeets : meets p vfs cond vals (id.setWidth 64) (xColumn obj) = true) :
    (id.setWidth 64, xColumn obj) ∈ s.selected p cond vals := by
  have hrow := rowOf_of_record hrecord
  obtain ⟨r, hr, hfst⟩ := exists_mem_gather (List.mem_filterMap.mpr ⟨id, hid, hrow⟩)
    (List.mem_map_of_mem (f := fun scan => (s.scanIds p scan).filterMap s.rowOf) hscan)
  -- a row that was found earlier under the rowid is the same row
  have hsame : r = (id.setWidth 64, xColumn obj) := by
    obtain ⟨rows, hrows, hmem⟩ := mem_of_mem_gather hr
    obtain ⟨scan', -, rfl⟩ := List.mem_map.mp hrows
    obtain ⟨id', -, hid'⟩ := List.mem_filterMap.mp hmem
    have hback := congrArg (BitVec.setWidth 32) ((rowOf_spec hid').1.symm.trans hfst)
    rw [setWidth_setWidth, setWidth_setWidth] at hback
    rw [hback, hrow] at hid'
    exact (Option.some.inj hid').symm
  rw [hsame] at hr
  exact List.mem_filter.mpr ⟨hr, hmeets⟩

theorem record_of_listed {id : BitVec 32} {obj : Object} (h : (id, obj) ∈ s.listed p) :
    Rows.record s.rows id = some obj ∧ ofVfs p obj = true := by
  obtain ⟨obj', hrecord, hobj⟩ := Rows.mem_scan.mp h
  split at hobj
  · rename_i htype
    obtain rfl := Option.some.inj hobj
    exact ⟨hrecord, htype⟩
  · cases hobj

/-- The scan that admits a row goes through it, if it is a node or its rowid is asked for. -/
theorem mem_scanIds_of_admits {scan : Scan} {id : BitVec 32} {obj : Object}
    (hadmits : scan.Admits p.sqlite vfs.columns (id.setWidth 64) (xColumn obj))
    (hlisted : pickedBy scan = none → id ∈ (s.listed p).map (·.1)) : id ∈ s.scanIds p scan := by
  unfold scanIds
  cases hpicked : pickedBy scan with
  | none => exact hlisted hpicked
  | some k =>
    dsimp only
    rw [picked_of_admits p hpicked hadmits, setWidth_setWidth]
    exact List.mem_singleton_self _

/-- A node that meets the condition is selected. -/
theorem mem_selected (hcovers : Covering p vfs) {cond : Option Cond} {vals : List Val}
    {id : BitVec 32} {obj : Object} (hlisted : (id, obj) ∈ s.listed p)
    (hmeets : meets p vfs cond vals (id.setWidth 64) (xColumn obj) = true) :
    (id.setWidth 64, xColumn obj) ∈ s.selected p cond vals := by
  obtain ⟨scan, hscan, hadmits⟩ := hcovers _ _ _ _ hmeets
  exact mem_selected_of_scan hscan
    (mem_scanIds_of_admits hadmits (fun _ => List.mem_map_of_mem hlisted))
    (record_of_listed hlisted).1 hmeets

section

variable {node : Object} {vals : List Val}
  (hvals : paramVals p (node.map (fun f => (termOf f.2).2)) = some vals)
include hvals

/-- **A node that is known is found.** -/
theorem Known.selected (hcovers : Covering p vfs) (h : s.Known p node) :
    s.selected p (nodeCond node) vals ≠ [] := by
  rcases h with ⟨⟨id, obj⟩, hlisted, halike⟩ | ⟨⟨f, hfields, hop⟩, id, obj, hrecord, halike⟩
  · exact List.ne_nil_of_mem (mem_selected hcovers hlisted ((meets_node hvals).mpr halike))
  · -- the one rowid that is named is asked for by every scan, so the row may be of any table
    have hmeets := (meets_node hvals).mpr halike
    have hrowids := @rowids_nodeCond node
    rw [hfields, List.map_singleton, hop] at hrowids
    obtain ⟨cond, hcond⟩ : ∃ cond, nodeCond node = some cond := by
      cases hcond : nodeCond node with
      | none =>
        rw [hcond] at hrowids
        cases hrowids
      | some cond => exact ⟨cond, rfl⟩
    have htop : rowidOnTop (nodeCond node) = true := rowidOnTop_conj
    rw [hcond] at hmeets hrowids htop ⊢
    obtain ⟨⟨op, k⟩, hone, rfl⟩ := List.map_eq_singleton_iff.mp hrowids
    obtain ⟨scan, hscan, hadmits⟩ := hcovers _ _ _ _ hmeets
    have hpicked := picked_of_rowids p htop hone hscan
    refine List.ne_nil_of_mem (mem_selected_of_scan hscan
      (mem_scanIds_of_admits hadmits (fun hnone => ?_)) hrecord hmeets)
    rw [hnone] at hpicked
    cases hpicked

end

/-! ## The node -/

/-- Five fields are always there. -/
theorem find?_node (c : NodeCall) : OrdMap.find? c.node (lit "type") = some (.int32 c.type)
    ∧ OrdMap.find? c.node (lit "parent") = some (.int64 c.parent)
    ∧ OrdMap.find? c.node (lit "time") = some (.int64 c.time)
    ∧ OrdMap.find? c.node (lit "name") = some (Value.ofString c.name) := by
  have hnodup : [lit "type", lit "parent", lit "status", lit "time", lit "name"].Nodup := by decide
  unfold NodeCall.node
  refine ⟨?_, ?_, ?_, ?_⟩
  all_goals
    rw [find?_override_eq _ (by exact hnodup)]
    rfl

/-- So there is a text. -/
theorem text_node (c : NodeCall) : (wherePart c.node).1.isEmpty = false := by
  obtain ⟨htype, -, -, hname⟩ := find?_node c
  cases hnode : c.node with
  | nil =>
    rw [hnode] at htype
    cases htype
  | cons f rest =>
    cases rest with
    | nil =>
      -- one field cannot have two names
      rw [hnode, OrdMap.find?] at htype hname
      split at htype
      · rename_i hkey
        rw [hkey, if_neg (by decide)] at hname
        cases hname
      · cases htype
    | cons g rest =>
      rw [wherePart]
      · simp [lit]
      · exact List.cons_ne_nil _ _

theorem node_ne_nil (c : NodeCall) : c.node ≠ [] := by
  intro hnil
  have htype := (find?_node c).1
  rw [hnil] at htype
  cases htype

section

variable {c : NodeCall} (hnamed : Named c.node)
  (hcolumns : ∀ f ∈ c.node, ((vfs.table []).resolve f.1).isSome = true)
include hnamed hcolumns

/-- **When the query finds something.** -/
theorem finds_iff : s.Finds p c ↔ Unasked p c ∨ ∃ vals,
    paramVals p (c.node.map (fun f => (termOf f.2).2)) = some vals
      ∧ s.selected p (nodeCond c.node) vals ≠ [] := by
  unfold Finds Unasked
  cases c.counts with
  | false => exact ⟨fun _ => .inl (.inl rfl), fun _ h => absurd h Bool.false_ne_true⟩
  | true =>
    cases hcomplete : complete c.node with
    | false =>
      rw [prepare_count_none hnamed (text_node c) hcomplete]
      exact ⟨fun _ => .inl (.inr (.inl rfl)), fun _ _ stmt vals h => (by cases h)⟩
    | true =>
      have hsnd : (CountAction.sql vfs.name c.node).2 = c.node.map (fun f => (termOf f.2).2) :=
        wherePart_snd hnamed hcomplete
      rw [prepare_count hnamed hcolumns hcomplete, hsnd]
      cases hvals : paramVals p (c.node.map (fun f => (termOf f.2).2)) with
      | none => exact ⟨fun _ => .inl (.inr (.inr rfl)), fun _ _ stmt vals _ h => (by cases h)⟩
      | some vals =>
        constructor
        · exact fun h => .inr ⟨vals, rfl, h rfl _ _ rfl rfl⟩
        · rintro ((h | h | h) | ⟨vals', heq, h⟩) - stmt vals'' hstmt hvals'
          · cases h
          · cases h
          · cases h
          · obtain rfl := Option.some.inj hstmt
            obtain rfl := Option.some.inj heq
            obtain rfl := Option.some.inj hvals'
            exact h

theorem finds_of_known (hcovers : Covering p vfs) (h : Unasked p c ∨ s.Known p c.node) :
    s.Finds p c := by
  refine (finds_iff hnamed hcolumns).mpr ?_
  rcases h with hunasked | hknown
  · exact .inl hunasked
  · cases hvals : paramVals p (c.node.map (fun f => (termOf f.2).2)) with
    | none => exact .inl (.inr (.inr (by rw [hvals]; rfl)))
    | some vals => exact .inr ⟨vals, rfl, hknown.selected hvals hcovers⟩

end

/-! ## Storing a node -/

/-- The first column with a name has what it is given. -/
theorem fill_zip {g : Bytes → Bytes} : ∀ (node : Object) (vals : List Val),
    paramVals p (node.map (·.2)) = some vals → vals.length = node.length
      ∧ ∀ column, Row.fill (fun _ => .null) ((node.map (fun f => g f.1)).zip vals) column
        = (((node.find? (fun f => decide (g f.1 = column))).map (·.2)).bind (boundVal p)).getD .null
  | [], vals, h => by
      obtain rfl : vals = [] := (Option.some.inj h).symm
      exact ⟨rfl, fun _ => rfl⟩
  | (k, v) :: node, vals, h => by
      rw [List.map_cons, VirtualTable.paramVals_cons] at h
      obtain ⟨x, hx, h⟩ := Option.bind_eq_some_iff.mp h
      obtain ⟨rest, hrest, rfl⟩ := Option.map_eq_some_iff.mp h
      obtain ⟨hlen, hfill⟩ := fill_zip node rest hrest
      refine ⟨congrArg (· + 1) hlen, fun column => ?_⟩
      rw [List.map_cons, List.zip_cons_cons, Row.fill]
      by_cases hkey : g k = column
      · rw [hkey, Function.update_self, List.find?_cons_of_pos (by exact decide_eq_true hkey)]
        show x = (boundVal p v).getD .null
        rw [hx]
        rfl
      · rw [Function.update_of_ne (Ne.symm hkey), hfill,
          List.find?_cons_of_neg (by exact fun h => hkey (of_decide_eq_true h))]

section

variable {node : Object} (hnamed : Named node) (hne : node ≠ [])
include hnamed hne

/-- What can be inserted has columns for fields. -/
theorem columns_of_inserted {obj : Object} (h : inserted p node = some obj) :
    ∀ f ∈ node, ((vfs.table []).resolve f.1).isSome = true := by
  unfold inserted prepare at h
  rw [parse_insert vfs.name_isName hnamed hne, Option.bind_some, resolve_vfs rfl, Stmt.rename] at h
  cases hcolumns : (node.map (·.1)).mapM (vfs.table []).resolve with
  | none =>
    rw [hcolumns] at h
    cases h
  | some columns =>
    exact fun f hf => isSome_of_mapM hcolumns _ (List.mem_map_of_mem hf)

/-- **What is inserted.** -/
theorem inserted_eq (hcolumns : ∀ f ∈ node, ((vfs.table []).resolve f.1).isSome = true) :
    inserted p node = (paramVals p (node.map (·.2))).map (fun vals => insertedObject p vfs
      (Row.fill (fun _ => .null) (assignmentsOf (node.map (fun f => columnOf f.1)) vals))) := by
  have hnames : (node.map (·.1)).mapM (vfs.table []).resolve
      = some (node.map (fun f => columnOf f.1)) := by
    have hall : ∀ name ∈ node.map (·.1), (vfs.table []).resolve name = some (columnOf name) := by
      intro name hname
      obtain ⟨f, hf, rfl⟩ := List.mem_map.mp hname
      exact resolve_columnOf (hcolumns f hf)
    rw [mapM_eq_map hall, List.map_map]
    rfl
  have hplanned : planned p (.insert vfs.name (node.map (fun f => columnOf f.1))) = true :=
    planned_of_onTop p rfl
  unfold inserted prepare
  rw [parse_insert vfs.name_isName hnamed hne, Option.bind_some, resolve_vfs rfl, Stmt.rename, hnames,
    Option.map_some, Option.filter_some, if_pos hplanned]
  rfl

/-- **The node is stored with the type, the parent and the name that it is given.** -/
theorem key_inserted {obj : Object} (h : inserted p node = some obj) : key obj = keyOf p node := by
  rw [inserted_eq hnamed hne (columns_of_inserted hnamed hne h)] at h
  obtain ⟨vals, hvals, rfl⟩ := Option.map_eq_some_iff.mp h
  obtain ⟨hlen, hfill⟩ := @fill_zip p columnOf node vals hvals
  have hlen' : vals.length = (node.map (fun f => columnOf f.1)).length :=
    hlen.trans (List.length_map _).symm
  have hcolumn : ∀ column ∈ vfs.columns, column ≠ lit "_$type" →
      xColumn (insertedObject p vfs (Row.fill (fun _ => .null)
        (assignmentsOf (node.map (fun f => columnOf f.1)) vals))) column = shown p node column := by
    intro column hmem htype
    unfold xColumn insertedObject shown
    rw [OrdMap.find?_insert_of_ne _ _ htype,
      find?_foldl_setColumn p _ _ _ vfs.columns_nodup (fun _ _ => rfl), if_pos hmem,
      assignmentsOf_eq_zip hlen', hfill]
    unfold given
    cases Option.map _ (node.find? _) with
    | none => rfl
    | some v =>
      show _ = (Option.map columnVal (storedVal p ((boundVal p v).getD .null))).getD .null
      rw [Option.bind_some]
      cases storedVal p ((boundVal p v).getD .null) with
      | none => rfl
      | some w => rfl
  unfold key keyOf
  rw [hcolumn _ (by decide) (by decide), hcolumn _ (by decide) (by decide),
    hcolumn _ (by decide) (by decide)]

end

/-! ## Inserting -/

/-- What is inserted is a node. -/
theorem ofVfs_inserted {obj stored : Object} (h : inserted p obj = some stored) :
    ofVfs p stored = true := by
  unfold inserted at h
  split at h
  · obtain ⟨vals, -, rfl⟩ := Option.map_eq_some_iff.mp h
    refine decide_eq_true ?_
    unfold typeOf insertedObject
    rw [OrdMap.find?_insert_self]
    rfl
  · cases h

theorem mem_nodes {r : BitVec 64 × Object} : r ∈ s.nodes p ↔ r ∈ s.rows ∧ ofVfs p r.2 = true :=
  List.mem_filter

/-- **What a call does**: nothing if the query finds a node, else it adds one, or fails. -/
theorem createVfsNode_cases (s : NodeStore) (c : NodeCall) :
    (s.createVfsNode p c = (0, s)
        ∧ (s.Finds p c ∨ ∀ obj, c.inserts = true → inserted p c.node = some obj →
          Rows.newId p.sqlite s.rows = none))
      ∨ ∃ obj id, ∃ h : Rows.newId p.sqlite s.rows = some id, ¬ s.Finds p c ∧ c.inserts = true
        ∧ inserted p c.node = some obj ∧ s.createVfsNode p c = (id, s.append p id obj h) := by
  unfold createVfsNode
  by_cases hfinds : s.Finds p c
  · rw [if_pos ((s.count_pos_iff c).mpr hfinds)]
    exact .inl ⟨rfl, .inl hfinds⟩
  · rw [if_neg (fun hpos => hfinds ((s.count_pos_iff c).mp hpos))]
    unfold insert
    cases hworks : c.inserts with
    | false =>
      rw [if_neg Bool.false_ne_true]
      exact .inl ⟨rfl, .inr (fun _ h => absurd h Bool.false_ne_true)⟩
    | true =>
      rw [if_pos rfl]
      cases hobj : inserted p c.node with
      | none => exact .inl ⟨rfl, .inr (fun _ _ h => by cases h)⟩
      | some obj =>
        dsimp only
        split
        · rename_i hid
          exact .inl ⟨rfl, .inr (fun _ _ _ => hid)⟩
        · rename_i id hid
          exact .inr ⟨obj, id, hid, hfinds, rfl, rfl, rfl⟩

/-- A new node keeps the nodes unique if its type, parent and name are not taken. -/
theorem Unique.append_iff (hs : s.Unique p) {id : BitVec 64} {obj : Object}
    (h : Rows.newId p.sqlite s.rows = some id) (hobj : ofVfs p obj = true) :
    (s.append p id obj h).Unique p ↔ ∀ r ∈ s.nodes p, key r.2 ≠ key obj := by
  have hnew : ∀ r ∈ s.nodes p, r.1 ≠ id := by
    rintro r hr rfl
    exact (Rows.newId_spec h).1 (List.mem_map_of_mem (mem_nodes.mp hr).1)
  have hmem : ∀ r, r ∈ (s.append p id obj h).nodes p ↔ r ∈ s.nodes p ∨ r = (id, obj) := by
    intro r
    rw [mem_nodes, mem_nodes]
    show r ∈ s.rows ++ [(id, obj)] ∧ _ ↔ _
    rw [List.mem_append, List.mem_singleton]
    constructor
    · rintro ⟨hold | rfl, htype⟩
      · exact .inl ⟨hold, htype⟩
      · exact .inr rfl
    · rintro (⟨hold, htype⟩ | rfl)
      · exact ⟨.inl hold, htype⟩
      · exact ⟨.inr rfl, hobj⟩
  constructor
  · intro hunique r hr hkey
    exact hnew r hr (hunique r ((hmem r).mpr (.inl hr)) (id, obj) ((hmem _).mpr (.inr rfl)) hkey)
  · intro hfree r hr r' hr' hkey
    rcases (hmem r).mp hr with hold | rfl
    · rcases (hmem r').mp hr' with hold' | rfl
      · exact hs r hold r' hold' hkey
      · exact absurd hkey (hfree r hold)
    · rcases (hmem r').mp hr' with hold' | rfl
      · exact absurd hkey.symm (hfree r' hold')
      · rfl

/-- **When a call keeps the nodes unique.** What returns 0 never inserts anything. -/
theorem Unique.kept_of_careful (hs : s.Unique p) (hcovers : Covering p vfs) {c : NodeCall}
    (hcareful : s.Careful p c) : s.Kept p c := by
  rcases s.createVfsNode_cases (p := p) c with ⟨heq, -⟩ | ⟨obj, id, h, hfinds, hworks, hobj, heq⟩
  · refine ⟨?_, fun _ => ?_⟩
    · rw [heq]
      exact hs
    · rw [heq]
  · refine ⟨?_, fun hzero => ?_⟩
    · rw [heq]
      refine (hs.append_iff h (ofVfs_inserted hobj)).mpr ?_
      by_cases hnamed : Named c.node
      · have hcolumns := columns_of_inserted hnamed (node_ne_nil c) hobj
        have hstorable : Storable p s c := by
          refine ⟨hcolumns, ?_, hworks, by rw [h]; rfl⟩
          rw [inserted_eq hnamed (node_ne_nil c) hcolumns] at hobj
          obtain ⟨vals, hvals, -⟩ := Option.map_eq_some_iff.mp hobj
          rw [hvals]
          rfl
        intro r hr hkey
        rw [key_inserted hnamed (node_ne_nil c) hobj] at hkey
        exact hfinds (finds_of_known hnamed hcolumns hcovers
          (hcareful.known hnamed hstorable ⟨r, hr, hkey⟩))
      · exact hcareful.named hnamed hworks obj hobj
    · rw [heq] at hzero
      exact absurd hzero (Rows.newId_spec h).2.2

/-- The name of a node, as it is bound. -/
def nameVal (name : Bytes) : Val := if name.isEmpty then .null else .text name

theorem bare_node {c : NodeCall} (hdata : c.data = []) :
    c.node = [(lit "name", Value.ofString c.name), (lit "parent", .int64 c.parent),
      (lit "status", .int32 0), (lit "time", .int64 c.time), (lit "type", .int32 c.type)] := by
  unfold NodeCall.node
  rw [hdata]
  rfl

/-- Such a node can be stored. -/
theorem storable_bare {c : NodeCall} (hdata : c.data = []) :
    Named c.node ∧ (∀ f ∈ c.node, ((vfs.table []).resolve f.1).isSome = true)
      ∧ (paramVals p (c.node.map (·.2))).isSome = true
      ∧ keyOf p c.node
        = (.integer (c.type.signExtend 64), .integer c.parent, nameVal (cstr c.name)) := by
  have hkeys : c.node.map (·.1) = [lit "name", lit "parent", lit "status", lit "time", lit "type"] := by
    rw [bare_node hdata]
    rfl
  -- its five fields are columns
  have hall : ∀ name ∈ [lit "name", lit "parent", lit "status", lit "time", lit "type"],
      isName name = true ∧ ((vfs.table []).resolve name).isSome = true := by decide
  have hfields : ∀ f ∈ c.node, isName f.1 = true
      ∧ ((vfs.table []).resolve f.1).isSome = true :=
    fun f hf => hall _ (hkeys ▸ List.mem_map_of_mem hf)
  refine ⟨fun f hf => (hfields f hf).1, fun f hf => (hfields f hf).2, ?_, ?_⟩
  · rw [bare_node hdata]
    unfold Value.ofString
    cases c.name with
    | nil => rfl
    | cons b name => rfl
  · have hname : shown p c.node (lit "name") = nameVal (cstr c.name) := by
      rw [bare_node hdata]
      unfold nameVal
      show ((storedValue p (Value.ofString c.name)).map columnVal).getD .null = _
      unfold Value.ofString
      cases c.name with
      | nil => rfl
      | cons b name =>
        show columnVal (Value.ofString (cstr (b :: name))) = _
        unfold Value.ofString
        cases (cstr (b :: name)).isEmpty with
        | true => rfl
        | false => rfl
    unfold keyOf
    rw [hname, bare_node hdata]
    rfl

/-- What is inserted for it. -/
theorem inserted_bare {c : NodeCall} (hdata : c.data = []) :
    ∃ obj, inserted p c.node = some obj ∧ key obj
      = (.integer (c.type.signExtend 64), .integer c.parent, nameVal (cstr c.name)) := by
  obtain ⟨hnamed, hcolumns, hvalues, hkey⟩ := storable_bare (p := p) hdata
  obtain ⟨vals, hvals⟩ := Option.isSome_iff_exists.mp hvalues
  have hobj := inserted_eq (p := p) hnamed (node_ne_nil c) hcolumns
  rw [hvals, Option.map_some] at hobj
  exact ⟨_, hobj, (key_inserted hnamed (node_ne_nil c) hobj).trans hkey⟩

/-- It can be asked for. -/
theorem asked_bare {c : NodeCall} (hdata : c.data = []) (hcounts : c.counts = true) :
    ¬ Unasked p c := by
  have hsaid : complete c.node = true
      ∧ (paramVals p (c.node.map (fun f => (termOf f.2).2))).isSome = true := by
    rw [bare_node hdata]
    unfold Value.ofString
    cases c.name with
    | nil => exact ⟨rfl, rfl⟩
    | cons b name => exact ⟨rfl, rfl⟩
  rintro (h | h | h)
  · exact Bool.false_ne_true (h.symm.trans hcounts)
  · exact Bool.false_ne_true (h.symm.trans hsaid.1)
  · exact Bool.false_ne_true (h.symm.trans hsaid.2)

/-- **A second node is made** if the type, the parent and the name are taken, but no row has the time
of the call. -/
theorem not_careful_bare {c : NodeCall} (hdata : c.data = []) (hcounts : c.counts = true)
    (hinserts : c.inserts = true) (hid : (Rows.newId p.sqlite s.rows).isSome = true)
    (htime : ∀ r ∈ s.rows,
      p.sqlite.compare .eq (xColumn r.2 (lit "time")) (.integer c.time) = false)
    (htaken : ∃ r ∈ s.nodes p, key r.2
      = (.integer (c.type.signExtend 64), .integer c.parent, nameVal (cstr c.name))) :
    ¬ s.Careful p c := by
  intro hcareful
  obtain ⟨hnamed, hcolumns, hvalues, hkey⟩ := storable_bare (p := p) hdata
  -- no row is like the node, as none has its time
  have hother : ∀ id obj, Rows.record s.rows id = some obj → ¬ Alike p c.node (id.setWidth 64) obj := by
    intro id obj hrecord halike
    have hcompare := halike _ (OrdMap.mem_of_find? (find?_node c).2.2.1)
    have hfalse := htime _ (OrdMap.mem_of_find? hrecord)
    exact Bool.false_ne_true (hfalse.symm.trans hcompare)
  rcases hcareful.known hnamed ⟨hcolumns, hvalues, hinserts, hid⟩ (hkey ▸ htaken)
    with hunasked | ⟨⟨id, obj⟩, hlisted, halike⟩ | ⟨-, id, obj, hrecord, halike⟩
  · exact asked_bare hdata hcounts hunasked
  · exact hother _ _ (record_of_listed hlisted).1 halike
  · exact hother _ _ hrecord halike

/-! ## Runs -/

theorem Unique.step (hcovers : Covering p vfs) (hs : s.Unique p) {c : NodeCall}
    (hcareful : s.Careful p c) (hstep : s.step p c = some s') : s'.Unique p := by
  obtain rfl := Option.some.inj hstep
  exact (hs.kept_of_careful hcovers hcareful).unique

/-- No rows. -/
def empty : NodeStore := ⟨[], fun _ h => absurd h List.not_mem_nil⟩

end Zway.Client.NodeStore
