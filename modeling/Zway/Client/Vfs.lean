import Zway.Client.Queries
import Mathlib.Data.Fintype.EquivFin
import Mathlib.Logic.Relation

/-!
# Deleting a directory

The tree of files is stored as parent links, in the table that is emptied while it is walked.
A node goes after everything below it, and below is what lies under directories: nothing is
looked for under a file. The blob of a file goes with the last row that names it, if that row
is a file.
-/

namespace Zway.Client.FileStore

variable {s s' : FileStore} {id : BitVec 64} {node : FileRow} {gone : List (BitVec 64)}

/-! ## Trees -/

def IsParent (s : FileStore) (p c : BitVec 64) : Prop :=
  ∃ row, (c, row) ∈ s.rows ∧ row.table = .vfs ∧ row.value .parent = some p

/-- The files and directories form trees, with small ids, and the blobs of the files are there. -/
structure VfsTree (s : FileStore) : Prop where
  acyclic : ∀ id, ¬ Relation.TransGen s.IsParent id id
  type : ∀ r ∈ s.rows, r.2.table = .vfs → r.2.toInt .type = Directory ∨ r.2.toInt .type = File
  rowid : ∀ r ∈ s.rows, r.2.table = .vfs → r.1.toNat < 2 ^ 31
  data : ∀ r ∈ s.rows, r.2.table = .vfs → ∀ v, r.2.value .data = some v → v.toNat < 2 ^ 31
  blob : ∀ r ∈ s.rows, r.2.table = .vfs → r.2.toInt .type = File →
    ∀ v, r.2.value .data = some v → v ≠ 0 → v ∈ s.blobs

/-- A node and what lies below it under directories. -/
inductive Below (s : FileStore) (top : BitVec 64) : BitVec 64 → Prop
  | self : Below s top top
  | child {p c : BitVec 64} {row : FileRow} : Below s top p → (p, row) ∈ s.rows →
      row.toInt .type = Directory → s.IsParent p c → Below s top c

/-- Finitely many nodes without a cycle. -/
theorem VfsTree.wellFounded (h : s.VfsTree) : WellFounded (fun c p => s.IsParent p c) := by
  have : Finite (BitVec 64) := Finite.of_injective BitVec.toFin (fun _ _ => BitVec.eq_of_toFin_eq)
  have htrans : IsTrans (BitVec 64) (fun c p => Relation.TransGen s.IsParent p c) :=
    ⟨fun _ _ _ hab hbc => hbc.trans hab⟩
  have hirrefl : Std.Irrefl (fun c p => Relation.TransGen s.IsParent p c) := ⟨h.acyclic⟩
  have hwf := Finite.wellFounded_of_trans_of_irrefl (fun c p => Relation.TransGen s.IsParent p c)
  exact Subrelation.wf (fun hparent => Relation.TransGen.single hparent) hwf

theorem row_unique {row row' : FileRow} (h : (id, row) ∈ s.rows) (h' : (id, row') ∈ s.rows) :
    row = row' :=
  Option.some.inj ((OrdMap.find?_of_mem_of_nodup s.nodup h).symm.trans
    (OrdMap.find?_of_mem_of_nodup s.nodup h'))

/-- Every node has one parent at most. -/
theorem IsParent.unique {p p' c : BitVec 64} (h : s.IsParent p c) (h' : s.IsParent p' c) : p = p' := by
  obtain ⟨row, hmem, -, hp⟩ := h
  obtain ⟨row', hmem', -, hp'⟩ := h'
  obtain rfl := row_unique hmem hmem'
  exact Option.some.inj (hp.symm.trans hp')

theorem Below.trans {a b c : BitVec 64} (hab : s.Below a b) (hbc : s.Below b c) : s.Below a c := by
  induction hbc with
  | self => exact hab
  | child _ hmem htype hparent ih => exact .child ih hmem htype hparent

theorem Below.reflTransGen {a b : BitVec 64} (h : s.Below a b) :
    Relation.ReflTransGen s.IsParent a b := by
  induction h with
  | self => exact .refl
  | child _ _ _ hparent ih => exact ih.tail hparent

/-- Of two nodes over a third one lies over the other. -/
theorem Below.total {a b x : BitVec 64} (ha : s.Below a x) (hb : s.Below b x) :
    s.Below a b ∨ s.Below b a := by
  induction ha with
  | self => exact .inr hb
  | @child p c row hbelow hmem htype hparent ih =>
    cases hb with
    | self => exact .inl (.child hbelow hmem htype hparent)
    | child hbelow' _ _ hparent' =>
      obtain rfl := hparent.unique hparent'
      exact ih hbelow'

/-- A child does not lie over its parent. -/
theorem VfsTree.not_below_parent (h : s.VfsTree) {p c : BitVec 64} (hparent : s.IsParent p c) :
    ¬ s.Below c p :=
  fun hbelow => h.acyclic p (.head' hparent hbelow.reflTransGen)

/-- **What lies below two children is different.** -/
theorem VfsTree.disjoint (h : s.VfsTree) {p c c' x : BitVec 64} (hc : s.IsParent p c)
    (hc' : s.IsParent p c') (hne : c ≠ c') (hx : s.Below c x) : ¬ s.Below c' x := by
  -- a child over another one is over the parent, too
  have hover : ∀ {c c' : BitVec 64}, s.IsParent p c → s.IsParent p c' → c ≠ c' → ¬ s.Below c c' := by
    intro c c' hc hc' hne hbelow
    cases hbelow with
    | self => exact hne rfl
    | child hbelow _ _ hparent =>
      obtain rfl := hparent.unique hc'
      exact h.not_below_parent hc hbelow
  intro hx'
  rcases hx.total hx' with hbelow | hbelow
  · exact hover hc hc' hne hbelow
  · exact hover hc' hc (Ne.symm hne) hbelow

/-- Below a directory. -/
theorem below_directory {x : BitVec 64} (hmem : (id, node) ∈ s.rows)
    (htype : node.toInt .type = Directory) :
    s.Below id x ↔ x = id ∨ ∃ c, s.IsParent id c ∧ s.Below c x := by
  constructor
  · intro h
    induction h with
    | self => exact .inl rfl
    | @child p c row hbelow hrow hdir hparent ih =>
      rcases ih with rfl | ⟨c', hc', hbelow'⟩
      · exact .inr ⟨c, hparent, .self⟩
      · exact .inr ⟨c', hc', .child hbelow' hrow hdir hparent⟩
  · rintro (rfl | ⟨c, hparent, hbelow⟩)
    · exact .self
    · exact Below.trans (.child .self hmem htype hparent) hbelow

/-- Nothing is below a file. -/
theorem below_file {x : BitVec 64} (hmem : (id, node) ∈ s.rows)
    (htype : node.toInt .type ≠ Directory) : s.Below id x ↔ x = id := by
  constructor
  · intro h
    induction h with
    | self => rfl
    | child _ hrow hdir _ ih =>
      subst ih
      obtain rfl := row_unique hmem hrow
      exact absurd hdir htype
  · rintro rfl
    exact .self

/-! ## Some nodes have gone -/

/-- A file, or a resource, that is seen names a blob. -/
def Named (s : FileStore) (b : BitVec 64) : Prop :=
  ∃ r ∈ s.rows, r.1.toNat < 2 ^ 32 ∧ (r.2.table = .vfs ∨ r.2.table = .resources)
    ∧ r.2.value .data = some b

/-- A node has a blob. -/
def Has (s : FileStore) (x b : BitVec 64) : Prop :=
  ∃ row, (x, row) ∈ s.rows ∧ row.value .data = some b

/-- Of the nodes that have a blob, the first is a file. -/
def FileFirst (s : FileStore) (b : BitVec 64) : List (BitVec 64) → Prop
  | [] => False
  | x :: rest =>
      (∃ row, (x, row) ∈ s.rows ∧ row.toInt .type = File ∧ row.value .data = some b)
        ∨ (¬ s.Has x b ∧ s.FileFirst b rest)

/-- **The store on the way**: some nodes have gone, the latest first, and the blobs of the files
that were the last to have them. -/
structure Partly (s : FileStore) (gone : List (BitVec 64)) (s' : FileStore) : Prop where
  rows : s'.rows = s.rows.filter (fun r => r.1 ∉ gone)
  seen : ∀ x ∈ gone, x.toNat < 2 ^ 32
  blobs : ∀ b ∈ s'.blobs, b ∈ s.blobs
  lost : ∀ b ∈ s.blobs, b ∉ s'.blobs → b ≠ 0 ∧ s.FileFirst b gone ∧ ¬ s'.Named b
  kept : ∀ b ∈ s'.blobs, b ≠ 0 → s.FileFirst b gone → s'.Named b

theorem Partly.mem_rows (h : s.Partly gone s') {r : BitVec 64 × FileRow} :
    r ∈ s'.rows ↔ r ∈ s.rows ∧ r.1 ∉ gone := by
  rw [h.rows, List.mem_filter, decide_eq_true_iff]

theorem partly_self (s : FileStore) : s.Partly [] s where
  rows := (List.filter_eq_self.mpr (fun _ _ => decide_eq_true List.not_mem_nil)).symm
  seen := fun _ hx => by cases hx
  blobs := fun _ hb => hb
  lost := fun _ hb hnot => absurd hb hnot
  kept := fun _ _ _ hnone => hnone.elim

theorem has_iff {b : BitVec 64} (hmem : (id, node) ∈ s.rows) :
    s.Has id b ↔ node.value .data = some b := by
  constructor
  · rintro ⟨row, hrow, hdata⟩
    obtain rfl := row_unique hmem hrow
    exact hdata
  · exact fun hdata => ⟨node, hmem, hdata⟩

theorem Named.of_subset {b : BitVec 64} (h : s'.Named b) (hrows : ∀ r ∈ s'.rows, r ∈ s.rows) :
    s.Named b := by
  obtain ⟨r, hr, hrest⟩ := h
  exact ⟨r, hrows r hr, hrest⟩

/-- The row of a node goes. -/
theorem Partly.remove_rows (h : s.Partly gone s') (hlt : id.toNat < 2 ^ 32) :
    (s'.remove .vfs (.rowid id)).2.rows = s.rows.filter (fun r => r.1 ∉ id :: gone) := by
  rw [remove_rowid_rows hlt, h.rows, List.filter_filter]
  refine List.filter_congr (fun r _ => ?_)
  rw [← Bool.decide_and, decide_eq_decide, List.mem_cons, not_or]

/-- What is still named when a row goes that does not name it. -/
theorem Named.remove {b : BitVec 64} (h : s'.Named b) (hlt : id.toNat < 2 ^ 32)
    (hmem : (id, node) ∈ s'.rows) (hdata : node.value .data ≠ some b) :
    (s'.remove .vfs (.rowid id)).2.Named b := by
  obtain ⟨⟨id', row⟩, hr, hrest⟩ := h
  refine ⟨(id', row), ?_, hrest⟩
  rw [remove_rowid_rows hlt]
  refine List.mem_filter.mpr ⟨hr, decide_eq_true ?_⟩
  rintro rfl
  obtain rfl := row_unique hmem hr
  exact hdata hrest.2.2

/-- **A directory goes**, after what is below it. -/
theorem Partly.removeDirectory (h : s.Partly gone s') (ht : s.VfsTree) (hmem : (id, node) ∈ s.rows)
    (htable : node.table = .vfs) (htype : node.toInt .type = Directory) (hnew : id ∉ gone) :
    (s'.remove .vfs (.rowid id)).1 ≠ 0
      ∧ s.Partly (id :: gone) (s'.remove .vfs (.rowid id)).2 := by
  have hlt : id.toNat < 2 ^ 32 := by
    have hsmall : id.toNat < 2 ^ 31 := ht.rowid _ hmem htable
    omega
  have hmem' : (id, node) ∈ s'.rows := h.mem_rows.mpr ⟨hmem, hnew⟩
  have hseen : ∀ x ∈ id :: gone, x.toNat < 2 ^ 32 := List.forall_mem_cons.mpr ⟨hlt, h.seen⟩
  refine ⟨fun hzero => ?_, h.remove_rows hlt, hseen, h.blobs, fun b hb hnot => ?_,
    fun b hb hne hfirst => ?_⟩
  · cases (query_rowid.mpr ⟨hmem', hlt⟩).symm.trans (remove_eq_zero.mp hzero)
  · obtain ⟨hne, hfirst, hnamed⟩ := h.lost b hb hnot
    refine ⟨hne, .inr ⟨fun hhas => hnamed ?_, hfirst⟩, fun hstill => hnamed ?_⟩
    · exact ⟨(id, node), hmem', hlt, .inl htable, (has_iff hmem).mp hhas⟩
    · exact hstill.of_subset (fun r hr => List.mem_of_mem_filter hr)
  · rcases hfirst with ⟨row, hrow, hfile, -⟩ | ⟨hnot, hfirst⟩
    · obtain rfl := row_unique hmem hrow
      cases htype.symm.trans hfile
    · exact (h.kept b hb hne hfirst).remove hlt hmem' (fun hdata => hnot ((has_iff hmem).mpr hdata))

/-- What the end of `deleteVfsNode` does: the row goes, and the blob if nothing names it then. -/
theorem deleteFile_eq (hsmall : ∀ v, node.value .data = some v → v.toNat < 2 ^ 31)
    (hremoved : (s.remove .vfs (.rowid id)).1 ≠ 0) :
    (∃ v, node.value .data = some v ∧ v ≠ 0 ∧ ¬ (s.remove .vfs (.rowid id)).2.Named v
        ∧ s.deleteFile id node = (s.remove .vfs (.rowid id)).2.removeBlob v)
      ∨ (∀ v, node.value .data = some v → v ≠ 0 → (s.remove .vfs (.rowid id)).2.Named v)
        ∧ s.deleteFile id node = (true, (s.remove .vfs (.rowid id)).2) := by
  unfold deleteFile
  dsimp only
  rw [if_neg hremoved]
  cases hdata : node.value .data with
  | none =>
    have hzero : node.toInt .data = 0 := by
      unfold FileRow.toInt
      rw [hdata]
      rfl
    refine .inr ⟨fun v hv => (by cases hv), if_neg (fun hfree => hfree.1 hzero)⟩
  | some v =>
    have hlt := hsmall v hdata
    have hint : node.toInt .data = v.setWidth 32 := by
      unfold FileRow.toInt
      rw [hdata]
      rfl
    have hback : (v.setWidth 32).setWidth 64 = v := setWidth_setWidth_of_lt (by omega)
    have hbound : uint32Value (v.setWidth 32) = v := by
      rw [uint32Value_of_lt, hback]
      rw [BitVec.toNat_setWidth]
      omega
    have hzero : v.setWidth 32 = 0 ↔ v = 0 := by
      constructor
      · intro hz
        rw [← hback, hz]
        rfl
      · rintro rfl
        rfl
    have hnamed : ∀ s' : FileStore, s'.count .vfs (.column .data v) = 0
        ∧ s'.count .resources (.column .data v) = 0 ↔ ¬ s'.Named v := by
      intro s'
      rw [count_eq_zero_iff, count_eq_zero_iff]
      constructor
      · rintro ⟨hvfs, hresources⟩ ⟨r, hr, hseen, ht | ht, hv⟩
        · exact hvfs r hr hseen ht hv
        · exact hresources r hr hseen ht hv
      · intro hnone
        exact ⟨fun r hr hseen ht hv => hnone ⟨r, hr, hseen, .inl ht, hv⟩,
          fun r hr hseen ht hv => hnone ⟨r, hr, hseen, .inr ht, hv⟩⟩
    rw [hint, hbound, hback]
    by_cases hfree : v ≠ 0 ∧ ¬ (s.remove .vfs (.rowid id)).2.Named v
    · refine .inl ⟨v, rfl, hfree.1, hfree.2, if_pos ⟨fun hz => hfree.1 (hzero.mp hz), ?_⟩⟩
      exact (hnamed _).mpr hfree.2
    · refine .inr ⟨fun v' hv' hne => ?_, if_neg (fun hcond => hfree ?_)⟩
      · obtain rfl := Option.some.inj hv'
        exact not_not.mp (fun hnone => hfree ⟨hne, hnone⟩)
      · exact ⟨fun hz => hcond.1 (hzero.mpr hz), (hnamed _).mp hcond.2⟩

/-- **A file goes.** Its blob is there, since the row that goes has named it. -/
theorem Partly.deleteFile (h : s.Partly gone s') (ht : s.VfsTree) (hmem : (id, node) ∈ s.rows)
    (htable : node.table = .vfs) (htype : node.toInt .type = File) (hnew : id ∉ gone) :
    (s'.deleteFile id node).1 = true ∧ s.Partly (id :: gone) (s'.deleteFile id node).2 := by
  have hlt : id.toNat < 2 ^ 32 := by
    have hsmall : id.toNat < 2 ^ 31 := ht.rowid _ hmem htable
    omega
  have hmem' : (id, node) ∈ s'.rows := h.mem_rows.mpr ⟨hmem, hnew⟩
  have hremoved : (s'.remove .vfs (.rowid id)).1 ≠ 0 := fun hzero => by
    cases (query_rowid.mpr ⟨hmem', hlt⟩).symm.trans (remove_eq_zero.mp hzero)
  have hsub : ∀ r ∈ (s'.remove .vfs (.rowid id)).2.rows, r ∈ s'.rows :=
    fun r hr => List.mem_of_mem_filter hr
  have hseen : ∀ x ∈ id :: gone, x.toNat < 2 ^ 32 := List.forall_mem_cons.mpr ⟨hlt, h.seen⟩
  have hself : ∀ b, node.value .data = some b → s'.Named b :=
    fun b hdata => ⟨(id, node), hmem', hlt, .inl htable, hdata⟩
  -- a blob that is still there and that another file was the last to have is still named
  have hother : ∀ b ∈ s'.blobs, b ≠ 0 → node.value .data ≠ some b →
      s.FileFirst b (id :: gone) → (s'.remove .vfs (.rowid id)).2.Named b := by
    intro b hb hne hdata hfirst
    rcases hfirst with ⟨row, hrow, -, hdata'⟩ | ⟨-, hfirst⟩
    · obtain rfl := row_unique hmem hrow
      exact absurd hdata' hdata
    · exact (h.kept b hb hne hfirst).remove hlt hmem' hdata
  have hlost : ∀ b ∈ s.blobs, b ∉ s'.blobs → b ≠ 0 ∧ s.FileFirst b (id :: gone)
      ∧ ¬ (s'.remove .vfs (.rowid id)).2.Named b := by
    intro b hb hnot
    obtain ⟨hne, hfirst, hnamed⟩ := h.lost b hb hnot
    refine ⟨hne, .inr ⟨fun hhas => hnamed (hself b ((has_iff hmem).mp hhas)), hfirst⟩, ?_⟩
    exact fun hstill => hnamed (hstill.of_subset hsub)
  rcases deleteFile_eq (ht.data _ hmem htable) hremoved with
    ⟨v, hdata, hne, hnone, heq⟩ | ⟨hnamed, heq⟩
  · have hthere : v ∈ s'.blobs := by
      by_contra hnot
      exact (h.lost v (ht.blob _ hmem htable htype v hdata hne) hnot).2.2 (hself v hdata)
    rw [heq]
    refine ⟨decide_eq_true hthere, h.remove_rows hlt, hseen, fun b hb => ?_, fun b hb hnot => ?_,
      fun b hb hb0 hfirst => ?_⟩
    · exact h.blobs b (List.mem_of_mem_filter hb)
    · by_cases hv : b = v
      · subst hv
        exact ⟨hne, .inl ⟨node, hmem, htype, hdata⟩, hnone⟩
      · exact hlost b hb (fun hin => hnot (List.mem_filter.mpr ⟨hin, decide_eq_true hv⟩))
    · obtain ⟨hin, hv⟩ := List.mem_filter.mp hb
      refine hother b hin hb0 (fun hdata' => of_decide_eq_true hv ?_) hfirst
      exact Option.some.inj (hdata'.symm.trans hdata)
  · rw [heq]
    refine ⟨rfl, h.remove_rows hlt, hseen, h.blobs, hlost, fun b hb hb0 hfirst => ?_⟩
    by_cases hdata : node.value .data = some b
    · exact hnamed b hdata hb0
    · exact hother b hb hb0 hdata hfirst

/-! ## The walk -/

/-- The rowids of the children, as they are collected. -/
def childIds (s : FileStore) (id : BitVec 64) : List (BitVec 64) :=
  (s.scan .vfs (.column .parent id)).map (fun r => r.1.signExtend 64)

/-- The nodes in the order in which they are to go: a directory after all below it. -/
def walk : Nat → FileStore → BitVec 64 → List (BitVec 64)
  | 0, _, _ => []
  | depth + 1, s, id =>
      match s.query .vfs (.rowid id) with
      | none => []
      | some node =>
          if node.toInt .type = Directory then (s.childIds id).flatMap (walk depth s) ++ [id]
          else [id]

/-- Deleting a node deletes it and all below it, whatever else has gone before. -/
def Deletes (s : FileStore) (id : BitVec 64) : Prop :=
  ∃ (enough : Nat) (nodes : List (BitVec 64)),
    (∀ depth, enough ≤ depth → s.walk depth id = nodes) ∧ (∀ x, x ∈ nodes ↔ s.Below id x)
      ∧ ∀ gone s₁, s.Partly gone s₁ → (∀ x, s.Below id x → x ∉ gone) →
        ∃ s₂, (∀ depth, enough ≤ depth → deleteVfsNode depth s₁ id true = some (true, s₂))
          ∧ s.Partly (nodes.reverse ++ gone) s₂

/-- **One child after the other.** -/
theorem VfsTree.deletes_children (ht : s.VfsTree) {p : BitVec 64} :
    ∀ {children : List (BitVec 64)}, children.Nodup →
    (∀ c ∈ children, s.IsParent p c ∧ s.Deletes c) →
    ∃ (enough : Nat) (nodes : List (BitVec 64)),
      (∀ depth, enough ≤ depth → children.flatMap (walk depth s) = nodes)
        ∧ (∀ x, x ∈ nodes ↔ ∃ c ∈ children, s.Below c x)
        ∧ ∀ gone s₁, s.Partly gone s₁ → (∀ c ∈ children, ∀ x, s.Below c x → x ∉ gone) →
          ∃ s₂, (∀ depth, enough ≤ depth →
              deleteChildren (fun s id => deleteVfsNode depth s id true) s₁ children
                = some (true, s₂))
            ∧ s.Partly (nodes.reverse ++ gone) s₂
  | [], _, _ => ⟨0, [], fun _ _ => rfl, fun x => by simp, fun _ s₁ h _ => ⟨s₁, fun _ _ => rfl, h⟩⟩
  | child :: rest, hnodup, hall => by
      obtain ⟨hchild, hrest⟩ := List.nodup_cons.mp hnodup
      obtain ⟨hparent, enough, nodes, hwalk, hbelow, hdeletes⟩ := hall child (List.mem_cons_self ..)
      obtain ⟨enough', nodes', hwalk', hbelow', hdeletes'⟩ := ht.deletes_children hrest
        (fun c hc => hall c (List.mem_cons_of_mem _ hc))
      refine ⟨max enough enough', nodes ++ nodes', fun depth hdepth => ?_, fun x => ?_,
        fun gone s₁ h hthere => ?_⟩
      · rw [List.flatMap_cons, hwalk depth (by omega), hwalk' depth (by omega)]
      · rw [List.mem_append, hbelow, hbelow']
        simp only [List.mem_cons, exists_eq_or_imp]
      · obtain ⟨s₂, hrun, hpartly⟩ := hdeletes gone s₁ h (hthere child (List.mem_cons_self ..))
        -- what is below the other children is still there
        obtain ⟨s₃, hrun', hpartly'⟩ := hdeletes' _ s₂ hpartly (fun c hc x hx hin => by
          rcases List.mem_append.mp hin with hnode | hold
          · refine ht.disjoint hparent (hall c (List.mem_cons_of_mem _ hc)).1 ?_
              ((hbelow x).mp (List.mem_reverse.mp hnode)) hx
            rintro rfl
            exact hchild hc
          · exact hthere c (List.mem_cons_of_mem _ hc) x hx hold)
        refine ⟨s₃, fun depth hdepth => ?_, ?_⟩
        · rw [deleteChildren, hrun depth (by omega)]
          exact hrun' depth (by omega)
        · rw [List.reverse_append, List.append_assoc]
          exact hpartly'

theorem VfsTree.mem_childIds (ht : s.VfsTree) {c : BitVec 64} : c ∈ s.childIds id ↔ s.IsParent id c := by
  have hback : ∀ r ∈ s.scan .vfs (.column .parent id), r.1.signExtend 64 = r.1.setWidth 64 := by
    intro r hr
    obtain ⟨hmem, htable, -⟩ := mem_scan.mp hr
    have hsmall : (r.1.setWidth 64).toNat < 2 ^ 31 := ht.rowid _ hmem htable
    refine uint32Value_of_lt (b := r.1) ?_
    rw [BitVec.toNat_setWidth] at hsmall
    omega
  unfold childIds
  rw [List.mem_map]
  constructor
  · rintro ⟨r, hr, rfl⟩
    obtain ⟨hmem, htable, hparent⟩ := mem_scan.mp hr
    rw [hback r hr]
    exact ⟨r.2, hmem, htable, hparent⟩
  · rintro ⟨row, hmem, htable, hparent⟩
    have hsmall : c.toNat < 2 ^ 31 := ht.rowid _ hmem htable
    obtain ⟨low, rfl⟩ := setWidth_eq_iff.mpr (show c.toNat < 2 ^ 32 by omega)
    have hscan := mem_scan.mpr ⟨hmem, htable, hparent⟩
    exact ⟨(low, row), hscan, hback _ hscan⟩

theorem nodup_childIds (s : FileStore) (id : BitVec 64) : (s.childIds id).Nodup := by
  have hids := (nodup_scan s .vfs .parent id).map (f := uint32Value) (fun _ _ => uint32Value_inj)
  rw [List.map_map] at hids
  exact hids

/-- The children that are still there. -/
theorem Partly.childIds (h : s.Partly gone s')
    (hthere : ∀ c, s.IsParent id c → c ∉ gone) : s'.childIds id = s.childIds id := by
  unfold FileStore.childIds
  rw [scan_filter h.rows (fun r _ hgone => h.seen r.1 (not_not.mp (of_decide_eq_false hgone)))]
  congr 1
  refine List.filter_eq_self.mpr (fun r hr => decide_eq_true ?_)
  obtain ⟨hmem, htable, hparent⟩ := mem_scan.mp hr
  exact hthere _ ⟨r.2, hmem, htable, hparent⟩

/-- **The walk**, by induction on the tree. -/
theorem VfsTree.deletes (ht : s.VfsTree) (id : BitVec 64) :
    ∀ node, (id, node) ∈ s.rows → node.table = .vfs → s.Deletes id := by
  induction id using ht.wellFounded.induction with
  | _ id ih =>
    intro node hmem htable
    have hlt : id.toNat < 2 ^ 32 := by
      have hsmall : id.toNat < 2 ^ 31 := ht.rowid _ hmem htable
      omega
    have hquery : s.query .vfs (.rowid id) = some node := query_rowid.mpr ⟨hmem, hlt⟩
    have hquery' : ∀ {gone s₁}, s.Partly gone s₁ → (∀ x, s.Below id x → x ∉ gone) →
        s₁.query .vfs (.rowid id) = some node :=
      fun h hthere => query_rowid.mpr ⟨h.mem_rows.mpr ⟨hmem, hthere id .self⟩, hlt⟩
    rcases ht.type _ hmem htable with hdir | hfile
    · obtain ⟨enough, nodes, hwalk, hbelow, hdeletes⟩ := ht.deletes_children (nodup_childIds s id)
        (fun c hc => by
          have hparent := ht.mem_childIds.mp hc
          have ⟨row, hrow, hvfs, _⟩ := hparent
          exact ⟨hparent, ih c hparent row hrow hvfs⟩)
      refine ⟨enough + 1, nodes ++ [id], fun depth hdepth => ?_, fun x => ?_,
        fun gone s₁ h hthere => ?_⟩
      · obtain ⟨depth, rfl⟩ := Nat.exists_eq_add_of_le' (show 1 ≤ depth by omega)
        rw [walk, hquery]
        dsimp only
        rw [if_pos hdir, hwalk depth (by omega)]
      · rw [List.mem_append, List.mem_singleton, hbelow, below_directory hmem hdir, or_comm]
        simp only [ht.mem_childIds]
      · have hchild : ∀ c, s.IsParent id c → ∀ x, s.Below c x → x ∉ gone :=
          fun c hparent x hx => hthere x (Below.trans (.child .self hmem hdir hparent) hx)
        obtain ⟨s₂, hrun, hpartly⟩ := hdeletes gone s₁ h
          (fun c hc => hchild c (ht.mem_childIds.mp hc))
        obtain ⟨hremoved, hlast⟩ := hpartly.removeDirectory ht hmem htable hdir (fun hin => by
          rcases List.mem_append.mp hin with hnode | hold
          · obtain ⟨c, hc, hx⟩ := (hbelow id).mp (List.mem_reverse.mp hnode)
            exact ht.not_below_parent (ht.mem_childIds.mp hc) hx
          · exact hthere id .self hold)
        refine ⟨(s₂.remove .vfs (.rowid id)).2, fun depth hdepth => ?_, ?_⟩
        · obtain ⟨depth, rfl⟩ := Nat.exists_eq_add_of_le' (show 1 ≤ depth by omega)
          have hids := h.childIds (fun c hparent => hchild c hparent c .self)
          rw [deleteVfsNode, hquery' h hthere]
          dsimp only
          rw [if_pos hdir, if_pos rfl]
          unfold FileStore.childIds at hids hrun
          rw [hids, hrun depth (by omega)]
          dsimp only
          rw [bne_iff_ne.mpr hremoved]
        · rw [List.reverse_append]
          exact hlast
    · have hnot : node.toInt .type ≠ Directory := by
        rw [hfile]
        decide
      refine ⟨1, [id], fun depth hdepth => ?_, fun x => ?_, fun gone s₁ h hthere => ?_⟩
      · obtain ⟨depth, rfl⟩ := Nat.exists_eq_add_of_le' hdepth
        rw [walk, hquery]
        dsimp only
        rw [if_neg hnot]
      · rw [List.mem_singleton, below_file hmem hnot]
      · obtain ⟨htrue, hpartly⟩ := h.deleteFile ht hmem htable hfile (hthere id .self)
        refine ⟨(s₁.deleteFile id node).2, fun depth hdepth => ?_, hpartly⟩
        obtain ⟨depth, rfl⟩ := Nat.exists_eq_add_of_le' hdepth
        rw [deleteVfsNode, hquery' h hthere]
        dsimp only
        rw [if_neg hnot, if_pos hfile]
        exact congrArg some (Prod.ext htrue rfl)

/-- Where only files have a blob, it is enough that one has it. -/
theorem fileFirst_iff {b : BitVec 64} : ∀ {nodes : List (BitVec 64)},
    (∀ x ∈ nodes, ∀ row, (x, row) ∈ s.rows → row.value .data = some b → row.toInt .type = File) →
    (s.FileFirst b nodes ↔ ∃ x ∈ nodes, s.Has x b)
  | [], _ => by simp [FileFirst]
  | x :: rest, hfiles => by
      have ih := @fileFirst_iff b rest (fun y hy => hfiles y (List.mem_cons_of_mem _ hy))
      rw [FileFirst, ih]
      simp only [List.mem_cons, exists_eq_or_imp]
      constructor
      · rintro (⟨row, hrow, -, hdata⟩ | ⟨-, hrest⟩)
        · exact .inl ⟨row, hrow, hdata⟩
        · exact .inr hrest
      · intro h
        by_cases hhas : s.Has x b
        · obtain ⟨row, hrow, hdata⟩ := hhas
          exact .inl ⟨row, hrow, hfiles x (List.mem_cons_self ..) row hrow hdata, hdata⟩
        · exact .inr ⟨hhas, h.resolve_left hhas⟩

/-- **Deleting a directory.** The walk ends, takes away the nodes below, and the blobs of which
nothing is left and a file was the last to go; where no directory below has the blob, this is
every blob of a file below that nothing is left of. -/
theorem deleteVfsNode_tree (ht : s.VfsTree) (hmem : (id, node) ∈ s.rows) (htable : node.table = .vfs) :
    ∃ (enough : Nat) (s' : FileStore) (nodes : List (BitVec 64)),
      (∀ depth, enough ≤ depth →
        deleteVfsNode depth s id true = some (true, s') ∧ s.walk depth id = nodes)
      ∧ (∀ x, x ∈ nodes ↔ s.Below id x)
      ∧ s'.rows = s.rows.filter (fun r => r.1 ∉ nodes)
      ∧ (∀ b, b ∈ s'.blobs
        ↔ b ∈ s.blobs ∧ ¬ (b ≠ 0 ∧ s.FileFirst b nodes.reverse ∧ ¬ s'.Named b))
      ∧ ∀ b, (∀ x, s.Below id x → ∀ row, (x, row) ∈ s.rows → row.value .data = some b →
          row.toInt .type = File) →
        (s.FileFirst b nodes.reverse ↔ ∃ x, s.Below id x ∧ s.Has x b) := by
  obtain ⟨enough, nodes, hwalk, hbelow, hdeletes⟩ := ht.deletes id node hmem htable
  obtain ⟨s', hrun, hpartly⟩ := hdeletes [] s s.partly_self (fun _ _ => List.not_mem_nil)
  rw [List.append_nil] at hpartly
  refine ⟨enough, s', nodes, fun depth hdepth => ⟨hrun depth hdepth, hwalk depth hdepth⟩, hbelow, ?_,
    fun b => ⟨fun hb => ⟨hpartly.blobs b hb, ?_⟩, ?_⟩, fun b hfiles => ?_⟩
  · rw [hpartly.rows]
    simp only [List.mem_reverse]
  · rintro ⟨hne, hfirst, hnamed⟩
    exact hnamed (hpartly.kept b hb hne hfirst)
  · rintro ⟨hb, hkept⟩
    by_contra hnot
    exact hkept (hpartly.lost b hb hnot)
  · rw [fileFirst_iff (fun x hx => hfiles x ((hbelow x).mp (List.mem_reverse.mp hx)))]
    simp only [List.mem_reverse, hbelow]

/-- A node with a type, a parent and perhaps a blob. -/
def vfsNode (type parent : BitVec 64) (data : Option (BitVec 64)) : FileRow where
  table := .vfs
  value := fun c =>
    match c with
    | .type => some type
    | .parent => some parent
    | .data => data
    | _ => none

/-- A node, and a file with the blob 5 in it. -/
def folder (type : BitVec 64) (data : Option (BitVec 64)) : FileStore where
  rows := [(1, vfsNode type 0 data), (2, vfsNode 2 1 (some 5))]
  nodup := by simp
  blobs := [5]

theorem folder_tree {type : BitVec 64} {data : Option (BitVec 64)} (htype : type = 1 ∨ type = 2)
    (hdata : ∀ v, data = some v → v = 5) : (folder type data).VfsTree where
  acyclic := by
    have hlt : ∀ {p c}, (folder type data).IsParent p c → p.toNat < c.toNat := by
      rintro p c ⟨row, hmem, -, hparent⟩
      rcases List.mem_pair.mp hmem with he | he
      · obtain ⟨rfl, rfl⟩ := Prod.mk.inj he
        obtain rfl := Option.some.inj hparent
        decide
      · obtain ⟨rfl, rfl⟩ := Prod.mk.inj he
        obtain rfl := Option.some.inj hparent
        decide
    intro id hcycle
    have hall : ∀ {a b}, Relation.TransGen (folder type data).IsParent a b → a.toNat < b.toNat := by
      intro a b hab
      induction hab with
      | single hparent => exact hlt hparent
      | tail _ hparent ih => exact ih.trans (hlt hparent)
    exact absurd (hall hcycle) (Nat.lt_irrefl _)
  type := by
    intro r hr _
    rcases List.mem_pair.mp hr with rfl | rfl
    · rcases htype with rfl | rfl
      · exact .inl rfl
      · exact .inr rfl
    · exact .inr rfl
  rowid := by
    intro r hr _
    rcases List.mem_pair.mp hr with rfl | rfl
    · show (1 : BitVec 64).toNat < 2 ^ 31
      decide
    · show (2 : BitVec 64).toNat < 2 ^ 31
      decide
  data := by
    intro r hr _ v hv
    have hfive : v = 5 := by
      rcases List.mem_pair.mp hr with rfl | rfl
      · exact hdata v hv
      · exact (Option.some.inj hv).symm
    subst hfive
    decide
  blob := by
    intro r hr _ _ v hv _
    refine List.mem_singleton.mpr ?_
    rcases List.mem_pair.mp hr with rfl | rfl
    · exact hdata v hv
    · exact (Option.some.inj hv).symm

/-- A directory goes with its file and the blob. -/
theorem deleteVfsNode_tree_folder : ∃ enough s',
    (∀ depth, enough ≤ depth → deleteVfsNode depth (folder 1 none) 1 true = some (true, s'))
      ∧ s'.rows = [] ∧ s'.blobs = [] := by
  obtain ⟨enough, s', nodes, hrun, hnodes, hrows, hblobs, hfirst⟩ := deleteVfsNode_tree
    (@folder_tree 1 none (.inl rfl) (fun _ hv => by cases hv)) (List.mem_pair.mpr (.inl rfl)) rfl
  have hsecond : (folder 1 none).Below 1 2 :=
    .child .self (List.mem_pair.mpr (.inl rfl)) rfl ⟨_, List.mem_pair.mpr (.inr rfl), rfl, rfl⟩
  have hnil : s'.rows = [] := by
    rw [hrows]
    refine List.filter_eq_nil_iff.mpr (fun r hr hkept => of_decide_eq_true hkept ?_)
    rcases List.mem_pair.mp hr with rfl | rfl
    · exact (hnodes 1).mpr .self
    · exact (hnodes 2).mpr hsecond
  refine ⟨enough, s', fun depth hdepth => (hrun depth hdepth).1, hnil,
    List.eq_nil_iff_forall_not_mem.mpr (fun b hb => ?_)⟩
  obtain ⟨hin, hkept⟩ := (hblobs b).mp hb
  obtain rfl := List.mem_singleton.mp hin
  refine hkept ⟨by decide, (hfirst 5 (fun x _ row hrow hdata => ?_)).mpr ?_, ?_⟩
  · rcases List.mem_pair.mp hrow with he | he
    · obtain ⟨-, rfl⟩ := Prod.mk.inj he
      cases hdata
    · obtain ⟨-, rfl⟩ := Prod.mk.inj he
      rfl
  · exact ⟨2, hsecond, _, List.mem_pair.mpr (.inr rfl), rfl⟩
  · rintro ⟨r, hr, -⟩
    rw [hnil] at hr
    cases hr

/-- A node under a file stays, and so does the blob of a directory that its file had, too. -/
theorem deleteVfsNode_incomplete :
    ((folder 2 none).VfsTree
      ∧ Relation.ReflTransGen (folder 2 none).IsParent 1 2
      ∧ ∃ s', (∀ depth, 1 ≤ depth → deleteVfsNode depth (folder 2 none) 1 true = some (true, s'))
        ∧ (2, vfsNode 2 1 (some 5)) ∈ s'.rows)
    ∧ (folder 1 (some 5)).VfsTree
      ∧ ∃ s', (∀ depth, 2 ≤ depth →
          deleteVfsNode depth (folder 1 (some 5)) 1 true = some (true, s'))
        ∧ s'.rows = [] ∧ 5 ∈ s'.blobs := by
  constructor
  · refine ⟨folder_tree (.inr rfl) (fun _ hv => by cases hv), ?_,
      ((folder 2 none).deleteFile 1 (vfsNode 2 0 none)).2, fun depth hdepth => ?_, ?_⟩
    · exact .single ⟨_, List.mem_pair.mpr (.inr rfl), rfl, rfl⟩
    · obtain ⟨depth, rfl⟩ := Nat.exists_eq_add_of_le' hdepth
      rfl
    · exact List.mem_filter.mpr ⟨List.mem_pair.mpr (.inr rfl), rfl⟩
  · refine ⟨folder_tree (.inl rfl) (fun _ hv => (Option.some.inj hv).symm),
      (((folder 1 (some 5)).deleteFile 2 (vfsNode 2 1 (some 5))).2.remove .vfs (.rowid 1)).2,
      fun depth hdepth => ?_, rfl, List.mem_singleton.mpr rfl⟩
    obtain ⟨depth, rfl⟩ := Nat.exists_eq_add_of_le' hdepth
    rfl

end Zway.Client.FileStore
