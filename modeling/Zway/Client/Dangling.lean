import Zway.Client.Queries
import Mathlib.Data.List.Nodup

/-!
# No dangling blobs

A row of `resources` or `vfs` whose blob is gone is left dangling. A file is deleted before
anything else is done, and its blob only goes if no other row has it. A resource is deleted
last, and for its blob only `vfs` is looked at: another resource with the same blob is left
dangling. `deleteResource_noDangling_iff` says that this is the only way, as long as the ids
are small enough for the conversions on the way.
-/

namespace Zway.Client.FileStore

variable {s s' : FileStore} {t : FileTable} {c : FileColumn} {v : BitVec 64} {id : BitVec 32}

/-- The ids are small enough to be converted. -/
structure Small (s : FileStore) : Prop where
  rowid : ∀ r ∈ s.rows, r.1.toNat < 2 ^ 32
  data : ∀ r ∈ s.rows, r.2.table = .vfs ∨ r.2.table = .resources →
    ∀ v, r.2.value .data = some v → v.toNat < 2 ^ 31

/-- **Every blob that a resource or a file names is there.** -/
def NoDangling (s : FileStore) : Prop :=
  ∀ r ∈ s.rows, r.2.table = .vfs ∨ r.2.table = .resources →
    ∀ v, r.2.value .data = some v → v ≠ 0 → v ∈ s.blobs

/-- No other resource has the blob of this one, unless a file has it, too. -/
def Unshared (s : FileStore) (id : BitVec 32) : Prop :=
  ∀ row, s.query .resources (.column .id (uint32Value id)) = some row →
    ∀ v, row.value .data = some v → v ≠ 0 →
      (∃ r ∈ s.rows, r.2.table = .vfs ∧ r.2.value .data = some v)
        ∨ ∀ r ∈ s.rows, r.2.table = .resources → r.2.value .data = some v →
          r.2.value .id = some (uint32Value id)

/-! ## Queries -/

theorem record_of_mem (h : s.Small) {r : BitVec 64 × FileRow} (hr : r ∈ s.rows) :
    s.record (r.1.setWidth 32) = some r.2 := by
  unfold record
  rw [setWidth_setWidth_of_lt (h.rowid r hr)]
  exact OrdMap.find?_of_mem_of_nodup s.nodup hr

/-- The ids are collected in order. -/
theorem foldl_addIndexItem : ∀ {l acc : List (BitVec 32)}, (acc ++ l).Nodup →
    l.foldl addIndexItem acc = acc ++ l
  | [], acc, _ => (List.append_nil acc).symm
  | id :: l, acc, h => by
      have hnew : id ∉ acc := fun hmem =>
        (List.nodup_append.mp h).2.2 id hmem id (List.mem_cons_self ..) rfl
      have hnext : (acc ++ [id] ++ l).Nodup := by rwa [List.append_assoc]
      rw [List.foldl_cons, addIndexItem, if_neg hnew, foldl_addIndexItem hnext, List.append_assoc]
      rfl

theorem ids_eq (h : s.Small) (t : FileTable) :
    s.ids t = (s.rows.filter (fun r => r.2.table = t)).map (fun r => r.1.setWidth 32) := by
  have hfilter : (s.rows.map (·.1.setWidth 32)).filter (fun id => (s.record id).any (·.table = t))
      = (s.rows.filter (fun r => r.2.table = t)).map (fun r => r.1.setWidth 32) := by
    rw [List.filter_map]
    refine congrArg _ (List.filter_congr (fun r hr => ?_))
    show (s.record (r.1.setWidth 32)).any _ = _
    rw [record_of_mem h hr]
    rfl
  have hnodup : ((s.rows.filter (fun r => r.2.table = t)).map (fun r => r.1.setWidth 32)).Nodup := by
    have hrows := nodup_filter s.nodup (fun r => decide (r.2.table = t))
    have hmap := List.Nodup.map_on (f := fun v : BitVec 64 => v.setWidth 32)
      (fun v hv w hw heq => ?_) hrows
    · rw [List.map_map] at hmap
      exact hmap
    · obtain ⟨r, hr, rfl⟩ := List.mem_map.mp hv
      obtain ⟨r', hr', rfl⟩ := List.mem_map.mp hw
      exact setWidth_inj (h.rowid r (List.mem_of_mem_filter hr)) (h.rowid r' (List.mem_of_mem_filter hr')) heq
  unfold ids
  rw [hfilter, foldl_addIndexItem (by rwa [List.nil_append]), List.nil_append]

theorem filterMap_filter {α β : Type} {p q : α → Prop} [DecidablePred p] [DecidablePred q]
    {f : α → Option β} {g : α → β} : ∀ {l : List α},
    (∀ a ∈ l, f a = if q a then some (g a) else none) →
    (l.filter (fun a => p a)).filterMap f = (l.filter (fun a => p a ∧ q a)).map g
  | [], _ => rfl
  | a :: l, h => by
      have ih := @filterMap_filter _ _ p q _ _ f g l (fun b hb => h b (List.mem_cons_of_mem a hb))
      have ha := h a (List.mem_cons_self ..)
      by_cases hp : p a
      · by_cases hq : q a
        · simp [hp, hq, ha, ih]
        · simp [hp, hq, ha, ih]
      · simp [hp, ih]

/-- **What a condition on a column selects.** -/
theorem scan_column (h : s.Small) (t : FileTable) (c : FileColumn) (v : BitVec 64) :
    s.scan t (.column c v)
      = (s.rows.filter (fun r => r.2.table = t ∧ r.2.value c = some v)).map
        (fun r => (r.1.setWidth 32, r.2)) := by
  unfold scan
  dsimp only
  rw [ids_eq h, List.filterMap_map]
  refine filterMap_filter (fun r hr => ?_)
  show (s.record (r.1.setWidth 32)).bind _ = _
  rw [record_of_mem h hr]
  rfl

theorem count_eq_zero (h : s.Small) :
    s.count t (.column c v) = 0 ↔ ∀ r ∈ s.rows, r.2.table = t → r.2.value c ≠ some v := by
  unfold count
  rw [scan_column h, List.length_map, List.length_eq_zero_iff, List.filter_eq_nil_iff]
  simp only [decide_eq_true_eq, not_and]

/-- The rows that are left. -/
theorem remove_column (h : s.Small) (t : FileTable) (c : FileColumn) (v : BitVec 64) :
    (s.remove t (.column c v)).2.rows
      = s.rows.filter (fun r => ¬ (r.2.table = t ∧ r.2.value c = some v)) := by
  have hids : (s.scan t (.column c v)).map (fun r => r.1.setWidth 64)
      = (s.rows.filter (fun r => r.2.table = t ∧ r.2.value c = some v)).map (·.1) := by
    rw [scan_column h, List.map_map]
    exact List.map_congr_left (fun r hr =>
      setWidth_setWidth_of_lt (h.rowid r (List.mem_of_mem_filter hr)))
  show s.rows.filter _ = _
  rw [hids]
  refine List.filter_congr (fun r hr => ?_)
  rw [decide_eq_decide]
  refine not_congr ⟨fun hmem => ?_, fun hsel => ?_⟩
  · obtain ⟨r', hr', hid⟩ := List.mem_map.mp hmem
    obtain ⟨hmem', hsel⟩ := List.mem_filter.mp hr'
    have hsame : r'.2 = r.2 := by
      have hfind := OrdMap.find?_of_mem_of_nodup s.nodup hmem'
      rw [hid, OrdMap.find?_of_mem_of_nodup s.nodup hr] at hfind
      exact (Option.some.inj hfind).symm
    rw [← hsame]
    exact of_decide_eq_true hsel
  · exact List.mem_map.mpr ⟨r, List.mem_filter.mpr ⟨hr, decide_eq_true hsel⟩, rfl⟩

/-! ## Rows go, and blobs that nothing names -/

theorem Small.of_subset (h : s.Small) (hrows : ∀ r ∈ s'.rows, r ∈ s.rows) : s'.Small where
  rowid := fun r hr => h.rowid r (hrows r hr)
  data := fun r hr => h.data r (hrows r hr)

/-- What every operation keeps. -/
structure Sound (s : FileStore) : Prop where
  small : s.Small
  noDangling : s.NoDangling

theorem Sound.of_subset (h : s.Sound) (hrows : ∀ r ∈ s'.rows, r ∈ s.rows) (hblobs : s'.blobs = s.blobs) :
    s'.Sound where
  small := h.small.of_subset hrows
  noDangling := fun r hr ht v hv hne => hblobs ▸ h.noDangling r (hrows r hr) ht v hv hne

theorem remove_subset (t : FileTable) (w : FileWhere) : ∀ r ∈ (s.remove t w).2.rows, r ∈ s.rows :=
  fun _ hr => List.mem_of_mem_filter hr

theorem Sound.remove (h : s.Sound) (t : FileTable) (w : FileWhere) : (s.remove t w).2.Sound :=
  h.of_subset (remove_subset t w) rfl

theorem Sound.removeBlob (h : s.Sound) {b : BitVec 64}
    (hfree : ∀ r ∈ s.rows, r.2.table = .vfs ∨ r.2.table = .resources → r.2.value .data ≠ some b) :
    (s.removeBlob b).2.Sound where
  small := h.small.of_subset (fun _ hr => hr)
  noDangling := by
    intro r hr ht v hv hne
    refine List.mem_filter.mpr ⟨h.noDangling r hr ht v hv hne, decide_eq_true ?_⟩
    rintro rfl
    exact hfree r hr ht hv

/-! ## Files -/

/-- **The blob of a file goes when nothing names it any more.** -/
theorem Sound.deleteFile (h : s.Sound) (id : BitVec 64) (node : FileRow) : (s.deleteFile id node).2.Sound := by
  have hremove := h.remove .vfs (.rowid id)
  unfold FileStore.deleteFile
  dsimp only
  by_cases hnone : (s.remove .vfs (.rowid id)).1 = 0
  · rw [if_pos hnone]
    exact hremove
  · rw [if_neg hnone]
    split
    · rename_i hfree
      obtain ⟨-, hvfs, hresources⟩ := hfree
      refine hremove.removeBlob (fun r hr ht hdata => ?_)
      -- the blob of a row is small, so that it has been counted
      have hlt := hremove.small.data r hr ht _ hdata
      rw [BitVec.toNat_setWidth, Nat.mod_eq_of_lt (by omega)] at hlt
      rw [uint32Value_of_lt hlt] at hvfs hresources
      rcases ht with ht | ht
      · exact (count_eq_zero hremove.small).mp hvfs r hr ht hdata
      · exact (count_eq_zero hremove.small).mp hresources r hr ht hdata
    · exact hremove

theorem Sound.deleteChildren {deleteNode : FileStore → BitVec 64 → Option (Bool × FileStore)}
    (hnode : ∀ {s id b s'}, s.Sound → deleteNode s id = some (b, s') → s'.Sound) :
    ∀ {children : List (BitVec 64)} {s : FileStore} {b : Bool} {s' : FileStore}, s.Sound →
    FileStore.deleteChildren deleteNode s children = some (b, s') → s'.Sound
  | [], s, b, s', h, hresult => by
      obtain ⟨-, rfl⟩ := Prod.mk.inj (Option.some.inj hresult)
      exact h
  | child :: rest, s, b, s', h, hresult => by
      rw [FileStore.deleteChildren] at hresult
      cases hchild : deleteNode s child with
      | none =>
        rw [hchild] at hresult
        cases hresult
      | some r =>
        obtain ⟨ok, s₁⟩ := r
        have hsound := hnode h hchild
        rw [hchild] at hresult
        cases ok with
        | true => exact Sound.deleteChildren hnode hsound hresult
        | false =>
          obtain ⟨-, rfl⟩ := Prod.mk.inj (Option.some.inj hresult)
          exact hsound

/-- **Deleting files and directories.** -/
theorem Sound.deleteVfsNode : ∀ {depth : Nat} {s : FileStore} {id : BitVec 64} {recursive b : Bool}
    {s' : FileStore}, s.Sound → FileStore.deleteVfsNode depth s id recursive = some (b, s') → s'.Sound
  | 0, _, _, _, _, _, _, hresult => by cases hresult
  | depth + 1, s, id, recursive, b, s', h, hresult => by
      rw [FileStore.deleteVfsNode] at hresult
      cases hquery : s.query .vfs (.rowid id) with
      | none =>
        rw [hquery] at hresult
        obtain ⟨-, rfl⟩ := Prod.mk.inj (Option.some.inj hresult)
        exact h
      | some node =>
        rw [hquery] at hresult
        dsimp only at hresult
        split at hresult
        · split at hresult
          · rename_i s₁ hchildren
            obtain ⟨-, rfl⟩ := Prod.mk.inj (Option.some.inj hresult)
            exact (Sound.deleteChildren Sound.deleteVfsNode h hchildren).remove ..
          · exact Sound.deleteChildren Sound.deleteVfsNode h hresult
        · split at hresult
          · obtain rfl := congrArg Prod.snd (Option.some.inj hresult)
            exact h.deleteFile id node
          · obtain ⟨-, rfl⟩ := Prod.mk.inj (Option.some.inj hresult)
            exact h

/-! ## Resources -/

/-- The row of a resource, and where it is. -/
theorem query_resource (h : s.Small) {row : FileRow}
    (hrow : s.query .resources (.column .id (uint32Value id)) = some row) :
    ∃ r ∈ s.rows, r.2 = row ∧ row.table = .resources ∧ row.value .id = some (uint32Value id) := by
  unfold query at hrow
  rw [scan_column h] at hrow
  obtain ⟨found, hhead, rfl⟩ := Option.map_eq_some_iff.mp hrow
  obtain ⟨r, hr, rfl⟩ := List.mem_map.mp (List.mem_of_mem_head? hhead)
  obtain ⟨hmem, hsel⟩ := List.mem_filter.mp hr
  obtain ⟨ht, hid⟩ := of_decide_eq_true hsel
  exact ⟨r, hmem, rfl, ht, hid⟩

/-- The blob of a resource goes with it. -/
def LosesBlob (s : FileStore) (row : FileRow) (v : BitVec 64) : Prop :=
  row.value .data = some v ∧ v ≠ 0 ∧ ∀ r ∈ s.rows, r.2.table = .vfs → r.2.value .data ≠ some v

/-- **What deleting a resource does**: its rows go, and the blob that it loses. -/
theorem deleteResource_eq (h : s.Sound) {row : FileRow}
    (hrow : s.query .resources (.column .id (uint32Value id)) = some row) :
    (s.deleteResource id).2.rows = s.rows.filter
        (fun r => ¬ (r.2.table = .resources ∧ r.2.value .id = some (uint32Value id)))
      ∧ ((∃ v, s.LosesBlob row v ∧ (s.deleteResource id).2.blobs = s.blobs.filter (· ≠ v))
        ∨ (∀ v, ¬ s.LosesBlob row v) ∧ (s.deleteResource id).2.blobs = s.blobs) := by
  obtain ⟨r, hr, rfl, ht, -⟩ := query_resource h.small hrow
  have hremove := fun s' : FileStore => fun hsmall : s'.Small =>
    @remove_column s' hsmall .resources .id (uint32Value id)
  -- the number that is read is the one in the row
  have hdata : ∀ v, r.2.value .data = some v →
      r.2.toInt .data = v.setWidth 32 ∧ (v.setWidth 32).setWidth 64 = v
        ∧ uint32Value (v.setWidth 32) = v := by
    intro v hv
    have hlt := h.small.data r hr (.inr ht) v hv
    have hback : (v.setWidth 32).setWidth 64 = v := setWidth_setWidth_of_lt (by omega)
    refine ⟨by unfold FileRow.toInt; rw [hv]; rfl, hback, ?_⟩
    rw [uint32Value_of_lt, hback]
    rw [BitVec.toNat_setWidth]
    omega
  unfold FileStore.deleteResource
  rw [hrow]
  dsimp only
  by_cases hfree : r.2.toInt .data ≠ 0
      ∧ s.count .vfs (.column .data (uint32Value (r.2.toInt .data))) = 0
  · rw [if_pos hfree]
    obtain ⟨hne, hvfs⟩ := hfree
    cases hv : r.2.value .data with
    | none =>
      unfold FileRow.toInt at hne
      rw [hv] at hne
      exact absurd rfl hne
    | some v =>
      obtain ⟨hint, hback, hbound⟩ := hdata v hv
      rw [hint] at hne hvfs ⊢
      rw [hbound] at hvfs
      rw [hback]
      have hv0 : v ≠ 0 := by
        rintro rfl
        exact hne rfl
      have hmem := h.noDangling r hr (.inr ht) v hv hv0
      have hgone : (s.removeBlob v).1 = true := decide_eq_true hmem
      rw [if_pos hgone]
      exact ⟨hremove _ (h.small.of_subset (fun _ hr => hr)),
        .inl ⟨v, ⟨hv, hv0, (count_eq_zero h.small).mp hvfs⟩, rfl⟩⟩
  · rw [if_neg hfree, if_pos rfl]
    refine ⟨hremove s h.small, .inr ⟨fun v hloses => hfree ?_, rfl⟩⟩
    obtain ⟨hv, hv0, hvfs⟩ := hloses
    obtain ⟨hint, hback, hbound⟩ := hdata v hv
    rw [hint, hbound]
    refine ⟨fun hzero => hv0 ?_, (count_eq_zero h.small).mpr hvfs⟩
    rw [← hback, hzero]
    rfl

theorem deleteResource_of_none (hrow : s.query .resources (.column .id (uint32Value id)) = none) :
    (s.deleteResource id).2 = s := by
  unfold FileStore.deleteResource
  rw [hrow]

/-- **When deleting a resource leaves nothing dangling.** -/
theorem deleteResource_noDangling_iff (h : s.Sound) (id : BitVec 32) :
    (s.deleteResource id).2.NoDangling ↔ s.Unshared id := by
  cases hrow : s.query .resources (.column .id (uint32Value id)) with
  | none =>
    rw [deleteResource_of_none hrow]
    refine ⟨fun _ row hrow' => ?_, fun _ => h.noDangling⟩
    cases hrow.symm.trans hrow'
  | some row =>
    obtain ⟨hrows, hblobs⟩ := deleteResource_eq h hrow
    constructor
    · intro hafter row' hrow' v hv hv0
      obtain rfl := Option.some.inj (hrow.symm.trans hrow')
      by_cases hvfs : ∃ r ∈ s.rows, r.2.table = .vfs ∧ r.2.value .data = some v
      · exact .inl hvfs
      · refine .inr (fun r hr ht hdata => ?_)
        by_contra hid
        have hloses : s.LosesBlob row v :=
          ⟨hv, hv0, fun r hr ht hdata => hvfs ⟨r, hr, ht, hdata⟩⟩
        have hkept : r ∈ (s.deleteResource id).2.rows := by
          rw [hrows]
          exact List.mem_filter.mpr ⟨hr, decide_eq_true (fun hsel => hid hsel.2)⟩
        have hmem := hafter r hkept (.inr ht) v hdata hv0
        rcases hblobs with ⟨v', hloses', hblobs⟩ | ⟨hnone, -⟩
        · obtain rfl := Option.some.inj (hv.symm.trans hloses'.1)
          rw [hblobs] at hmem
          exact absurd rfl (of_decide_eq_true (List.mem_filter.mp hmem).2)
        · exact hnone v hloses
    · intro hunshared r hr ht v hdata hv0
      rw [hrows] at hr
      obtain ⟨hmem, hkept⟩ := List.mem_filter.mp hr
      have hkept := of_decide_eq_true hkept
      have hold := h.noDangling r hmem ht v hdata hv0
      rcases hblobs with ⟨v', ⟨hv', hv0', hvfs⟩, hblobs⟩ | ⟨-, hblobs⟩
      · rw [hblobs]
        refine List.mem_filter.mpr ⟨hold, decide_eq_true ?_⟩
        rintro rfl
        rcases hunshared row hrow v hv' hv0 with ⟨r', hr', ht', hdata'⟩ | hall
        · exact hvfs r' hr' ht' hdata'
        · rcases ht with ht | ht
          · exact hvfs r hmem ht hdata
          · exact hkept ⟨ht, hall r hmem ht hdata⟩
      · rw [hblobs]
        exact hold

theorem Sound.deleteResource (h : s.Sound) (hunshared : s.Unshared id) : (s.deleteResource id).2.Sound where
  small := by
    cases hrow : s.query .resources (.column .id (uint32Value id)) with
    | none =>
      rw [deleteResource_of_none hrow]
      exact h.small
    | some row =>
      refine h.small.of_subset (fun r hr => ?_)
      rw [(deleteResource_eq h hrow).1] at hr
      exact List.mem_of_mem_filter hr
  noDangling := (deleteResource_noDangling_iff h id).mpr hunshared

/-! ## Messages and histories -/

/-- Rows have gone, but no file, and the rows of a resource go together. -/
def Thinned (s s' : FileStore) : Prop :=
  ∃ keep : FileRow → Bool, s'.rows = s.rows.filter (fun r => keep r.2)
    ∧ (∀ row, row.table = .vfs → keep row = true)
    ∧ ∀ row row', row.table = .resources → row'.table = .resources → row.value .id = row'.value .id →
      keep row = keep row'

theorem Thinned.refl (s : FileStore) : Thinned s s :=
  ⟨fun _ => true, (List.filter_true _).symm, fun _ _ => rfl, fun _ _ _ _ _ => rfl⟩

theorem Thinned.trans {s'' : FileStore} (h : Thinned s s') (h' : Thinned s' s'') : Thinned s s'' := by
  obtain ⟨keep, hrows, hvfs, hresources⟩ := h
  obtain ⟨keep', hrows', hvfs', hresources'⟩ := h'
  refine ⟨fun row => keep row && keep' row, ?_, fun row ht => ?_, fun row row' ht ht' hid => ?_⟩
  · rw [hrows', hrows, List.filter_filter]
    exact List.filter_congr (fun r _ => Bool.and_comm ..)
  · show (keep row && keep' row) = true
    rw [hvfs row ht, hvfs' row ht]
    rfl
  · show (keep row && keep' row) = (keep row' && keep' row')
    rw [hresources row row' ht ht' hid, hresources' row row' ht ht' hid]

theorem Thinned.subset (h : Thinned s s') : ∀ r ∈ s'.rows, r ∈ s.rows := by
  obtain ⟨keep, hrows, -⟩ := h
  intro r hr
  rw [hrows] at hr
  exact List.mem_of_mem_filter hr

theorem thinned_deleteResource (h : s.Sound) (id : BitVec 32) : Thinned s (s.deleteResource id).2 := by
  cases hrow : s.query .resources (.column .id (uint32Value id)) with
  | none =>
    rw [deleteResource_of_none hrow]
    exact .refl s
  | some row =>
    refine ⟨fun row => ¬ (row.table = .resources ∧ row.value .id = some (uint32Value id)),
      (deleteResource_eq h hrow).1, fun row ht => decide_eq_true ?_, fun row row' ht ht' hid => ?_⟩
    · rw [ht]
      exact fun hsel => (by cases hsel.1)
    · dsimp only
      rw [ht, ht', hid]

theorem thinned_remove_messages (h : s.Small) (c : FileColumn) (v : BitVec 64) :
    Thinned s (s.remove .messages (.column c v)).2 := by
  refine ⟨fun row => ¬ (row.table = .messages ∧ row.value c = some v), remove_column h .messages c v,
    fun row ht => decide_eq_true ?_, fun row row' ht ht' _ => ?_⟩
  · rw [ht]
    exact fun hsel => (by cases hsel.1)
  · have hkept : ∀ row : FileRow, row.table = .resources →
        ¬ (row.table = .messages ∧ row.value c = some v) := by
      intro row ht hsel
      cases ht.symm.trans hsel.1
    exact decide_eq_decide.mpr ⟨fun _ => hkept row' ht', fun _ => hkept row ht⟩

/-- A list of which all or nothing is kept. -/
theorem filter_eq_self_or_nil {α : Type} {p : α → Bool} {l : List α}
    (h : ∀ a ∈ l, ∀ b ∈ l, p a = p b) : l.filter p = l ∨ l.filter p = [] := by
  cases hl : l with
  | nil => exact .inl rfl
  | cons a rest =>
    rw [hl] at h
    cases ha : p a with
    | true =>
      refine .inl (List.filter_eq_self.mpr (fun b hb => ?_))
      rw [h b hb a (List.mem_cons_self ..), ha]
    | false =>
      refine .inr (List.filter_eq_nil_iff.mpr (fun b hb => ?_))
      rw [h b hb a (List.mem_cons_self ..), ha]
      exact Bool.false_ne_true

/-- What is not shared is not shared when there are fewer rows. -/
theorem Unshared.thinned (hunshared : s.Unshared id) (hsmall : s.Small) (h : Thinned s s') :
    s'.Unshared id := by
  intro row hrow v hv hv0
  have hsubset := h.subset
  have hrow₀ : s.query .resources (.column .id (uint32Value id)) = some row := by
    obtain ⟨keep, hrows, -, hresources⟩ := h
    unfold query at hrow ⊢
    rw [scan_column (hsmall.of_subset hsubset), hrows, List.filter_filter] at hrow
    rw [scan_column hsmall]
    rw [show (fun r : BitVec 64 × FileRow => decide (r.2.table = .resources ∧ r.2.value .id = some (uint32Value id))
        && keep r.2) = fun r => keep r.2
          && decide (r.2.table = .resources ∧ r.2.value .id = some (uint32Value id)) from
      funext (fun r => Bool.and_comm ..), ← List.filter_filter] at hrow
    rcases @filter_eq_self_or_nil _ (fun r : BitVec 64 × FileRow => keep r.2)
      (s.rows.filter (fun r => r.2.table = .resources ∧ r.2.value .id = some (uint32Value id)))
      (fun r hr r' hr' => by
        obtain ⟨ht, hid⟩ := of_decide_eq_true (List.mem_filter.mp hr).2
        obtain ⟨ht', hid'⟩ := of_decide_eq_true (List.mem_filter.mp hr').2
        exact hresources r.2 r'.2 ht ht' (hid.trans hid'.symm)) with hall | hnone
    · rwa [hall] at hrow
    · rw [hnone] at hrow
      cases hrow
  rcases hunshared row hrow₀ v hv hv0 with ⟨r, hr, ht, hdata⟩ | hall
  · obtain ⟨keep, hrows, hvfs, -⟩ := h
    refine .inl ⟨r, ?_, ht, hdata⟩
    rw [hrows]
    exact List.mem_filter.mpr ⟨hr, hvfs r.2 ht⟩
  · exact .inr (fun r hr => hall r (hsubset r hr))

/-- The resources of a message do not share their blobs. -/
def ResourcesUnshared (s : FileStore) (messageId : BitVec 32) : Prop :=
  ∀ r ∈ s.rows, r.2.table = .resources → r.2.value .request = some (uint32Value messageId) →
    s.Unshared (r.2.toInt .id)

theorem ResourcesUnshared.thinned {messageId : BitVec 32} (hunshared : s.ResourcesUnshared messageId)
    (hsmall : s.Small) (h : Thinned s s') : s'.ResourcesUnshared messageId :=
  fun r hr ht hrequest => (hunshared r (h.subset r hr) ht hrequest).thinned hsmall h

/-- One resource after the other. -/
theorem Sound.deleteResources : ∀ {ids : List (BitVec 32)} {s : FileStore}, s.Sound →
    (∀ id ∈ ids, s.Unshared id) →
    (ids.foldl (fun s id => (s.deleteResource id).2) s).Sound
      ∧ Thinned s (ids.foldl (fun s id => (s.deleteResource id).2) s)
  | [], s, h, _ => ⟨h, .refl s⟩
  | id :: ids, s, h, hunshared => by
      have hthin := thinned_deleteResource h id
      have hnext := h.deleteResource (hunshared id (List.mem_cons_self ..))
      obtain ⟨hsound, hrest⟩ := hnext.deleteResources (fun id' hid' =>
        (hunshared id' (List.mem_cons_of_mem _ hid')).thinned h.small hthin)
      exact ⟨hsound, hthin.trans hrest⟩

theorem mem_scan_column (h : s.Small) {r : BitVec 32 × FileRow} (hr : r ∈ s.scan t (.column c v)) :
    ∃ r' ∈ s.rows, r'.2 = r.2 ∧ r.2.table = t ∧ r.2.value c = some v := by
  rw [scan_column h] at hr
  obtain ⟨r', hr', rfl⟩ := List.mem_map.mp hr
  obtain ⟨hmem, hsel⟩ := List.mem_filter.mp hr'
  obtain ⟨ht, hv⟩ := of_decide_eq_true hsel
  exact ⟨r', hmem, rfl, ht, hv⟩

/-- **Deleting a message.** -/
theorem Sound.deleteMessage (h : s.Sound) (hunshared : s.ResourcesUnshared id) :
    (s.deleteMessage id).2.Sound ∧ Thinned s (s.deleteMessage id).2 := by
  unfold FileStore.deleteMessage
  cases s.query .messages (.column .id (uint32Value id)) with
  | none => exact ⟨h, .refl s⟩
  | some row =>
    dsimp only
    obtain ⟨hsound, hthin⟩ := @Sound.deleteResources
      ((s.scan .resources (.column .request (uint32Value id))).map (·.2.toInt .id)) s h
      (fun id' hid' => by
        obtain ⟨r, hr, rfl⟩ := List.mem_map.mp hid'
        obtain ⟨r', hmem, heq, ht, hrequest⟩ := mem_scan_column h.small hr
        rw [← heq] at ht hrequest ⊢
        exact hunshared r' hmem ht hrequest)
    exact ⟨hsound.remove .., hthin.trans (thinned_remove_messages hsound.small ..)⟩

/-- One message after the other. -/
theorem Sound.deleteMessages : ∀ {ids : List (BitVec 32)} {s : FileStore}, s.Sound →
    (∀ id ∈ ids, s.ResourcesUnshared id) →
    (ids.foldl (fun s id => (s.deleteMessage id).2) s).Sound
  | [], _, h, _ => h
  | id :: ids, s, h, hunshared => by
      obtain ⟨hnext, hthin⟩ := h.deleteMessage (hunshared id (List.mem_cons_self ..))
      exact hnext.deleteMessages (fun id' hid' =>
        (hunshared id' (List.mem_cons_of_mem _ hid')).thinned h.small hthin)

/-- **Deleting a history.** -/
theorem Sound.deleteHistory (h : s.Sound) {history : BitVec 64}
    (hunshared : ∀ r ∈ s.rows, r.2.table = .messages → r.2.value .history = some history →
      s.ResourcesUnshared (r.2.toInt .id)) : (s.deleteHistory history).2.Sound := by
  unfold FileStore.deleteHistory
  cases s.query .histories (.rowid history) with
  | none => exact h
  | some row =>
    refine (h.deleteMessages (fun id' hid' => ?_)).remove ..
    obtain ⟨r, hr, rfl⟩ := List.mem_map.mp hid'
    obtain ⟨r', hmem, heq, ht, hhistory⟩ := mem_scan_column h.small hr
    rw [← heq] at ht hhistory ⊢
    exact hunshared r' hmem ht hhistory

/-! ## Runs -/

/-- No resource that a call deletes shares its blob with another resource alone. -/
def Careful (s : FileStore) : FileCall → Prop
  | .deleteResource id => s.Unshared id
  | .deleteMessage id => s.ResourcesUnshared id
  | .deleteHistory history => ∀ r ∈ s.rows, r.2.table = .messages →
      r.2.value .history = some history → s.ResourcesUnshared (r.2.toInt .id)
  | .deleteVfsNode _ _ => True

/-- **No blob is left dangling** by any run of careful calls. -/
theorem noDangling_of_careful {depth : Nat} {calls : List FileCall} (hsmall : s.Small)
    (hnone : s.NoDangling) (hcareful : Steps.Meets (step depth) Careful s calls)
    (hrun : Steps.run (step depth) s calls = some s') : s'.NoDangling := by
  have hsound : s'.Sound := by
    refine @Steps.run_invariant_of_meets _ _ (step depth) Careful Sound ?_ _ _ _ ⟨hsmall, hnone⟩
      hcareful hrun
    intro s call s' h hcareful hstep
    cases call with
    | deleteResource id =>
      obtain rfl := Option.some.inj hstep
      exact h.deleteResource hcareful
    | deleteMessage id =>
      obtain rfl := Option.some.inj hstep
      exact (h.deleteMessage hcareful).1
    | deleteHistory history =>
      obtain rfl := Option.some.inj hstep
      exact h.deleteHistory hcareful
    | deleteVfsNode id recursive =>
      obtain ⟨⟨b, s₁⟩, hdelete, rfl⟩ := Option.map_eq_some_iff.mp hstep
      exact h.deleteVfsNode hdelete
  exact hsound.noDangling

/-- A row that has the blob 5. -/
def fifth (table : FileTable) (id : BitVec 64) : FileRow where
  table := table
  value := fun c =>
    match c with
    | .id => some id
    | .type => some 2
    | .data => some 5
    | _ => none

/-- Two rows with one blob. -/
def sharing (table : FileTable) : FileStore where
  rows := [(1, fifth .resources 1), (2, fifth table 2)]
  nodup := show ([1, 2] : List (BitVec 64)).Nodup from by decide
  blobs := [5]

theorem sharing_sound (table : FileTable) : (sharing table).Sound where
  small :=
    { rowid := by
        intro r hr
        rcases List.mem_pair.mp hr with rfl | rfl
        · show (1 : BitVec 64).toNat < 2 ^ 32
          decide
        · show (2 : BitVec 64).toNat < 2 ^ 32
          decide
      data := by
        intro r hr _ v hv
        rcases List.mem_pair.mp hr with rfl | rfl
        · obtain rfl := Option.some.inj hv
          decide
        · obtain rfl := Option.some.inj hv
          decide }
  noDangling := by
    intro r hr _ v hv _
    rcases List.mem_pair.mp hr with rfl | rfl
    · obtain rfl := Option.some.inj hv
      exact List.mem_singleton.mpr rfl
    · obtain rfl := Option.some.inj hv
      exact List.mem_singleton.mpr rfl

/-- A resource and a file. -/
theorem noDangling_of_careful_file :
    ∃ s', Steps.run (step 1) (sharing .vfs) [.deleteResource 1, .deleteVfsNode 2 true] = some s'
      ∧ s'.NoDangling := by
  have hcareful : Steps.Meets (step 1) Careful (sharing .vfs)
      [.deleteResource 1, .deleteVfsNode 2 true] := by
    refine .cons (show (sharing .vfs).Unshared 1 from ?_) rfl (.cons trivial rfl trivial)
    intro row hrow v hv _
    obtain ⟨r, hr, rfl, -, -⟩ := query_resource (sharing_sound .vfs).small hrow
    refine .inl ⟨(2, fifth .vfs 2), List.mem_pair.mpr (.inr rfl), rfl, ?_⟩
    rcases List.mem_pair.mp hr with rfl | rfl
    · exact hv
    · exact hv
  exact ⟨_, rfl, noDangling_of_careful (sharing_sound .vfs).small (sharing_sound .vfs).noDangling
    hcareful rfl⟩

/-- Two resources. -/
theorem dangling_of_two_resources :
    (sharing .resources).NoDangling ∧ ¬ ((sharing .resources).deleteResource 1).2.NoDangling := by
  have hsound := sharing_sound .resources
  refine ⟨hsound.noDangling, fun hafter => ?_⟩
  have hunshared := (deleteResource_noDangling_iff hsound 1).mp hafter
  rcases hunshared (fifth .resources 1) rfl 5 rfl (by decide) with ⟨r, hr, ht, -⟩ | hall
  · rcases List.mem_pair.mp hr with rfl | rfl
    · cases ht
    · cases ht
  · cases hall (2, fifth .resources 2) (List.mem_pair.mpr (.inr rfl)) rfl rfl

end Zway.Client.FileStore
