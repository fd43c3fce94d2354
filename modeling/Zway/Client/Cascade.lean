import Zway.Client.Queries

/-!
# What a cascade leaves behind

Deleting a message deletes its resources first, and deleting a history its messages, one after
the other, whatever comes of each. A resource whose blob is already gone is not deleted: when
two resources have one blob, the first takes it away, and the second stays. `deleted_iff` says
when everything goes. Nothing is asked of the ids here, so what the virtual tables do not see
is followed, too.
-/

namespace Zway.Client.FileStore

variable {s s' : FileStore}

/-! ## Some resources and messages have gone -/

/-- The blob that goes with a resource. -/
def takenBlob (s : FileStore) (id : BitVec 32) : Option (BitVec 32) :=
  match s.query .resources (.column .id (uint32Value id)) with
  | none => none
  | some row =>
      if row.toInt .data ≠ 0 ∧ s.count .vfs (.column .data (uint32Value (row.toInt .data))) = 0 then
        some (row.toInt .data)
      else none

/-- One of the resources or messages with these ids that is seen. -/
def Dropped (resources messages : List (BitVec 32)) (r : BitVec 64 × FileRow) : Prop :=
  r.1.toNat < 2 ^ 32
    ∧ ((r.2.table = .resources ∧ ∃ id ∈ resources, r.2.value .id = some (uint32Value id))
      ∨ (r.2.table = .messages ∧ ∃ id ∈ messages, r.2.value .id = some (uint32Value id)))

instance (resources messages : List (BitVec 32)) (r : BitVec 64 × FileRow) :
    Decidable (Dropped resources messages r) :=
  decidable_of_iff (r.1.toNat < 2 ^ 32
      ∧ ((r.2.table = .resources ∧ resources.any (fun id => r.2.value .id = some (uint32Value id)))
        ∨ (r.2.table = .messages ∧ messages.any (fun id => r.2.value .id = some (uint32Value id)))))
    (by simp [Dropped])

/-- Without some resources and their blobs, and without some messages. -/
def without (s : FileStore) (resources messages : List (BitVec 32)) : FileStore where
  rows := s.rows.filter (fun r => ¬ Dropped resources messages r)
  nodup := nodup_filter s.nodup _
  blobs := s.blobs.filter (fun v =>
    resources.all (fun id => (s.takenBlob id).map (·.setWidth 64) ≠ some v))

variable {rs ms : List (BitVec 32)}

theorem without_nil (s : FileStore) : s.without [] [] = s := by
  have hnone : ∀ r : BitVec 64 × FileRow, ¬ Dropped [] [] r := by
    rintro r ⟨-, ⟨-, id, hid, -⟩ | ⟨-, id, hid, -⟩⟩
    · cases hid
    · cases hid
  apply FileStore.ext
  · exact List.filter_eq_self.mpr (fun r _ => decide_eq_true (hnone r))
  · exact List.filter_eq_self.mpr (fun _ _ => rfl)

theorem mem_without {r : BitVec 64 × FileRow} :
    r ∈ (s.without rs ms).rows ↔ r ∈ s.rows ∧ ¬ Dropped rs ms r := by
  show r ∈ s.rows.filter _ ↔ _
  rw [List.mem_filter, decide_eq_true_iff]

theorem mem_blobs_without {v : BitVec 64} : v ∈ (s.without rs ms).blobs
    ↔ v ∈ s.blobs ∧ ∀ id ∈ rs, (s.takenBlob id).map (·.setWidth 64) ≠ some v := by
  show v ∈ s.blobs.filter _ ↔ _
  simp only [List.mem_filter, List.all_eq_true, decide_eq_true_iff]

theorem scan_without (t : FileTable) (c : FileColumn) (v : BitVec 64) :
    (s.without rs ms).scan t (.column c v)
      = (s.scan t (.column c v)).filter (fun r => ¬ Dropped rs ms (r.1.setWidth 64, r.2)) := by
  refine @scan_filter s (s.without rs ms) _ rfl (fun r _ hgone => ?_) t c v
  have hdropped := of_decide_eq_false hgone
  exact (not_not.mp hdropped).1

theorem scan_without_of_not {t : FileTable} {c : FileColumn} {v : BitVec 64}
    (h : ∀ r : BitVec 64 × FileRow, r.2.table = t → r.2.value c = some v → ¬ Dropped rs ms r) :
    (s.without rs ms).scan t (.column c v) = s.scan t (.column c v) := by
  rw [scan_without]
  refine List.filter_eq_self.mpr (fun r hr => decide_eq_true ?_)
  obtain ⟨-, ht, hv⟩ := mem_scan.mp hr
  exact h _ ht hv

theorem not_dropped_of_table {r : BitVec 64 × FileRow} (hresources : r.2.table ≠ .resources)
    (hmessages : r.2.table ≠ .messages) : ¬ Dropped rs ms r := by
  rintro ⟨-, ⟨ht, -⟩ | ⟨ht, -⟩⟩
  · exact hresources ht
  · exact hmessages ht

/-- A resource that has not gone is found as before. -/
theorem query_resources_without {id : BitVec 32} (h : id ∉ rs) :
    (s.without rs ms).query .resources (.column .id (uint32Value id))
      = s.query .resources (.column .id (uint32Value id)) := by
  unfold query
  rw [scan_without_of_not]
  rintro r ht hv ⟨-, ⟨-, id', hid', hv'⟩ | ⟨ht', -⟩⟩
  · obtain rfl := uint32Value_inj (Option.some.inj (hv.symm.trans hv'))
    exact h hid'
  · cases ht.symm.trans ht'

/-- One that has gone is not found. -/
theorem query_resources_without_of_mem {id : BitVec 32} (h : id ∈ rs) :
    (s.without rs ms).query .resources (.column .id (uint32Value id)) = none := by
  unfold query
  rw [scan_without, Option.map_eq_none_iff, List.head?_eq_none_iff, List.filter_eq_nil_iff]
  intro r hr hkept
  obtain ⟨-, ht, hv⟩ := mem_scan.mp hr
  refine of_decide_eq_true hkept ⟨?_, .inl ⟨ht, id, h, hv⟩⟩
  exact setWidth_eq_iff.mp ⟨r.1, rfl⟩

theorem query_messages_without {id : BitVec 32} (h : id ∉ ms) :
    (s.without rs ms).query .messages (.column .id (uint32Value id))
      = s.query .messages (.column .id (uint32Value id)) := by
  unfold query
  rw [scan_without_of_not]
  rintro r ht hv ⟨-, ⟨ht', -⟩ | ⟨-, id', hid', hv'⟩⟩
  · cases ht.symm.trans ht'
  · obtain rfl := uint32Value_inj (Option.some.inj (hv.symm.trans hv'))
    exact h hid'

theorem query_messages_without_of_mem {id : BitVec 32} (h : id ∈ ms) :
    (s.without rs ms).query .messages (.column .id (uint32Value id)) = none := by
  unfold query
  rw [scan_without, Option.map_eq_none_iff, List.head?_eq_none_iff, List.filter_eq_nil_iff]
  intro r hr hkept
  obtain ⟨-, ht, hv⟩ := mem_scan.mp hr
  refine of_decide_eq_true hkept ⟨?_, .inr ⟨ht, id, h, hv⟩⟩
  exact setWidth_eq_iff.mp ⟨r.1, rfl⟩

theorem count_vfs_without (v : BitVec 64) :
    (s.without rs ms).count .vfs (.column .data v) = s.count .vfs (.column .data v) := by
  unfold count
  rw [scan_without_of_not]
  intro r ht _
  exact not_dropped_of_table (by rw [ht]; decide) (by rw [ht]; decide)

theorem dropped_resource {id : BitVec 32} {r : BitVec 64 × FileRow} : Dropped (id :: rs) ms r
    ↔ (r.1.toNat < 2 ^ 32 ∧ r.2.table = .resources ∧ r.2.value .id = some (uint32Value id))
      ∨ Dropped rs ms r := by
  unfold Dropped
  simp only [List.mem_cons, exists_eq_or_imp, and_or_left, or_assoc]

theorem dropped_message {id : BitVec 32} {r : BitVec 64 × FileRow} : Dropped rs (id :: ms) r
    ↔ (r.1.toNat < 2 ^ 32 ∧ r.2.table = .messages ∧ r.2.value .id = some (uint32Value id))
      ∨ Dropped rs ms r := by
  unfold Dropped
  simp only [List.mem_cons, exists_eq_or_imp, and_or_left]
  exact or_left_comm

/-- A resource more has gone. -/
theorem remove_resources_without (hrows : s'.rows = (s.without rs ms).rows) (id : BitVec 32) :
    (s'.remove .resources (.column .id (uint32Value id))).2.rows
      = (s.without (id :: rs) ms).rows := by
  rw [remove_rows, hrows]
  show (s.rows.filter _).filter _ = s.rows.filter _
  rw [List.filter_filter]
  refine List.filter_congr (fun r _ => ?_)
  rw [← Bool.decide_and, decide_eq_decide, dropped_resource, not_or]

/-- A message more has gone. -/
theorem remove_messages_without (id : BitVec 32) :
    ((s.without rs ms).remove .messages (.column .id (uint32Value id))).2
      = s.without rs (id :: ms) := by
  apply FileStore.ext
  · rw [remove_rows]
    show (s.rows.filter _).filter _ = s.rows.filter _
    rw [List.filter_filter]
    refine List.filter_congr (fun r _ => ?_)
    rw [← Bool.decide_and, decide_eq_decide, dropped_message, not_or]
  · rfl

/-! ## One resource after the other -/

/-- The blob of a resource has never been there, or has gone with another resource. -/
def Blocked (s : FileStore) (rs : List (BitVec 32)) (id : BitVec 32) : Prop :=
  ∃ b, s.takenBlob id = some b
    ∧ (b.setWidth 64 ∉ s.blobs ∨ ∃ id' ∈ rs, id' ≠ id ∧ s.takenBlob id' = some b)

/-- Nothing stands in the way of these resources. -/
structure Unblocked (s : FileStore) (rs : List (BitVec 32)) : Prop where
  blob : ∀ id ∈ rs, ∀ b, s.takenBlob id = some b → b.setWidth 64 ∈ s.blobs
  unshared : ∀ id ∈ rs, ∀ id' ∈ rs, id ≠ id' → ∀ b, s.takenBlob id = some b → s.takenBlob id' ≠ some b

/-- A resource that has been tried. -/
def Tried (s : FileStore) (rs : List (BitVec 32)) (id : BitVec 32) : Prop :=
  id ∈ rs ∨ s.query .resources (.column .id (uint32Value id)) = none ∨ s.Blocked rs id

theorem Tried.mono {rs' : List (BitVec 32)} {id : BitVec 32} (h : s.Tried rs id) (hsub : rs ⊆ rs') :
    s.Tried rs' id := by
  rcases h with h | h | ⟨b, htaken, h | ⟨id', hid', hrest⟩⟩
  · exact .inl (hsub h)
  · exact .inr (.inl h)
  · exact .inr (.inr ⟨b, htaken, .inl h⟩)
  · exact .inr (.inr ⟨b, htaken, .inr ⟨id', hsub hid', hrest⟩⟩)

theorem Unblocked.cons {id : BitVec 32} (h : s.Unblocked rs)
    (hfree : ∀ b, s.takenBlob id = some b →
      b.setWidth 64 ∈ s.blobs ∧ ∀ id' ∈ rs, s.takenBlob id' ≠ some b) : s.Unblocked (id :: rs) where
  blob := by
    intro id' hid' b htaken
    rcases List.mem_cons.mp hid' with rfl | hid'
    · exact (hfree b htaken).1
    · exact h.blob id' hid' b htaken
  unshared := by
    intro i hi j hj hne b htaken htaken'
    rcases List.mem_cons.mp hi with rfl | hi'
    · rcases List.mem_cons.mp hj with rfl | hj'
      · exact hne rfl
      · exact (hfree b htaken).2 j hj' htaken'
    · rcases List.mem_cons.mp hj with rfl | hj'
      · exact (hfree b htaken').2 i hi' htaken
      · exact h.unshared i hi' j hj' hne b htaken htaken'

/-- The blobs that are left without a resource more. -/
theorem blobs_without {id : BitVec 32} (p : BitVec 64 → Bool)
    (hp : ∀ v, p v = true ↔ (s.takenBlob id).map (·.setWidth 64) ≠ some v) :
    (s.without rs ms).blobs.filter p = (s.without (id :: rs) ms).blobs := by
  show (s.blobs.filter _).filter _ = s.blobs.filter _
  rw [List.filter_filter]
  refine List.filter_congr (fun v _ => ?_)
  rw [Bool.eq_iff_iff, Bool.and_eq_true, hp, List.all_cons, Bool.and_eq_true, decide_eq_true_iff]

/-- **What deleting a resource does** when others have gone: nothing, or it goes, too. -/
theorem deleteResource_without (h : s.Unblocked rs) (id : BitVec 32) :
    (s.Tried rs id ∧ ((s.without rs ms).deleteResource id).2 = s.without rs ms)
      ∨ (s.Unblocked (id :: rs)
        ∧ ((s.without rs ms).deleteResource id).2 = s.without (id :: rs) ms) := by
  unfold FileStore.deleteResource
  by_cases hmem : id ∈ rs
  · rw [query_resources_without_of_mem hmem]
    exact .inl ⟨.inl hmem, rfl⟩
  rw [query_resources_without hmem]
  cases hquery : s.query .resources (.column .id (uint32Value id)) with
  | none => exact .inl ⟨.inr (.inl hquery), rfl⟩
  | some row =>
    dsimp only
    rw [count_vfs_without]
    split
    · rename_i hfree
      have htaken : s.takenBlob id = some (row.toInt .data) := by
        unfold takenBlob
        rw [hquery]
        exact if_pos hfree
      by_cases hblob : (row.toInt .data).setWidth 64 ∈ (s.without rs ms).blobs
      · have hgone : ((s.without rs ms).removeBlob ((row.toInt .data).setWidth 64)).1 = true :=
          decide_eq_true hblob
        rw [if_pos hgone]
        obtain ⟨hthere, hnone⟩ := mem_blobs_without.mp hblob
        refine .inr ⟨h.cons (fun b hb => ?_), ?_⟩
        · obtain rfl := Option.some.inj (htaken.symm.trans hb)
          refine ⟨hthere, fun id' hid' htaken' => hnone id' hid' ?_⟩
          rw [htaken']
          rfl
        · refine FileStore.ext (remove_resources_without rfl id) (blobs_without _ (fun v => ?_))
          rw [htaken, decide_eq_true_iff, Option.map_some]
          exact not_congr ⟨fun he => he ▸ rfl, fun he => (Option.some.inj he).symm⟩
      · have hstays : ((s.without rs ms).removeBlob ((row.toInt .data).setWidth 64)).1 = false :=
          decide_eq_false hblob
        rw [if_neg (by rw [hstays]; exact Bool.false_ne_true)]
        refine .inl ⟨.inr (.inr ⟨_, htaken, ?_⟩), FileStore.ext rfl ?_⟩
        · by_cases hthere : (row.toInt .data).setWidth 64 ∈ s.blobs
          · -- it has gone with another resource
            right
            by_contra hnone
            refine hblob (mem_blobs_without.mpr ⟨hthere, fun id' hid' he => hnone ?_⟩)
            obtain ⟨b, hb, hwidth⟩ := Option.map_eq_some_iff.mp he
            have hback := congrArg (fun v : BitVec 64 => v.setWidth 32) hwidth
            simp only [BitVec.setWidth_setWidth_of_le _ (show 32 ≤ 64 by decide),
              BitVec.setWidth_eq] at hback
            obtain rfl := hback
            exact ⟨id', hid', fun he => hmem (he ▸ hid'), hb⟩
          · exact .inl hthere
        · refine List.filter_eq_self.mpr (fun v hv => decide_eq_true ?_)
          rintro rfl
          exact hblob hv
    · rename_i hkept
      have htaken : s.takenBlob id = none := by
        unfold takenBlob
        rw [hquery]
        exact if_neg hkept
      rw [if_pos rfl]
      refine .inr ⟨h.cons (fun b hb => ?_), ?_⟩
      · cases htaken.symm.trans hb
      · refine FileStore.ext (remove_resources_without rfl id) ?_
        rw [← blobs_without (fun _ => true) (fun v => ?_), List.filter_true]
        · rfl
        · rw [htaken]
          simp

/-- **One resource after the other**: each has gone in the end, or could not go. -/
theorem deleteResources_without : ∀ {ids rs : List (BitVec 32)}, s.Unblocked rs →
    ∃ rs', ids.foldl (fun s id => (s.deleteResource id).2) (s.without rs ms) = s.without rs' ms
      ∧ s.Unblocked rs' ∧ rs ⊆ rs' ∧ (∀ id ∈ rs', id ∈ rs ∨ id ∈ ids) ∧ ∀ id ∈ ids, s.Tried rs' id
  | [], rs, h => ⟨rs, rfl, h, List.Subset.refl rs, fun _ hid => .inl hid, fun _ hid => by cases hid⟩
  | id :: ids, rs, h => by
      rw [List.foldl_cons]
      rcases @deleteResource_without s rs ms h id with ⟨htried, hsame⟩ | ⟨hnext, hgone⟩
      · obtain ⟨rs', hfold, hunblocked, hsub, hfrom, hall⟩ :=
          @deleteResources_without ids rs h
        refine ⟨rs', by rw [hsame, hfold], hunblocked, hsub, fun i hi => ?_, fun i hi => ?_⟩
        · exact (hfrom i hi).imp_right (List.mem_cons_of_mem _)
        · rcases List.mem_cons.mp hi with rfl | hi
          · exact htried.mono hsub
          · exact hall i hi
      · obtain ⟨rs', hfold, hunblocked, hsub, hfrom, hall⟩ :=
          @deleteResources_without ids (id :: rs) hnext
        obtain ⟨hid, hrs⟩ := List.cons_subset.mp hsub
        refine ⟨rs', by rw [hgone, hfold], hunblocked, hrs, fun i hi => ?_, fun i hi => ?_⟩
        · rcases hfrom i hi with hi | hi
          · rcases List.mem_cons.mp hi with rfl | hi
            · exact .inr (List.mem_cons_self ..)
            · exact .inl hi
          · exact .inr (List.mem_cons_of_mem _ hi)
        · rcases List.mem_cons.mp hi with rfl | hi
          · exact .inl hid
          · exact hall i hi

/-! ## Messages and histories -/

theorem toInt_eq {row : FileRow} {id : BitVec 32} (h : row.value .id = some (uint32Value id)) :
    row.toInt .id = id := by
  unfold FileRow.toInt
  rw [h]
  exact setWidth_uint32Value id

/-- Every resource of a message that is seen has been tried. -/
def AllTried (s : FileStore) (rs : List (BitVec 32)) (messageId : BitVec 32) : Prop :=
  ∀ r ∈ s.scan .resources (.column .request (uint32Value messageId)), s.Tried rs (r.2.toInt .id)

/-- The resource of a message, as it is seen. -/
def FromMessage (s : FileStore) (messageId id : BitVec 32) : Prop :=
  ∃ r ∈ s.scan .resources (.column .request (uint32Value messageId)), r.2.toInt .id = id

/-- **What deleting a message does** when others have gone. -/
theorem deleteMessage_without (h : s.Unblocked rs) (id : BitVec 32) :
    ((id ∈ ms ∨ s.query .messages (.column .id (uint32Value id)) = none)
        ∧ (s.without rs ms).deleteMessage id = (false, s.without rs ms))
      ∨ ∃ rs', (s.without rs ms).deleteMessage id = (true, s.without rs' (id :: ms))
        ∧ s.Unblocked rs' ∧ rs ⊆ rs' ∧ (∀ id' ∈ rs', id' ∈ rs ∨ s.FromMessage id id')
        ∧ s.AllTried rs' id := by
  unfold FileStore.deleteMessage
  by_cases hmem : id ∈ ms
  · rw [query_messages_without_of_mem hmem]
    exact .inl ⟨.inl hmem, rfl⟩
  rw [query_messages_without hmem]
  cases hquery : s.query .messages (.column .id (uint32Value id)) with
  | none => exact .inl ⟨.inr rfl, rfl⟩
  | some row =>
    dsimp only
    obtain ⟨rs', hfold, hunblocked, hsub, hfrom, hall⟩ := @deleteResources_without s ms
      (((s.without rs ms).scan .resources (.column .request (uint32Value id))).map (·.2.toInt .id))
      rs h
    refine .inr ⟨rs', ?_, hunblocked, hsub, fun id' hid' => ?_, fun r hr => ?_⟩
    · rw [hfold]
      refine Prod.ext ?_ (remove_messages_without id)
      -- the message is still there, since only resources have gone
      have hthere : (s.without rs' ms).query .messages (.column .id (uint32Value id)) = some row :=
        (query_messages_without hmem).trans hquery
      refine bne_iff_ne.mpr (fun hzero => ?_)
      cases hthere.symm.trans (remove_eq_zero.mp hzero)
    · rcases hfrom id' hid' with hold | hnew
      · exact .inl hold
      · obtain ⟨r, hr, rfl⟩ := List.mem_map.mp hnew
        rw [scan_without] at hr
        exact .inr ⟨r, List.mem_of_mem_filter hr, rfl⟩
    · by_cases hdropped : Dropped rs ms (r.1.setWidth 64, r.2)
      · obtain ⟨-, ht, -⟩ := mem_scan.mp hr
        rcases hdropped with ⟨-, ⟨-, id', hid', hv⟩ | ⟨ht', -⟩⟩
        · rw [toInt_eq hv]
          exact .inl (hsub hid')
        · cases ht.symm.trans ht'
      · refine hall _ (List.mem_map.mpr ⟨r, ?_, rfl⟩)
        rw [scan_without]
        exact List.mem_filter.mpr ⟨hr, decide_eq_true hdropped⟩

/-- **One message after the other.** -/
theorem deleteMessages_without : ∀ {ids rs ms : List (BitVec 32)}, s.Unblocked rs →
    ∃ rs' ms', ids.foldl (fun s id => (s.deleteMessage id).2) (s.without rs ms) = s.without rs' ms'
      ∧ s.Unblocked rs' ∧ rs ⊆ rs' ∧ ms ⊆ ms'
      ∧ (∀ id ∈ rs', id ∈ rs ∨ ∃ m ∈ ids, s.FromMessage m id)
      ∧ (∀ m ∈ ms', m ∈ ms ∨ m ∈ ids ∧ s.AllTried rs' m)
      ∧ ∀ m ∈ ids, m ∈ ms' ∨ s.query .messages (.column .id (uint32Value m)) = none
  | [], rs, ms, h => ⟨rs, ms, rfl, h, List.Subset.refl rs, List.Subset.refl ms, fun _ hid => .inl hid,
      fun _ hm => .inl hm, fun _ hm => by cases hm⟩
  | id :: ids, rs, ms, h => by
      rw [List.foldl_cons]
      rcases @deleteMessage_without s rs ms h id with ⟨hnone, hsame⟩
        | ⟨rs₁, hgone, hnext, hsub₁, hfrom₁, htried₁⟩
      · obtain ⟨rs', ms', hfold, hunblocked, hrs, hms, hfrom, htried, hall⟩ :=
          @deleteMessages_without ids rs ms h
        refine ⟨rs', ms', by rw [hsame, hfold], hunblocked, hrs, hms, fun i hi => ?_, fun m hm => ?_,
          fun m hm => ?_⟩
        · exact (hfrom i hi).imp_right (fun ⟨m, hm, hr⟩ => ⟨m, List.mem_cons_of_mem _ hm, hr⟩)
        · exact (htried m hm).imp_right (fun ⟨hm, hr⟩ => ⟨List.mem_cons_of_mem _ hm, hr⟩)
        · rcases List.mem_cons.mp hm with rfl | hm
          · exact hnone.imp_left (fun hm => hms hm)
          · exact hall m hm
      · obtain ⟨rs', ms', hfold, hunblocked, hrs, hms, hfrom, htried, hall⟩ :=
          @deleteMessages_without ids rs₁ (id :: ms) hnext
        obtain ⟨hid, hms⟩ := List.cons_subset.mp hms
        refine ⟨rs', ms', by rw [hgone, hfold], hunblocked, List.Subset.trans hsub₁ hrs, hms, fun i hi => ?_,
          fun m hm => ?_, fun m hm => ?_⟩
        · rcases hfrom i hi with hi | ⟨m, hm, hr⟩
          · exact (hfrom₁ i hi).imp_right (fun hr => ⟨id, List.mem_cons_self .., hr⟩)
          · exact .inr ⟨m, List.mem_cons_of_mem _ hm, hr⟩
        · rcases htried m hm with hm | ⟨hm, hr⟩
          · rcases List.mem_cons.mp hm with rfl | hm
            · exact .inr ⟨List.mem_cons_self .., fun r hr => (htried₁ r hr).mono hrs⟩
            · exact .inl hm
          · exact .inr ⟨List.mem_cons_of_mem _ hm, hr⟩
        · rcases List.mem_cons.mp hm with rfl | hm
          · exact .inl hid
          · exact hall m hm

/-! ## When everything goes -/

/-- A resource of one of some messages. -/
def IsResourceOf (s : FileStore) (P : BitVec 32 → Prop) (r : BitVec 64 × FileRow) : Prop :=
  r ∈ s.rows ∧ r.2.table = .resources ∧ ∃ m, P m ∧ r.2.value .request = some (uint32Value m)

/-- The resources of some messages are seen and have an id, the blobs that go with them are
there, and no two of them have the same. -/
structure ResourcesDeletable (s : FileStore) (P : BitVec 32 → Prop) : Prop where
  seen : ∀ r, s.IsResourceOf P r →
    r.1.toNat < 2 ^ 32 ∧ r.2.value .id = some (uint32Value (r.2.toInt .id))
  blob : ∀ r, s.IsResourceOf P r → ∀ b, s.takenBlob (r.2.toInt .id) = some b →
    b.setWidth 64 ∈ s.blobs
  unshared : ∀ r r', s.IsResourceOf P r → s.IsResourceOf P r' → r.2.toInt .id ≠ r'.2.toInt .id →
    ∀ b, s.takenBlob (r.2.toInt .id) = some b → s.takenBlob (r'.2.toInt .id) ≠ some b

/-- **When no resource of some messages is left**, after each has been tried. -/
theorem resourcesGone_iff {P : BitVec 32 → Prop} (hunblocked : s.Unblocked rs)
    (hfrom : ∀ id ∈ rs, ∃ m, P m ∧ s.FromMessage m id) (htried : ∀ m, P m → s.AllTried rs m) :
    (∀ r ∈ (s.without rs ms).rows, r.2.table = .resources → ∀ m, P m →
        r.2.value .request ≠ some (uint32Value m)) ↔ s.ResourcesDeletable P := by
  constructor
  · intro hgone
    have hdropped : ∀ r, s.IsResourceOf P r → r.1.toNat < 2 ^ 32
        ∧ r.2.value .id = some (uint32Value (r.2.toInt .id)) ∧ r.2.toInt .id ∈ rs := by
      rintro r ⟨hr, ht, m, hm, hrequest⟩
      have hdrop : Dropped rs ms r := by
        by_contra hkept
        exact hgone r (mem_without.mpr ⟨hr, hkept⟩) ht m hm hrequest
      rcases hdrop with ⟨hlt, ⟨-, id, hid, hv⟩ | ⟨ht', -⟩⟩
      · rw [toInt_eq hv]
        exact ⟨hlt, hv, hid⟩
      · cases ht.symm.trans ht'
    exact
      { seen := fun r hr => ⟨(hdropped r hr).1, (hdropped r hr).2.1⟩
        blob := fun r hr => hunblocked.blob _ (hdropped r hr).2.2
        unshared := fun r r' hr hr' =>
          hunblocked.unshared _ (hdropped r hr).2.2 _ (hdropped r' hr').2.2 }
  · intro h r hr ht m hm hrequest
    obtain ⟨hmem, hkept⟩ := mem_without.mp hr
    have hof : s.IsResourceOf P r := ⟨hmem, ht, m, hm, hrequest⟩
    obtain ⟨hlt, hid⟩ := h.seen r hof
    obtain ⟨low, hlow⟩ := setWidth_eq_iff.mpr hlt
    have hscan : ∀ c v, r.2.value c = some v → (low, r.2) ∈ s.scan .resources (.column c v) :=
      fun c v hv => mem_scan.mpr ⟨by rw [hlow]; exact hmem, ht, hv⟩
    rcases htried m hm _ (hscan _ _ hrequest) with hgone | hnone | ⟨b, htaken, hblocked⟩
    · exact hkept ⟨hlt, .inl ⟨ht, _, hgone, hid⟩⟩
    · unfold query at hnone
      rw [Option.map_eq_none_iff, List.head?_eq_none_iff] at hnone
      have hfound := hscan _ _ hid
      rw [hnone] at hfound
      cases hfound
    · rcases hblocked with hmissing | ⟨id, hgone, hne, htaken'⟩
      · exact hmissing (h.blob r hof b htaken)
      · obtain ⟨m', hm', r', hr', rfl⟩ := hfrom id hgone
        obtain ⟨hmem', ht', hrequest'⟩ := mem_scan.mp hr'
        have hof' : s.IsResourceOf P (r'.1.setWidth 64, r'.2) := ⟨hmem', ht', m', hm', hrequest'⟩
        exact h.unshared _ r hof' hof hne b htaken' htaken

/-- The message and its resources are gone. -/
def MessageGone (s : FileStore) (id : BitVec 32) : Prop :=
  (∀ r ∈ s.rows, r.2.table = .messages → r.2.value .id ≠ some (uint32Value id))
    ∧ ∀ r ∈ s.rows, r.2.table = .resources → r.2.value .request ≠ some (uint32Value id)

structure MessageDeletable (s : FileStore) (id : BitVec 32) : Prop where
  seen : ∀ r ∈ s.rows, r.2.table = .messages → r.2.value .id = some (uint32Value id) →
    r.1.toNat < 2 ^ 32
  resources : s.ResourcesDeletable (· = id)

theorem unblocked_nil (s : FileStore) : s.Unblocked [] where
  blob := fun _ hid => by cases hid
  unshared := fun _ hid => by cases hid

/-- **When deleting a message leaves nothing behind.** -/
theorem messageGone_iff (s : FileStore) (id : BitVec 32) :
    ((s.deleteMessage id).1 = true → (s.deleteMessage id).2.MessageGone id)
      ↔ (s.query .messages (.column .id (uint32Value id)) ≠ none → s.MessageDeletable id) := by
  have hcases := @deleteMessage_without s [] [] s.unblocked_nil id
  rw [without_nil] at hcases
  rcases hcases with ⟨hnone, hfailed⟩ | ⟨rs, hdeleted, hunblocked, -, hfrom, htried⟩
  · rcases hnone with hnone | hnone
    · cases hnone
    · rw [hfailed]
      exact ⟨fun _ hsome => absurd hnone hsome, fun _ htrue => by cases htrue⟩
  · have hquery : s.query .messages (.column .id (uint32Value id)) ≠ none := by
      intro hnone
      unfold FileStore.deleteMessage at hdeleted
      rw [hnone] at hdeleted
      cases hdeleted
    have hresources := @resourcesGone_iff s rs [id] (· = id) hunblocked
      (fun id' hid' => (hfrom id' hid').elim (fun h => by cases h) (fun h => ⟨id, rfl, h⟩))
      (fun m hm => hm ▸ htried)
    rw [hdeleted]
    constructor
    · intro hgone _
      obtain ⟨hmessages, hrest⟩ := hgone rfl
      refine ⟨fun r hr ht hid => ?_, hresources.mp (fun r hr ht m hm => hm ▸ hrest r hr ht)⟩
      by_contra hlt
      exact hmessages r (mem_without.mpr ⟨hr, fun hdrop => hlt hdrop.1⟩) ht hid
    · intro h _
      have hdeletable := h hquery
      refine ⟨fun r hr ht hid => ?_,
        fun r hr ht => hresources.mpr hdeletable.resources r hr ht id rfl⟩
      obtain ⟨hmem, hkept⟩ := mem_without.mp hr
      exact hkept ⟨hdeletable.seen r hmem ht hid, .inr ⟨ht, id, List.mem_singleton.mpr rfl, hid⟩⟩

/-- A message of a history has this id. -/
def InHistory (s : FileStore) (history : BitVec 64) (id : BitVec 32) : Prop :=
  ∃ r ∈ s.rows, r.2.table = .messages ∧ r.2.value .history = some history ∧ r.2.toInt .id = id

/-- The messages that were in the history, and their resources, are gone. -/
def HistoryGone (s s' : FileStore) (history : BitVec 64) : Prop :=
  (∀ r ∈ s'.rows, r.2.table = .messages → r.2.value .history ≠ some history)
    ∧ ∀ r ∈ s.rows, r.2.table = .messages → r.2.value .history = some history →
      ∀ v, r.2.value .id = some v →
        ∀ r' ∈ s'.rows, r'.2.table = .resources → r'.2.value .request ≠ some v

/-- The messages of a history are seen and have an id, and their resources can go. -/
structure HistoryDeletable (s : FileStore) (history : BitVec 64) : Prop where
  seen : ∀ r ∈ s.rows, r.2.table = .messages → r.2.value .history = some history →
    r.1.toNat < 2 ^ 32 ∧ r.2.value .id = some (uint32Value (r.2.toInt .id))
  resources : s.ResourcesDeletable (s.InHistory history)

/-- What is left of the messages of a history that can be seen. -/
theorem historyGone_iff {history : BitVec 64} (hrows : ∀ r ∈ s'.rows, r ∈ (s.without rs ms).rows)
    (hunblocked : s.Unblocked rs)
    (hfrom : ∀ id ∈ rs, ∃ m, s.InHistory history m ∧ s.FromMessage m id)
    (htried : ∀ m ∈ ms, s.InHistory history m ∧ s.AllTried rs m)
    (hall : ∀ r ∈ s.scan .messages (.column .history history), r.2.toInt .id ∈ ms
      ∨ s.query .messages (.column .id (uint32Value (r.2.toInt .id))) = none) :
    (s.HistoryDeletable history → s.HistoryGone s' history)
      ∧ ((∀ r ∈ (s.without rs ms).rows, r.2.table = .messages ∨ r.2.table = .resources → r ∈ s'.rows) →
        s.HistoryGone s' history → s.HistoryDeletable history) := by
  -- the messages that are seen under their own id have gone
  have hms : (∀ r ∈ s.rows, r.2.table = .messages → r.2.value .history = some history →
      r.1.toNat < 2 ^ 32 ∧ r.2.value .id = some (uint32Value (r.2.toInt .id))) →
      ∀ m, s.InHistory history m → m ∈ ms := by
    rintro hseen m ⟨r, hr, ht, hhistory, rfl⟩
    obtain ⟨hlt, hid⟩ := hseen r hr ht hhistory
    obtain ⟨low, hlow⟩ := setWidth_eq_iff.mpr hlt
    have hmem : (low.setWidth 64, r.2) ∈ s.rows := by
      rw [hlow]
      exact hr
    rcases hall (low, r.2) (mem_scan.mpr ⟨hmem, ht, hhistory⟩) with hgone | hnone
    · exact hgone
    · unfold query at hnone
      rw [Option.map_eq_none_iff, List.head?_eq_none_iff] at hnone
      have hfound := mem_scan.mpr ⟨hmem, ht, hid⟩
      rw [hnone] at hfound
      cases hfound
  have hresources := fun hseen => @resourcesGone_iff s rs ms (s.InHistory history) hunblocked hfrom
    (fun m hm => (htried m (hms hseen m hm)).2)
  constructor
  · intro h
    refine ⟨fun r hr ht hhistory => ?_, fun r hr ht hhistory v hv r' hr' ht' => ?_⟩
    · obtain ⟨hmem, hkept⟩ := mem_without.mp (hrows r hr)
      obtain ⟨hlt, hid⟩ := h.seen r hmem ht hhistory
      exact hkept ⟨hlt, .inr ⟨ht, _, hms h.seen _ ⟨r, hmem, ht, hhistory, rfl⟩, hid⟩⟩
    · obtain ⟨-, hid⟩ := h.seen r hr ht hhistory
      obtain rfl := Option.some.inj (hv.symm.trans hid)
      exact (hresources h.seen).mpr h.resources r' (hrows r' hr') ht' _ ⟨r, hr, ht, hhistory, rfl⟩
  · rintro hleft ⟨hmessages, hrest⟩
    have hseen : ∀ r ∈ s.rows, r.2.table = .messages → r.2.value .history = some history →
        r.1.toNat < 2 ^ 32 ∧ r.2.value .id = some (uint32Value (r.2.toInt .id)) := by
      intro r hr ht hhistory
      have hdrop : Dropped rs ms r := by
        by_contra hkept
        exact hmessages r (hleft r (mem_without.mpr ⟨hr, hkept⟩) (.inl ht)) ht hhistory
      rcases hdrop with ⟨hlt, ⟨ht', -⟩ | ⟨-, id, -, hid⟩⟩
      · cases ht.symm.trans ht'
      · rw [toInt_eq hid]
        exact ⟨hlt, hid⟩
    refine ⟨hseen, (hresources hseen).mp ?_⟩
    rintro r' hr' ht' m ⟨r, hr, ht, hhistory, rfl⟩
    exact hrest r hr ht hhistory _ (hseen r hr ht hhistory).2 r' (hleft r' hr' (.inr ht')) ht'

/-- **When a cascade is complete.** For a history, the condition is enough everywhere, and
necessary unless the row that is taken for the history is a message or a resource itself. -/
theorem deleted_iff (s : FileStore) :
    (∀ id, ((s.deleteMessage id).1 = true → (s.deleteMessage id).2.MessageGone id)
      ↔ (s.query .messages (.column .id (uint32Value id)) ≠ none → s.MessageDeletable id))
    ∧ ∀ history,
      ((s.query .histories (.rowid history) ≠ none → s.HistoryDeletable history) →
        (s.deleteHistory history).1 = true → s.HistoryGone (s.deleteHistory history).2 history)
      ∧ ((∀ row, s.query .histories (.rowid history) = some row →
          row.table ≠ .messages ∧ row.table ≠ .resources) →
        ((s.deleteHistory history).1 = true →
          s.HistoryGone (s.deleteHistory history).2 history) →
        s.query .histories (.rowid history) ≠ none → s.HistoryDeletable history) := by
  refine ⟨s.messageGone_iff, fun history => ?_⟩
  unfold FileStore.deleteHistory
  cases hquery : s.query .histories (.rowid history) with
  | none => exact ⟨fun _ htrue => (by cases htrue), fun _ _ hsome => absurd rfl hsome⟩
  | some row =>
    dsimp only
    obtain ⟨rs, ms, hfold, hunblocked, -, -, hfrom, htried, hall⟩ := @deleteMessages_without s
      ((s.scan .messages (.column .history history)).map (·.2.toInt .id)) [] [] s.unblocked_nil
    have hin : ∀ m, m ∈ (s.scan .messages (.column .history history)).map (·.2.toInt .id) →
        s.InHistory history m := by
      intro m hm
      obtain ⟨r, hr, rfl⟩ := List.mem_map.mp hm
      obtain ⟨hmem, ht, hhistory⟩ := mem_scan.mp hr
      exact ⟨_, hmem, ht, hhistory, rfl⟩
    rw [without_nil] at hfold
    rw [hfold]
    obtain ⟨henough, hneeded⟩ := @historyGone_iff s
      ((s.without rs ms).remove .histories (.rowid history)).2 rs ms history
      (fun r hr => List.mem_of_mem_filter hr) hunblocked
      (fun id hid => (hfrom id hid).elim (fun h => by cases h) (fun ⟨m, hm, h⟩ => ⟨m, hin m hm, h⟩))
      (fun m hm => (htried m hm).elim (fun h => by cases h) (fun ⟨hm, h⟩ => ⟨hin m hm, h⟩))
      (fun r hr => hall _ (List.mem_map.mpr ⟨r, hr, rfl⟩))
    refine ⟨fun h _ => henough (h (Option.some_ne_none row)), fun hother h _ => ?_⟩
    -- the row of the history is still there, and nothing else goes with it
    obtain ⟨hmessages, htable⟩ := hother row rfl
    obtain ⟨hmem, hlt⟩ := query_rowid.mp hquery
    have hthere : (history, row) ∈ (s.without rs ms).rows :=
      mem_without.mpr ⟨hmem, not_dropped_of_table htable hmessages⟩
    refine hneeded (fun r hr ht => ?_) (h (bne_iff_ne.mpr (fun hzero => ?_)))
    · refine List.mem_filter.mpr ⟨hr, decide_eq_true (fun hgone => ?_)⟩
      obtain ⟨⟨id, row'⟩, hscan, hid⟩ := List.mem_map.mp hgone
      obtain ⟨hmem', rfl⟩ := mem_scan_rowid.mp hscan
      dsimp only at hid
      rw [hid] at hthere
      have hfind := OrdMap.find?_of_mem_of_nodup (s.without rs ms).nodup hthere
      rw [OrdMap.find?_of_mem_of_nodup (s.without rs ms).nodup hr] at hfind
      obtain rfl := Option.some.inj hfind
      rcases ht with ht | ht
      · exact hmessages ht
      · exact htable ht
    · cases (query_rowid.mpr ⟨hthere, hlt⟩).symm.trans (remove_eq_zero.mp hzero)

/-- A resource of the message 7. -/
def attached (id data : BitVec 64) : FileRow where
  table := .resources
  value := fun c =>
    match c with
    | .id => some id
    | .request => some 7
    | .data => some data
    | _ => none

/-- The message 7 in the history 1. -/
def seventh : FileRow where
  table := .messages
  value := fun c =>
    match c with
    | .id => some 7
    | .history => some 1
    | _ => none

/-- A history with a message that has two resources. -/
def conversation (data : BitVec 64) : FileStore where
  rows := [(1, ⟨.histories, fun _ => none⟩), (2, seventh), (3, attached 1 5), (4, attached 2 data)]
  nodup := show ([1, 2, 3, 4] : List (BitVec 64)).Nodup from by decide
  blobs := [5, 6]

/-- Two resources with a blob each can go. -/
theorem conversation_deletable (P : BitVec 32 → Prop) : (conversation 6).ResourcesDeletable P := by
  have hcases : ∀ r, (conversation 6).IsResourceOf P r → r = (3, attached 1 5) ∨ r = (4, attached 2 6) := by
    rintro r ⟨hr, ht, -⟩
    simp only [conversation, List.mem_cons, List.not_mem_nil, or_false] at hr
    rcases hr with rfl | rfl | hr
    · cases ht
    · cases ht
    · exact hr
  have hfirst : (conversation 6).takenBlob 1 = some 5 := rfl
  have hsecond : (conversation 6).takenBlob 2 = some 6 := rfl
  refine ⟨fun r hr => ?_, fun r hr b htaken => ?_, fun r r' hr hr' hne b htaken htaken' => ?_⟩
  · rcases hcases r hr with rfl | rfl
    · exact ⟨by decide, rfl⟩
    · exact ⟨by decide, rfl⟩
  · rcases hcases r hr with rfl | rfl
    · obtain rfl := Option.some.inj (hfirst.symm.trans htaken)
      exact List.mem_cons_self ..
    · obtain rfl := Option.some.inj (hsecond.symm.trans htaken)
      exact List.mem_cons_of_mem _ (List.mem_cons_self ..)
  · rcases hcases r hr with rfl | rfl
    · obtain rfl := Option.some.inj (hfirst.symm.trans htaken)
      rcases hcases r' hr' with rfl | rfl
      · exact hne rfl
      · cases hsecond.symm.trans htaken'
    · obtain rfl := Option.some.inj (hsecond.symm.trans htaken)
      rcases hcases r' hr' with rfl | rfl
      · cases hfirst.symm.trans htaken'
      · exact hne rfl

theorem deleted_iff_two :
    ((conversation 6).deleteMessage 7).2.MessageGone 7
      ∧ (conversation 6).HistoryGone ((conversation 6).deleteHistory 1).2 1 := by
  obtain ⟨hmessage, hhistory⟩ := deleted_iff (conversation 6)
  have hcases : ∀ r ∈ (conversation 6).rows, r.2.table = .messages → r = (2, seventh) := by
    intro r hr ht
    simp only [conversation, List.mem_cons, List.not_mem_nil, or_false] at hr
    rcases hr with rfl | rfl | rfl | rfl
    · cases ht
    · rfl
    · cases ht
    · cases ht
  constructor
  · refine (hmessage 7).mpr (fun _ => ⟨fun r hr ht _ => ?_, conversation_deletable _⟩) rfl
    obtain rfl := hcases r hr ht
    decide
  · refine (hhistory 1).1 (fun _ => ⟨fun r hr ht _ => ?_, conversation_deletable _⟩) rfl
    obtain rfl := hcases r hr ht
    exact ⟨by decide, rfl⟩

/-- The second resource with the blob 5 stays. -/
theorem cascade_incomplete :
    (((conversation 5).deleteMessage 7).1 = true
        ∧ ¬ ((conversation 5).deleteMessage 7).2.MessageGone 7)
      ∧ ((conversation 5).deleteHistory 1).1 = true
        ∧ ¬ (conversation 5).HistoryGone ((conversation 5).deleteHistory 1).2 1 := by
  have hmessage : ((conversation 5).deleteMessage 7).2.rows
      = [(1, ⟨.histories, fun _ => none⟩), (4, attached 2 5)] := rfl
  have hhistory : ((conversation 5).deleteHistory 1).2.rows = [(4, attached 2 5)] := rfl
  refine ⟨⟨rfl, fun hgone => ?_⟩, rfl, fun hgone => ?_⟩
  · refine hgone.2 (4, attached 2 5) ?_ rfl rfl
    rw [hmessage]
    simp
  · refine hgone.2 (2, seventh) ?_ rfl rfl 7 rfl (4, attached 2 5) ?_ rfl rfl
    · simp [conversation]
    · rw [hhistory]
      simp

end Zway.Client.FileStore
