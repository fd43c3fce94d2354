import Zway.Client.Pushing

/-!
# Which resources are pushed

Whatever else the stream senders of a client do, the resources that are pushed are sent one
after the other, and the callback of `pushResources` comes after the last. `sequenced_iff`
says when all of this happens: the first id in the list that the message does not know is the
end of it.
-/

namespace Zway.Client.Pushing

variable {aes_encrypt : Bytes → Bytes → Bytes} {request : PushRequest} {ids : List UInt32}
  {s s' : Pushing}

/-! ## What is said of a state -/

def Completed (s : Pushing) (h : Nat) : Prop :=
  ∃ sender, s.table.objects[h]? = some sender ∧ sender.status = .completed

/-- The ids of the senders that have been registered. -/
def registered (s : Pushing) : List UInt32 :=
  s.added.filterMap (fun a => (s.table.objects[a.1]?).map (·.id))

/-- **The resources go one after the other**, and the callback comes once, after the last. -/
structure InSequence (request : PushRequest) (ids : List UInt32) (s : Pushing) : Prop where
  order : s.registered <+: ids.filter (fun id => (request.resourceById id).isSome)
  sequential : ∀ done a, s.added = done ++ [a] → ∀ b ∈ done, s.Completed b.1
  once : s.calls ≤ 1
  last : s.calls = 1 → (∀ a ∈ s.added, s.Completed a.1)
    ∧ s.registered = ids.filter (fun id => (request.resourceById id).isSome)
  reported : (∀ a ∈ s.added, s.Completed a.1) → s.calls = 1

/-- A resource that can be pushed. -/
def Pushable (request : PushRequest) (id : UInt32) : Prop :=
  (request.resourceById id).isSome ∧ id ≠ 0

/-! ## The invariant -/

/-- Senders that are done, and out of the way. -/
def AllDone (s : Pushing) (l : List (Nat × Nat)) : Prop :=
  ∀ a ∈ l, s.Completed a.1 ∧ a.1 ∉ s.table.streamSenders

/-- What the senders that were added are. -/
structure Base (request : PushRequest) (ids : List UInt32) (s : Pushing) : Prop where
  handles : ∀ h ∈ s.table.streamSenders, h < s.table.objects.length
  added : ∀ a ∈ s.added, ∃ sender, s.table.objects[a.1]? = some sender
    ∧ ids[a.2]? = some sender.id ∧ Pushable request sender.id
  indexes : s.added.map (·.2) = List.range s.added.length
  nodup : (s.added.map (·.1)).Nodup

/-- How far the pushing is. -/
inductive Phase (request : PushRequest) (ids : List UInt32) (s : Pushing) : Prop where
  /-- A sender is not done yet. -/
  | waiting (done : List (Nat × Nat)) (h : Nat) : s.added = done ++ [(h, done.length)] →
      s.AllDone done → ¬ s.Completed h → s.calls = 0 → Phase request ids s
  /-- It has come to an end before the list has. -/
  | stopped (id : UInt32) : s.AllDone s.added → s.calls = 0 → ids[s.added.length]? = some id →
      ¬ Pushable request id → Phase request ids s
  | reported : s.AllDone s.added → s.calls = 1 → s.added.length = ids.length → Phase request ids s

structure Inv (request : PushRequest) (ids : List UInt32) (s : Pushing) : Prop where
  base : s.Base request ids
  phase : s.Phase request ids

/-- Nothing happens to the senders that were added. -/
structure Apart (s s' : Pushing) : Prop where
  handles : ∀ h ∈ s'.table.streamSenders, h < s'.table.objects.length
  objects : ∀ a ∈ s.added, s'.table.objects[a.1]? = s.table.objects[a.1]?
  streamSenders : ∀ a ∈ s.added, a.1 ∉ s.table.streamSenders → a.1 ∉ s'.table.streamSenders
  added : s'.added = s.added
  calls : s'.calls = s.calls

theorem Apart.completed (h : s.Apart s') {a : Nat × Nat} (ha : a ∈ s.added) :
    s'.Completed a.1 ↔ s.Completed a.1 := by
  unfold Completed
  rw [h.objects a ha]

theorem Apart.allDone (h : s.Apart s') {l : List (Nat × Nat)} (hl : ∀ a ∈ l, a ∈ s.added)
    (hdone : s.AllDone l) : s'.AllDone l :=
  fun a ha => ⟨(h.completed (hl a ha)).mpr (hdone a ha).1, h.streamSenders a (hl a ha) (hdone a ha).2⟩

theorem Base.apart (hb : s.Base request ids) (h : s.Apart s') : s'.Base request ids where
  handles := h.handles
  added := by
    intro a ha
    rw [h.added] at ha
    rw [h.objects a ha]
    exact hb.added a ha
  indexes := by
    rw [h.added]
    exact hb.indexes
  nodup := by
    rw [h.added]
    exact hb.nodup

theorem Inv.apart (hinv : s.Inv request ids) (h : s.Apart s') : s'.Inv request ids where
  base := hinv.base.apart h
  phase := by
    cases hinv.phase with
    | waiting done x hadded hdone hopen hcalls =>
      have hsub : ∀ a ∈ done, a ∈ s.added := by
        intro a ha
        rw [hadded]
        exact List.mem_append_left _ ha
      have hlast : (x, done.length) ∈ s.added := by
        rw [hadded]
        exact List.mem_append_right _ (List.mem_singleton.mpr rfl)
      exact .waiting done x (h.added.trans hadded) (h.allDone hsub hdone)
        (fun hc => hopen ((h.completed hlast).mp hc)) (h.calls.trans hcalls)
    | stopped id hdone hcalls hid hbad =>
      refine .stopped id ?_ (h.calls.trans hcalls) ?_ hbad
      · rw [h.added]
        exact h.allDone (fun _ ha => ha) hdone
      · rw [h.added]
        exact hid
    | reported hdone hcalls hlength =>
      refine .reported ?_ (h.calls.trans hcalls) ?_
      · rw [h.added]
        exact h.allDone (fun _ ha => ha) hdone
      · rw [h.added]
        exact hlength

/-! ## `pushResources` -/

theorem resourceById_id {id : UInt32} {res : Resource} (h : request.resourceById id = some res) :
    res.id = id := by
  unfold PushRequest.resourceById at h
  have hfound := List.find?_some h
  exact of_decide_eq_true hfound

/-- There is a sender for every resource, under its id. -/
theorem sender_eq (res : Resource) (id : UInt32) :
    ∃ sender, request.sender res id = some sender ∧ sender.id = res.id
      ∧ ClientSender.Created sender ∧ sender.parts.toNat = blockCount 65536 res.size.toNat := by
  have hsalt : ∃ salt, resourceSalt (some request.salt) id = some salt := by
    have hcopy : request.salt.copy = some request.salt := by
      unfold MemoryBuffer.copy
      rw [MemoryBuffer.empty_eq_false.mpr (by rw [request.salt_size]; decide)]
      rfl
    unfold resourceSalt
    dsimp only
    rw [hcopy]
    exact ⟨_, rfl⟩
  obtain ⟨salt, hsalt⟩ := hsalt
  unfold PushRequest.sender
  rw [hsalt]
  refine ⟨_, rfl, rfl, .resource (some res) (some request.key) (some salt) _ rfl, ?_⟩
  exact (ClientSender.sized_init 0 Packet.Resource res.size (⟨res, _⟩ : ResourceStream)).2.1

/-- **What `pushResources` does**: it adds the sender of a resource that can be pushed, and
nothing else. -/
theorem pushResources_eq {index : Nat} {id : UInt32} (hid : ids[index]? = some id) (s : Pushing) :
    (∃ sender, ClientSender.Created sender ∧ sender.id = id ∧ Pushable request id
        ∧ (∃ res, request.resourceById id = some res ∧ request.sender res id = some sender)
        ∧ s.pushResources request ids index =
          { s with
            table := s.table.addStreamSender sender
            added := s.added ++ [(s.table.objects.length, index)] })
      ∨ ¬ Pushable request id ∧ s.pushResources request ids index = s := by
  have hne : ids.isEmpty = false := by
    cases ids with
    | nil => cases hid
    | cons _ _ => rfl
  unfold pushResources
  rw [hne, if_neg Bool.false_ne_true, hid]
  dsimp only
  unfold Pushable
  cases hres : request.resourceById id with
  | none => exact .inr ⟨fun h => Bool.false_ne_true h.1, rfl⟩
  | some res =>
    obtain ⟨sender, hsender, hsid, hcreated, -⟩ := @sender_eq request res id
    rw [resourceById_id hres] at hsid
    dsimp only
    rw [hsender]
    dsimp only
    by_cases hzero : id = 0
    · rw [hsid, if_pos hzero]
      exact .inr ⟨fun h => h.2 hzero, rfl⟩
    · rw [hsid, if_neg hzero]
      exact .inl ⟨sender, hcreated, hsid, ⟨rfl, hzero⟩, ⟨res, rfl, hsender⟩, rfl⟩

theorem addStreamSender_objects (t : SenderTable ClientStream) (sender : ClientSender) {h : Nat}
    (hh : h < t.objects.length) : (t.addStreamSender sender).objects[h]? = t.objects[h]? := by
  unfold SenderTable.addStreamSender
  split
  · rfl
  · exact List.getElem?_append_left hh

theorem addStreamSender_handles {t : SenderTable ClientStream}
    (hvalid : ∀ h ∈ t.streamSenders, h < t.objects.length) (sender : ClientSender) :
    ∀ h ∈ (t.addStreamSender sender).streamSenders, h < (t.addStreamSender sender).objects.length := by
  intro h hh
  unfold SenderTable.addStreamSender at hh ⊢
  by_cases hzero : sender.id = 0
  · rw [if_pos hzero] at hh ⊢
    exact hvalid h hh
  · rw [if_neg hzero] at hh ⊢
    rw [List.length_append, List.length_singleton]
    rcases List.mem_append.mp hh with hold | hnew
    · have hlt := hvalid h hold
      omega
    · rw [List.mem_singleton.mp hnew]
      omega

theorem Base.lt (hb : s.Base request ids) {a : Nat × Nat} (ha : a ∈ s.added) :
    a.1 < s.table.objects.length := by
  obtain ⟨sender, hsender, -⟩ := hb.added a ha
  exact (List.getElem?_eq_some_iff.mp hsender).1

/-- Another sender leaves those that were added alone. -/
theorem Base.apart_add (hb : s.Base request ids) (sender : ClientSender) :
    s.Apart { s with table := s.table.addStreamSender sender } where
  handles := addStreamSender_handles hb.handles sender
  objects := fun a ha => addStreamSender_objects s.table sender (hb.lt ha)
  streamSenders := by
    intro a ha hnot hin
    unfold SenderTable.addStreamSender at hin
    dsimp only at hin
    split at hin
    · exact hnot hin
    · rcases List.mem_append.mp hin with hold | hnew
      · exact hnot hold
      · have hlt := hb.lt ha
        rw [List.mem_singleton.mp hnew] at hlt
        exact Nat.lt_irrefl _ hlt
  added := rfl
  calls := rfl

/-- **The next resource**, when those before it are done. -/
theorem Base.pushResources (hb : s.Base request ids) (hdone : s.AllDone s.added) (hcalls : s.calls = 0)
    (hlength : s.added.length < ids.length) :
    (s.pushResources request ids s.added.length).Inv request ids := by
  have hid : ids[s.added.length]? = some ids[s.added.length] := List.getElem?_eq_getElem hlength
  rcases @pushResources_eq request ids _ _ hid s with
    ⟨sender, hcreated, hsid, hpushable, -, heq⟩ | ⟨hbad, heq⟩
  · have hapart := hb.apart_add sender
    have hfresh : sender.status = .idle := hcreated.sized.1.status
    have hnew : (s.table.addStreamSender sender).objects[s.table.objects.length]? = some sender := by
      unfold SenderTable.addStreamSender
      rw [if_neg (by rw [hsid]; exact hpushable.2)]
      exact List.getElem?_concat_length
    rw [heq]
    refine ⟨⟨hapart.handles, fun a ha => ?_, ?_, ?_⟩, .waiting s.added s.table.objects.length rfl
      ?_ ?_ hcalls⟩
    · rcases List.mem_append.mp ha with hold | hlast
      · exact (hb.apart hapart).added a hold
      · obtain rfl := List.mem_singleton.mp hlast
        exact ⟨sender, hnew, by rw [hsid]; exact hid, by rw [hsid]; exact hpushable⟩
    · rw [List.map_append, hb.indexes, List.length_append, List.map_singleton, List.length_singleton,
        List.range_succ]
    · rw [List.map_append]
      refine List.nodup_append.mpr ⟨hb.nodup, List.pairwise_singleton .., fun x hx y hy => ?_⟩
      obtain rfl := List.mem_singleton.mp hy
      obtain ⟨a, ha, rfl⟩ := List.mem_map.mp hx
      exact Nat.ne_of_lt (hb.lt ha)
    · exact hapart.allDone (fun _ ha => ha) hdone
    · rintro ⟨sender', hsender', hstatus⟩
      obtain rfl := Option.some.inj (hnew.symm.trans hsender')
      cases hfresh.symm.trans hstatus
  · rw [heq]
    exact ⟨hb, .stopped _ hdone hcalls hid hbad⟩

/-! ## A turn -/

/-- What is left of a turn, but for the callback of `pushResources`. -/
def turned (s : Pushing) (h : Nat) (p : Sent ClientStream) : Pushing :=
  { s.stored h p with
    table := if p.final then (s.stored h p).table.removeStreamSender h else (s.stored h p).table }

theorem storeSent_objects (t : SenderTable ClientStream) (h : Nat) (p : Sent ClientStream) :
    (storeSent (fun _ => []) t h p).objects = t.objects.set h p.sender
      ∧ (storeSent (fun _ => []) t h p).streamSenders = t.streamSenders := by
  unfold storeSent
  dsimp only
  split
  · exact ⟨rfl, rfl⟩
  · exact ⟨rfl, rfl⟩

theorem turned_table (s : Pushing) (h : Nat) (p : Sent ClientStream) :
    (s.turned h p).table.objects = s.table.objects.set h p.sender
      ∧ (s.turned h p).table.streamSenders
        = if p.final then s.table.streamSenders.filter (· ≠ h) else s.table.streamSenders := by
  obtain ⟨hobjects, hstreams⟩ := storeSent_objects s.table h p
  unfold turned stored
  dsimp only
  split
  · exact ⟨hobjects, congrArg (List.filter _) hstreams⟩
  · exact ⟨hobjects, hstreams⟩

/-- A sender that is there may be taken off before a new one is added. -/
theorem pushResources_remove {h : Nat} (hh : h < s.table.objects.length) (index : Nat) :
    { s.pushResources request ids index with
        table := (s.pushResources request ids index).table.removeStreamSender h }
      = ({ s with table := s.table.removeStreamSender h } : Pushing).pushResources request ids index := by
  have hadd : ∀ sender : ClientSender, (s.table.addStreamSender sender).removeStreamSender h
      = (s.table.removeStreamSender h).addStreamSender sender := by
    intro sender
    have hne : s.table.objects.length ≠ h := Nat.ne_of_gt hh
    unfold SenderTable.addStreamSender SenderTable.removeStreamSender
    by_cases hzero : sender.id = 0
    · rw [if_pos hzero, if_pos hzero]
    · rw [if_neg hzero, if_neg hzero]
      dsimp only
      rw [List.filter_append, List.filter_singleton, decide_eq_true hne]
      rfl
  unfold pushResources
  split
  · rfl
  · cases ids[index]? with
    | none => rfl
    | some id =>
      dsimp only
      cases request.resourceById id with
      | none => rfl
      | some res =>
        dsimp only
        cases request.sender res id with
        | none => rfl
        | some sender =>
          dsimp only
          split
          · rfl
          · rw [hadd]
            rfl

/-- **What a turn does**: the callback of `pushResources` goes on from what is left of it. -/
theorem process_eq {h : Nat} {sender : ClientSender} (hsender : s.table.objects[h]? = some sender) :
    s.process aes_encrypt request ids h sender
      = if (sender.process (ClientStream.virtuals aes_encrypt)).invoked then
          match captured s.added h with
          | some index =>
              (s.turned h (sender.process (ClientStream.virtuals aes_encrypt))).callback request ids index
                (sender.process (ClientStream.virtuals aes_encrypt)).sender.status
          | none => s.turned h (sender.process (ClientStream.virtuals aes_encrypt))
        else s.turned h (sender.process (ClientStream.virtuals aes_encrypt)) := by
  have hprocess := (ClientSender.counting aes_encrypt).process sender
  have hlt : h < s.table.objects.length := (List.getElem?_eq_some_iff.mp hsender).1
  unfold process
  generalize sender.process (ClientStream.virtuals aes_encrypt) = p at hprocess ⊢
  dsimp only
  cases hfinal : p.final with
  | false =>
    have hnot : s.turned h p = s.stored h p := by
      unfold turned
      rw [hfinal, if_neg Bool.false_ne_true]
    unfold invokeCallback
    rw [hprocess.not_invoked hfinal, hnot, if_neg Bool.false_ne_true, if_neg Bool.false_ne_true,
      if_neg Bool.false_ne_true]
  | true =>
    have hturned : s.turned h p =
        { s.stored h p with table := (s.stored h p).table.removeStreamSender h } := by
      unfold turned
      rw [hfinal, if_pos rfl]
    have hstored : h < (s.stored h p).table.objects.length := by
      show h < (storeSent (fun _ => []) s.table h p).objects.length
      rw [(storeSent_objects s.table h p).1, List.length_set]
      exact hlt
    have hadded : (s.stored h p).added = s.added := rfl
    unfold invokeCallback
    rw [if_pos rfl, hturned, hadded]
    by_cases hinvoked : p.invoked = true
    · rw [if_pos hinvoked, if_pos hinvoked]
      cases captured s.added h with
      | none => rfl
      | some index =>
        dsimp only
        unfold callback
        split
        · split
          · exact pushResources_remove hstored (index + 1)
          · rfl
        · rfl
    · rw [if_neg hinvoked, if_neg hinvoked]

/-- What the callback adds. -/
theorem callback_posts (s : Pushing) (index : Nat) (status : SenderStatus) :
    ∃ posts : List ClientSender,
      (s.callback request ids index status).table = posts.foldl SenderTable.addStreamSender s.table
        ∧ (s.callback request ids index status).queue = s.queue := by
  unfold callback
  split
  · split
    · rename_i hmore
      rcases @pushResources_eq request ids _ _ (List.getElem?_eq_getElem hmore) s with
        ⟨sender, -, -, -, -, heq⟩ | ⟨-, heq⟩
      · rw [heq]
        exact ⟨[sender], rfl, rfl⟩
      · rw [heq]
        exact ⟨[], rfl, rfl⟩
    · exact ⟨[], rfl, rfl⟩
  · exact ⟨[], rfl, rfl⟩

/-- A turn of the engine, where the packets are only queued. -/
theorem processStreamSender_pushBack (posts : List ClientSender) {t : SenderTable ClientStream}
    {queue : List Packet} {h : Nat} {sender : ClientSender} (hsender : t.objects[h]? = some sender) :
    (processStreamSender (ClientStream.virtuals aes_encrypt) (fun _ => posts) true Thread.pushBack h
        ⟨t, queue, 0⟩).2.table
      = (if (sender.process (ClientStream.virtuals aes_encrypt)).final then
          (storeSent (fun _ => posts) t h
            (sender.process (ClientStream.virtuals aes_encrypt))).removeStreamSender h
        else storeSent (fun _ => posts) t h (sender.process (ClientStream.virtuals aes_encrypt)))
      ∧ (processStreamSender (ClientStream.virtuals aes_encrypt) (fun _ => posts) true Thread.pushBack h
        ⟨t, queue, 0⟩).2.out
      = queue ++ ((sender.process (ClientStream.virtuals aes_encrypt)).offered true).toList := by
  unfold processStreamSender
  dsimp only
  rw [hsender]
  dsimp only
  generalize sender.process (ClientStream.virtuals aes_encrypt) = p
  obtain ⟨ok, pkt, sender', invoked⟩ := p
  cases ok with
  | false => exact ⟨rfl, (List.append_nil queue).symm⟩
  | true =>
    unfold Sent.final Sent.offered Thread.pushBack
    cases pkt with
    | none =>
      by_cases hc : sender'.status = .completed
      · simp [hc]
      · simp [hc]
    | some pkt =>
      by_cases hc : sender'.status = .completed
      · simp [hc]
      · simp [hc]

/-- **A turn here is a turn of the engine**, with what the callback adds. -/
theorem process_turn {h : Nat} {sender : ClientSender} (hsender : s.table.objects[h]? = some sender) :
    ∃ posts : List ClientSender,
      (processStreamSender (ClientStream.virtuals aes_encrypt) (fun _ => posts) true Thread.pushBack h
          ⟨s.table, s.queue, 0⟩).2.table = (s.process aes_encrypt request ids h sender).table
        ∧ (processStreamSender (ClientStream.virtuals aes_encrypt) (fun _ => posts) true Thread.pushBack h
          ⟨s.table, s.queue, 0⟩).2.out = (s.process aes_encrypt request ids h sender).queue := by
  have hengine := fun posts =>
    @processStreamSender_pushBack aes_encrypt posts s.table s.queue h sender hsender
  unfold process
  generalize sender.process (ClientStream.virtuals aes_encrypt) = p at hengine ⊢
  dsimp only
  obtain ⟨posts, htable, hqueue⟩ : ∃ posts : List ClientSender,
      ((s.stored h p).invokeCallback request ids h p).table = storeSent (fun _ => posts) s.table h p
        ∧ ((s.stored h p).invokeCallback request ids h p).queue = s.queue ++ (p.offered true).toList := by
    unfold invokeCallback
    by_cases hinvoked : p.invoked = true
    · rw [if_pos hinvoked]
      have hstore : ∀ posts, storeSent (fun _ => posts) s.table h p
          = posts.foldl SenderTable.addStreamSender (s.stored h p).table := by
        intro posts
        unfold stored storeSent
        dsimp only
        rw [if_pos hinvoked, if_pos hinvoked]
        rfl
      cases captured (s.stored h p).added h with
      | none => exact ⟨[], (hstore []).symm, rfl⟩
      | some index =>
        obtain ⟨posts, htable, hqueue⟩ := @callback_posts request ids (s.stored h p) index p.sender.status
        exact ⟨posts, htable.trans (hstore posts).symm, hqueue⟩
    · rw [if_neg hinvoked]
      exact ⟨[], rfl, rfl⟩
  obtain ⟨htable', hqueue'⟩ := hengine posts
  refine ⟨posts, ?_⟩
  rw [htable', hqueue', ← htable, ← hqueue]
  split
  · exact ⟨rfl, rfl⟩
  · exact ⟨rfl, rfl⟩

theorem turned_streamSenders {h x : Nat} {p : Sent ClientStream}
    (hx : x ∈ (s.turned h p).table.streamSenders) :
    x ∈ s.table.streamSenders ∧ (p.final = true → x ≠ h) := by
  rw [(turned_table s h p).2] at hx
  split at hx
  · obtain ⟨hmem, hne⟩ := List.mem_filter.mp hx
    exact ⟨hmem, fun _ => of_decide_eq_true hne⟩
  · rename_i hopen
    exact ⟨hx, fun hfinal => absurd hfinal hopen⟩

theorem turned_of_ne {h x : Nat} {p : Sent ClientStream} (hne : x ≠ h) :
    (s.turned h p).table.objects[x]? = s.table.objects[x]? := by
  rw [(turned_table s h p).1, List.getElem?_set_ne (Ne.symm hne)]

theorem turned_self {h : Nat} {p : Sent ClientStream} (hlt : h < s.table.objects.length) :
    (s.turned h p).table.objects[h]? = some p.sender := by
  rw [(turned_table s h p).1, List.getElem?_set_self hlt]

/-- What is done stays done. -/
theorem AllDone.turned {h : Nat} {p : Sent ClientStream} {l : List (Nat × Nat)} (hdone : s.AllDone l)
    (hmem : h ∈ s.table.streamSenders) : (s.turned h p).AllDone l := by
  intro a ha
  obtain ⟨⟨sender, hsender, hstatus⟩, hnot⟩ := hdone a ha
  have hne : a.1 ≠ h := by
    rintro rfl
    exact hnot hmem
  refine ⟨⟨sender, ?_, hstatus⟩, fun hin => hnot (turned_streamSenders hin).1⟩
  rw [turned_of_ne hne]
  exact hsender

theorem Base.turned (hb : s.Base request ids) {h : Nat} {sender : ClientSender} {p : Sent ClientStream}
    (hsender : s.table.objects[h]? = some sender) (hid : p.sender.id = sender.id) :
    (s.turned h p).Base request ids where
  handles := by
    intro x hx
    rw [(turned_table s h p).1, List.length_set]
    exact hb.handles x (turned_streamSenders hx).1
  added := by
    intro a ha
    obtain ⟨sender', hsender', hindex, hpushable⟩ := hb.added a ha
    by_cases hne : a.1 = h
    · rw [hne] at hsender' ⊢
      obtain rfl := Option.some.inj (hsender.symm.trans hsender')
      refine ⟨p.sender, turned_self (List.getElem?_eq_some_iff.mp hsender).1, ?_, ?_⟩
      · rw [hid]
        exact hindex
      · rw [hid]
        exact hpushable
    · rw [turned_of_ne hne]
      exact ⟨sender', hsender', hindex, hpushable⟩
  indexes := hb.indexes
  nodup := hb.nodup

/-- A sender that another one has added does not matter here. -/
theorem Base.apart_turned (hb : s.Base request ids) {h : Nat} {sender : ClientSender}
    {p : Sent ClientStream} (hsender : s.table.objects[h]? = some sender)
    (hid : p.sender.id = sender.id) (hother : ∀ a ∈ s.added, a.1 ≠ h) : s.Apart (s.turned h p) where
  handles := (hb.turned hsender hid).handles
  objects := fun a ha => turned_of_ne (hother a ha)
  streamSenders := fun _ _ hnot hin => hnot (turned_streamSenders hin).1
  added := rfl
  calls := rfl

theorem captured_cases (added : List (Nat × Nat)) (h : Nat) :
    (captured added h = none ∧ ∀ a ∈ added, a.1 ≠ h)
      ∨ ∃ index, captured added h = some index ∧ (h, index) ∈ added := by
  unfold captured
  cases hfind : added.find? (fun a => a.1 = h) with
  | none =>
    refine .inl ⟨rfl, fun a ha he => ?_⟩
    exact List.find?_eq_none.mp hfind a ha (decide_eq_true he)
  | some a =>
    have hkey := List.find?_some hfind
    obtain rfl := of_decide_eq_true hkey
    exact .inr ⟨a.2, rfl, List.mem_of_find?_eq_some hfind⟩

/-- The sender that was waited for is done. -/
theorem Base.turned_done (hb : s.Base request ids) {done : List (Nat × Nat)} {h : Nat}
    {sender : ClientSender} {p : Sent ClientStream} (hadded : s.added = done ++ [(h, done.length)])
    (hdone : s.AllDone done) (hsender : s.table.objects[h]? = some sender)
    (hmem : h ∈ s.table.streamSenders) (hid : p.sender.id = sender.id)
    (hcompleted : p.sender.status = .completed) :
    (s.turned h p).Base request ids ∧ (s.turned h p).AllDone (s.turned h p).added
      ∧ (s.turned h p).added.length = done.length + 1 := by
  have hfinal : p.final = true := by
    unfold Sent.final
    rw [hcompleted]
    exact Bool.or_true _
  refine ⟨hb.turned hsender hid, fun a ha => ?_, ?_⟩
  · rw [show (s.turned h p).added = s.added from rfl, hadded] at ha
    rcases List.mem_append.mp ha with hold | hnew
    · exact hdone.turned hmem a hold
    · obtain rfl := List.mem_singleton.mp hnew
      refine ⟨⟨p.sender, turned_self (List.getElem?_eq_some_iff.mp hsender).1, hcompleted⟩, fun hx => ?_⟩
      exact (turned_streamSenders hx).2 hfinal rfl
  · rw [show (s.turned h p).added = s.added from rfl, hadded, List.length_append,
      List.length_singleton]

/-- **A turn keeps the invariant.** -/
theorem Inv.process (hinv : s.Inv request ids) {h : Nat} {sender : ClientSender}
    (hsender : s.table.objects[h]? = some sender) (hmem : h ∈ s.table.streamSenders) :
    (s.process aes_encrypt request ids h sender).Inv request ids := by
  obtain ⟨hb, hphase⟩ := hinv
  have hlt : h < s.table.objects.length := (List.getElem?_eq_some_iff.mp hsender).1
  have hprocess := (ClientSender.counting aes_encrypt).process sender
  rw [process_eq hsender]
  generalize sender.process (ClientStream.virtuals aes_encrypt) = p at hprocess ⊢
  have hid := hprocess.ids.1
  rcases captured_cases s.added h with ⟨hcaptured, hother⟩ | ⟨index, hcaptured, hin⟩
  · rw [hcaptured]
    dsimp only
    rw [ite_self]
    exact (⟨hb, hphase⟩ : s.Inv request ids).apart (hb.apart_turned hsender hid hother)
  · rw [hcaptured]
    dsimp only
    cases hphase with
    | stopped id hdone => exact absurd hmem (hdone _ hin).2
    | reported hdone => exact absurd hmem (hdone _ hin).2
    | waiting done x hadded hdone hopen hcalls =>
      have hlast : (h, index) = (x, done.length) := by
        rw [hadded] at hin
        rcases List.mem_append.mp hin with hold | hnew
        · exact absurd hmem (hdone _ hold).2
        · exact List.mem_singleton.mp hnew
      obtain ⟨rfl, rfl⟩ := Prod.mk.inj hlast
      have hstatus : sender.status ≠ .completed := fun hc => hopen ⟨sender, hsender, hc⟩
      have hself := turned_self (p := p) hlt
      obtain ⟨hinvoked, -⟩ := hprocess.invoked hstatus
      have hbase := hb.turned hsender hid
      by_cases hcompleted : p.sender.status = .completed
      · -- the callback goes on
        obtain ⟨-, hall, hlength⟩ := hb.turned_done hadded hdone hsender hmem hid hcompleted
        have hran : p.invoked = true := by
          rw [hinvoked]
          unfold Sent.final
          rw [hcompleted]
          exact Bool.or_true _
        rw [if_pos hran]
        unfold callback
        rw [if_pos hcompleted]
        by_cases hmore : done.length + 1 < ids.length
        · rw [if_pos hmore]
          have hnext := hbase.pushResources hall hcalls (by rw [hlength]; exact hmore)
          rw [hlength] at hnext
          exact hnext
        · rw [if_neg hmore]
          obtain ⟨sender', -, hindex, -⟩ := hb.added _ hin
          have hbound : done.length < ids.length := (List.getElem?_eq_some_iff.mp hindex).1
          refine ⟨⟨hbase.handles, hbase.added, hbase.indexes, hbase.nodup⟩, .reported hall ?_ ?_⟩
          · show s.calls + 1 = 1
            rw [hcalls]
          · show (s.turned h p).added.length = ids.length
            omega
      · have hsame : (if p.invoked = true then
            (s.turned h p).callback request ids done.length p.sender.status else s.turned h p)
              = s.turned h p := by
          unfold callback
          rw [if_neg hcompleted, ite_self]
        rw [hsame]
        refine ⟨hbase, .waiting done h hadded (hdone.turned hmem) ?_ hcalls⟩
        rintro ⟨sender', hsender', hc⟩
        obtain rfl := Option.some.inj (hself.symm.trans hsender')
        exact hcompleted hc

/-- **Every step keeps the invariant.** -/
theorem Inv.step (hinv : s.Inv request ids) {e : PushEvent}
    (hstep : s.step aes_encrypt request ids e = some s') : s'.Inv request ids := by
  cases e with
  | process h =>
    unfold Pushing.step at hstep
    dsimp only at hstep
    split at hstep
    · rename_i hmem
      cases hsender : s.table.objects[h]? with
      | none =>
        rw [hsender] at hstep
        cases hstep
      | some sender =>
        rw [hsender] at hstep
        obtain rfl := Option.some.inj hstep
        exact hinv.process hsender hmem
    · cases hstep
  | add new =>
    obtain rfl := Option.some.inj hstep
    exact hinv.apart (hinv.base.apart_add new.sender)
  | finish =>
    obtain rfl := Option.some.inj hstep
    refine hinv.apart ⟨fun _ hh => ?_, fun _ _ => rfl, fun _ _ _ hh => ?_, rfl, rfl⟩
    · cases hh
    · cases hh

/-! ## The run -/

/-- Before anything is pushed. -/
def start (table : SenderTable ClientStream) (queue : List Packet) : Pushing where
  table := table
  queue := queue
  added := []
  calls := 0

theorem base_start {table : SenderTable ClientStream}
    (hvalid : ∀ h ∈ table.streamSenders, h < table.objects.length) (queue : List Packet) :
    (start table queue).Base request ids where
  handles := hvalid
  added := fun _ ha => by cases ha
  indexes := rfl
  nodup := List.nodup_nil

theorem inv_start {table : SenderTable ClientStream}
    (hvalid : ∀ h ∈ table.streamSenders, h < table.objects.length) (queue : List Packet) :
    ((start table queue).pushResources request ids 0).Inv request ids := by
  have hdone : (start table queue).AllDone (start table queue).added := fun _ ha => by cases ha
  cases ids with
  | nil => exact ⟨⟨hvalid, fun _ ha => (by cases ha), rfl, List.nodup_nil⟩, .reported hdone rfl rfl⟩
  | cons id rest =>
    exact (base_start hvalid queue).pushResources hdone rfl (Nat.succ_pos _)

theorem filterMap_range_getElem? {α : Type} (l : List α) : ∀ n : Nat,
    (List.range n).filterMap (fun i => l[i]?) = l.take n
  | 0 => rfl
  | n + 1 => by
      rw [List.range_succ, List.filterMap_append, filterMap_range_getElem? l n, List.take_add_one]
      cases hget : l[n]? with
      | none => simp [hget]
      | some a => simp [hget]

/-- The resources that have been registered are the first ones of the list. -/
theorem Base.registered (hb : s.Base request ids) :
    s.registered = ids.take s.added.length ∧ ∀ id ∈ s.registered, Pushable request id := by
  have hsame : s.registered = s.added.filterMap (fun a => ids[a.2]?) := by
    refine List.filterMap_congr (fun a ha => ?_)
    obtain ⟨sender, hsender, hindex, -⟩ := hb.added a ha
    rw [hsender, hindex]
    rfl
  constructor
  · rw [hsame, ← filterMap_range_getElem?, ← hb.indexes, List.filterMap_map]
    rfl
  · intro id hid
    obtain ⟨a, ha, hsome⟩ := List.mem_filterMap.mp hid
    obtain ⟨sender, hsender, -, hpushable⟩ := hb.added a ha
    rw [hsender] at hsome
    obtain rfl := Option.some.inj hsome
    exact hpushable

theorem Base.order (hb : s.Base request ids) :
    s.registered <+: ids.filter (fun id => (request.resourceById id).isSome) := by
  obtain ⟨hregistered, hpushable⟩ := hb.registered
  have hall : s.registered.filter (fun id => (request.resourceById id).isSome) = s.registered :=
    List.filter_eq_self.mpr (fun id hid => (hpushable id hid).1)
  refine ⟨(ids.drop s.added.length).filter (fun id => (request.resourceById id).isSome), ?_⟩
  rw [← hall, ← List.filter_append, hregistered, List.take_append_drop]

/-- **Where every resource can be pushed**, they go one after the other. -/
theorem Inv.inSequence (hinv : s.Inv request ids) (hall : ∀ id ∈ ids, Pushable request id) :
    s.InSequence request ids := by
  obtain ⟨hb, hphase⟩ := hinv
  have hknown : ids.filter (fun id => (request.resourceById id).isSome) = ids :=
    List.filter_eq_self.mpr (fun id hid => (hall id hid).1)
  cases hphase with
  | waiting done h hadded hdone hopen hcalls =>
    refine ⟨hb.order, fun done' a hadded' b hb' => ?_, ?_, fun hone => ?_, fun hc => ?_⟩
    · obtain ⟨rfl, -⟩ := List.append_inj' (hadded.symm.trans hadded') rfl
      exact (hdone b hb').1
    · rw [hcalls]
      omega
    · cases hcalls.symm.trans hone
    · refine absurd (hc (h, done.length) ?_) hopen
      rw [hadded]
      exact List.mem_append_right _ (List.mem_singleton.mpr rfl)
  | stopped id hdone hcalls hid hbad => exact absurd (hall id (List.mem_of_getElem? hid)) hbad
  | reported hdone hcalls hlength =>
    refine ⟨hb.order, fun done' a hadded' b hb' => ?_, ?_, fun _ => ⟨fun a ha => (hdone a ha).1, ?_⟩,
      fun _ => hcalls⟩
    · refine (hdone b ?_).1
      rw [hadded']
      exact List.mem_append_left _ hb'
    · rw [hcalls]
    · rw [hb.registered.1, hlength, List.take_length, hknown]

/-! ## Senders that complete -/

/-- A sender that is served again and again completes. -/
def Completes (aes_encrypt : Bytes → Bytes → Bytes) (sender : ClientSender) : Prop :=
  ∃ n, (∀ j, j < n → (sender.outcome (ClientStream.virtuals aes_encrypt) j).final = false)
    ∧ (sender.outcome (ClientStream.virtuals aes_encrypt) n).sender.status = .completed

/-- A sender that has something to send completes. -/
theorem completes_of_parts {sender : ClientSender} (hcreated : ClientSender.Created sender)
    (hparts : sender.parts ≠ 0) : Completes aes_encrypt sender := by
  have hn := ClientSender.counting aes_encrypt
  have hsound := hcreated.sound aes_encrypt true
  have hends := hsound.ends hn
  -- the first call that ends it
  obtain ⟨n, hfinal, hopen⟩ : ∃ n, (sender.outcome (ClientStream.virtuals aes_encrypt) n).final = true
      ∧ ∀ j, j < n → (sender.outcome (ClientStream.virtuals aes_encrypt) j).final = false :=
    ⟨Nat.find hends, Nat.find_spec hends, fun _ hj => Bool.eq_false_iff.mpr (Nat.find_min hends hj)⟩
  refine ⟨n, hopen, ?_⟩
  obtain ⟨-, -, hleft⟩ := hn.open_of_not_final hsound.fresh true hopen
  rcases sender.parts_cases with hzero | hpos
  · exact absurd hzero hparts
  · obtain ⟨pkt, hoffered⟩ := hsound.offers n (hleft hpos)
    have hok := Sent.ok_of_offered hoffered
    unfold Sent.final at hfinal
    rw [hok] at hfinal
    simpa using hfinal

/-- **A sender that is waited for is served** until its last call. -/
theorem serve {sender : ClientSender} {h : Nat} : ∀ {n j : Nat} {s : Pushing},
    (∀ i, j ≤ i → i < j + n →
      (sender.outcome (ClientStream.virtuals aes_encrypt) i).final = false) →
    s.table.objects[h]? = some (sender.calls (ClientStream.virtuals aes_encrypt) j) →
    h ∈ s.table.streamSenders →
    ∃ s', Steps.run (step aes_encrypt request ids) s (List.replicate n (.process h)) = some s'
      ∧ s'.table.objects[h]? = some (sender.calls (ClientStream.virtuals aes_encrypt) (j + n))
      ∧ h ∈ s'.table.streamSenders ∧ s'.added = s.added ∧ s'.calls = s.calls
  | 0, _, s, _, hsender, hmem => ⟨s, rfl, hsender, hmem, rfl, rfl⟩
  | n + 1, j, s, hopen, hsender, hmem => by
      have hlt : h < s.table.objects.length := (List.getElem?_eq_some_iff.mp hsender).1
      have hfinal := hopen j (Nat.le_refl j) (by omega)
      have hnot := ((ClientSender.counting aes_encrypt).process
        (sender.calls (ClientStream.virtuals aes_encrypt) j)).not_invoked hfinal
      have hturn : s.step aes_encrypt request ids (.process h)
          = some (s.turned h (sender.outcome (ClientStream.virtuals aes_encrypt) j)) := by
        unfold step
        dsimp only
        rw [if_pos hmem, hsender]
        dsimp only
        rw [process_eq hsender, if_neg (by rw [hnot]; exact Bool.false_ne_true)]
        rfl
      have hself : (s.turned h (sender.outcome (ClientStream.virtuals aes_encrypt) j)).table.objects[h]?
          = some (sender.calls (ClientStream.virtuals aes_encrypt) (j + 1)) := turned_self hlt
      have hstill : h ∈ (s.turned h
          (sender.outcome (ClientStream.virtuals aes_encrypt) j)).table.streamSenders := by
        rw [(turned_table _ _ _).2, hfinal]
        exact hmem
      obtain ⟨s', hrun, hlast, hmem', hadded, hcalls⟩ := serve (n := n) (j := j + 1)
        (fun i hi hlt => hopen i (by omega) (by omega)) hself hstill
      refine ⟨s', Steps.run_cons_eq_some.mpr ⟨_, hturn, hrun⟩, ?_, hmem', hadded, hcalls⟩
      rw [hlast]
      congr 2
      omega

section

variable (aes_encrypt request ids)

/-- Every sender that can be added completes. -/
def AllComplete : Prop :=
  ∀ id ∈ ids, ∀ res sender, request.resourceById id = some res →
    request.sender res id = some sender → Completes aes_encrypt sender

end

/-- They do when no resource is empty. -/
theorem allComplete_of_size
    (h : ∀ id ∈ ids, ∀ res, request.resourceById id = some res → res.size ≠ 0) :
    AllComplete aes_encrypt request ids := by
  intro id hid res sender hres hsender
  obtain ⟨sender', hsender', -, hcreated, hparts⟩ := @sender_eq request res id
  obtain rfl := Option.some.inj (hsender.symm.trans hsender')
  refine completes_of_parts hcreated (fun hzero => h id hid res hres ?_)
  rw [hzero] at hparts
  by_contra hne
  have hpos : 0 < res.size.toNat :=
    Nat.pos_of_ne_zero (fun hnat => hne (UInt32.toNat_inj.mp hnat))
  have hblocks := blockCount_pos (c := 65536) (by omega) hpos
  rw [← hparts] at hblocks
  exact absurd hblocks (Nat.lt_irrefl 0)

/-- **One resource is pushed**, and the next one is up. -/
theorem Base.next (hb : s.Base request ids) (hdone : s.AllDone s.added) (hcalls : s.calls = 0)
    (hmore : s.added.length + 1 < ids.length)
    (hpushable : ∀ id, ids[s.added.length]? = some id → Pushable request id)
    (hcompletes : AllComplete aes_encrypt request ids) :
    ∃ (es : List PushEvent) (s₁ : Pushing),
      Steps.run (step aes_encrypt request ids) (s.pushResources request ids s.added.length) es
        = some (s₁.pushResources request ids (s.added.length + 1))
      ∧ s₁.Base request ids ∧ s₁.AllDone s₁.added ∧ s₁.calls = 0
      ∧ s₁.added.length = s.added.length + 1 := by
  have hlt : s.added.length < ids.length := by omega
  have hid : ids[s.added.length]? = some ids[s.added.length] := List.getElem?_eq_getElem hlt
  have hinv := hb.pushResources hdone hcalls hlt
  rcases @pushResources_eq request ids _ _ hid s with
    ⟨sender, -, hsid, -, ⟨res, hres, hsender⟩, heq⟩ | ⟨hbad, -⟩
  · obtain ⟨n, hopen, hlast⟩ := hcompletes _ (List.getElem_mem hlt) res sender hres hsender
    rw [heq] at hinv ⊢
    have hadd : s.table.addStreamSender sender =
        { s.table with
          objects := s.table.objects ++ [sender]
          streamSenders := s.table.streamSenders ++ [s.table.objects.length] } := by
      unfold SenderTable.addStreamSender
      rw [if_neg (by rw [hsid]; exact (hpushable _ hid).2)]
    obtain ⟨s₁, hrun, hobject, hmem, hadded, hcalls₁⟩ := @serve aes_encrypt request ids sender
      s.table.objects.length n 0
      { s with
        table := s.table.addStreamSender sender
        added := s.added ++ [(s.table.objects.length, s.added.length)] }
      (fun i _ hi => hopen i (by omega)) (by rw [hadd]; exact List.getElem?_concat_length)
      (by rw [hadd]; exact List.mem_append_right _ (List.mem_singleton.mpr rfl))
    rw [Nat.zero_add] at hobject
    have hinv₁ : s₁.Inv request ids :=
      Steps.run_invariant (fun _ _ _ h hstep => h.step hstep) hinv hrun
    dsimp only at hadded hcalls₁
    have hin : (s.table.objects.length, s.added.length) ∈ s₁.added := by
      rw [hadded]
      exact List.mem_append_right _ (List.mem_singleton.mpr rfl)
    -- it is the one that is waited for
    obtain ⟨hdone₁, hopen₁⟩ : s₁.AllDone s.added ∧ ¬ s₁.Completed s.table.objects.length := by
      cases hinv₁.phase with
      | stopped id hall => exact absurd hmem (hall _ hin).2
      | reported hall => exact absurd hmem (hall _ hin).2
      | waiting done x hadded₁ hdone₁ hopen₁ =>
        obtain ⟨rfl, hx⟩ := List.append_inj' (hadded.symm.trans hadded₁) rfl
        obtain ⟨rfl, -⟩ := Prod.mk.inj (List.cons.inj hx).1
        exact ⟨hdone₁, hopen₁⟩
    have hprocess := (ClientSender.counting aes_encrypt).process
      (sender.calls (ClientStream.virtuals aes_encrypt) n)
    have hstatus : (sender.calls (ClientStream.virtuals aes_encrypt) n).status ≠ .completed :=
      fun hc => hopen₁ ⟨_, hobject, hc⟩
    have hcaptured : captured s₁.added s.table.objects.length = some s.added.length := by
      rcases captured_cases s₁.added s.table.objects.length with ⟨-, hnone⟩ | ⟨index, hsome, hin'⟩
      · exact absurd rfl (hnone _ hin)
      · rw [hsome]
        rw [hadded] at hin'
        rcases List.mem_append.mp hin' with hold | hnew
        · exact absurd (hb.lt hold) (Nat.lt_irrefl _)
        · exact congrArg some (Prod.mk.inj (List.mem_singleton.mp hnew)).2
    obtain ⟨hb₂, hdone₂, hlength₂⟩ := hinv₁.base.turned_done hadded hdone₁ hobject hmem
      hprocess.ids.1 hlast
    refine ⟨List.replicate n (.process s.table.objects.length) ++ [.process s.table.objects.length],
      _, Steps.run_append hrun (Steps.run_cons_eq_some.mpr ⟨_, ?_, rfl⟩), hb₂, hdone₂,
      hcalls₁.trans hcalls, hlength₂⟩
    unfold step
    dsimp only
    rw [if_pos hmem, hobject]
    dsimp only
    replace hlast : ((sender.calls (ClientStream.virtuals aes_encrypt) n).process
      (ClientStream.virtuals aes_encrypt)).sender.status = .completed := hlast
    have hran : ((sender.calls (ClientStream.virtuals aes_encrypt) n).process
        (ClientStream.virtuals aes_encrypt)).invoked = true := by
      rw [(hprocess.invoked hstatus).1]
      unfold Sent.final
      rw [hlast]
      exact Bool.or_true _
    rw [process_eq hobject, hcaptured]
    dsimp only
    rw [if_pos hran]
    unfold callback
    rw [if_pos hlast, if_pos hmore]
  · exact absurd (hpushable _ hid) hbad

/-- The pushing gets as far as the resources before can be pushed. -/
theorem reaches {table : SenderTable ClientStream}
    (hvalid : ∀ h ∈ table.streamSenders, h < table.objects.length) (queue : List Packet)
    (hcompletes : AllComplete aes_encrypt request ids) : ∀ {k : Nat}, k < ids.length →
    (∀ j, j < k → ∀ id, ids[j]? = some id → Pushable request id) →
    ∃ (es : List PushEvent) (s₁ : Pushing),
      Steps.run (step aes_encrypt request ids) ((start table queue).pushResources request ids 0) es
        = some (s₁.pushResources request ids k)
      ∧ s₁.Base request ids ∧ s₁.AllDone s₁.added ∧ s₁.calls = 0 ∧ s₁.added.length = k
  | 0, _, _ => ⟨[], _, rfl, base_start hvalid queue, fun _ ha => (by cases ha), rfl, rfl⟩
  | k + 1, hk, hpushable => by
      obtain ⟨es, s₁, hrun, hb, hdone, hcalls, rfl⟩ := reaches hvalid queue hcompletes
        (k := k) (by omega) (fun j hj => hpushable j (by omega))
      obtain ⟨es', s₂, hrun', hrest⟩ := hb.next hdone hcalls hk
        (hpushable _ (Nat.lt_succ_self _)) hcompletes
      exact ⟨es ++ es', s₂, Steps.run_append hrun hrun', hrest⟩

/-- **When the resources are pushed one after the other**, and the callback is called: when the
message has every resource that the response lists. Where it has not, `processResponse` does not
even come to push the first one. -/
theorem sequenced_iff (aes_encrypt : Bytes → Bytes → Bytes) (request : PushRequest) (ids : List UInt32)
    (hcompletes : AllComplete aes_encrypt request ids) :
    ((∀ table queue, (∀ h ∈ table.streamSenders, h < table.objects.length) → ∀ es s,
        Steps.run (step aes_encrypt request ids) ((start table queue).pushResources request ids 0) es
          = some s → s.InSequence request ids)
      ↔ ∀ id ∈ ids, Pushable request id)
    ∧ ∀ s : Pushing, s.processResponse request ids = none
      ↔ ∃ id ∈ ids, request.resourceById id = none := by
  refine ⟨⟨fun h => ?_, fun hall table queue hvalid es s hrun => ?_⟩, fun s => ?_⟩
  · by_contra hbad
    have hfirst : ∃ k : Nat, ∃ id, ids[k]? = some id ∧ ¬ Pushable request id := by
      push Not at hbad
      obtain ⟨id, hid, hnot⟩ := hbad
      obtain ⟨k, hk⟩ := List.getElem?_of_mem hid
      exact ⟨k, id, hk, hnot⟩
    -- the first one that cannot be pushed
    obtain ⟨k, ⟨id, hid, hnot⟩, hmin⟩ : ∃ k : Nat, (∃ id, ids[k]? = some id ∧ ¬ Pushable request id)
        ∧ ∀ j, j < k → ∀ id, ids[j]? = some id → Pushable request id := by
      classical
      refine ⟨Nat.find hfirst, Nat.find_spec hfirst, fun j hj id hid => ?_⟩
      by_contra hnot
      exact Nat.find_min hfirst hj ⟨id, hid, hnot⟩
    have hvalid : ∀ h ∈ (SenderTable.empty : SenderTable ClientStream).streamSenders,
        h < (SenderTable.empty : SenderTable ClientStream).objects.length := fun _ hh => by cases hh
    obtain ⟨es, s, hrun, -, hdone, hcalls, -⟩ := reaches hvalid [] hcompletes
      (List.getElem?_eq_some_iff.mp hid).1 hmin
    rcases @pushResources_eq request ids _ _ hid s with ⟨-, -, -, hpushable, -⟩ | ⟨-, heq⟩
    · exact hnot hpushable
    · rw [heq] at hrun
      have hone := (h _ _ hvalid es s hrun).reported (fun a ha => (hdone a ha).1)
      cases hcalls.symm.trans hone
  · exact (Steps.run_invariant (fun _ _ _ h hstep => h.step hstep) (inv_start hvalid queue)
      hrun).inSequence hall
  · unfold processResponse
    cases hids : ids.isEmpty with
    | true =>
      obtain rfl := List.isEmpty_iff.mp hids
      rw [if_pos rfl]
      refine ⟨fun hnone => (by cases hnone), ?_⟩
      rintro ⟨id, hid, -⟩
      cases hid
    | false =>
      rw [if_neg Bool.false_ne_true]
      by_cases hall : ids.all (fun id => (request.resourceById id).isSome) = true
      · rw [if_pos hall]
        refine ⟨fun hnone => (by cases hnone), ?_⟩
        rintro ⟨id, hid, hnone⟩
        have hsome := List.all_eq_true.mp hall id hid
        rw [hnone] at hsome
        cases hsome
      · rw [if_neg hall]
        refine ⟨fun _ => ?_, fun _ => rfl⟩
        by_contra hnone
        refine hall (List.all_eq_true.mpr (fun id hid => Option.isSome_iff_ne_none.mpr (fun he => ?_)))
        exact hnone ⟨id, hid, he⟩

/-- A message with a resource of one byte. -/
def oneResource : PushRequest where
  resources := [⟨7, some (.create 1)⟩]
  key := .create 32
  salt := .create 16
  salt_size := by rw [MemoryBuffer.create_size]; decide

theorem oneResource_complete (aes_encrypt : Bytes → Bytes → Bytes) (ids : List UInt32) :
    AllComplete aes_encrypt oneResource ids := by
  refine allComplete_of_size (fun id _ res hres => ?_)
  obtain rfl := List.mem_singleton.mp (List.mem_of_find?_eq_some hres)
  show UInt32.ofNat (MemoryBuffer.create 1).size ≠ 0
  rw [MemoryBuffer.create_size]
  decide

/-- The one resource is pushed. -/
theorem sequenced_one : ((start .empty []).pushResources oneResource [7] 0).InSequence oneResource [7] := by
  refine (sequenced_iff (fun _ block => block) oneResource [7] (oneResource_complete _ [7])).1.mpr ?_
    .empty [] (fun h hh => by cases hh) [] _ rfl
  intro id hid
  obtain rfl := List.mem_singleton.mp hid
  exact ⟨rfl, by decide⟩

/-- After an id that the message does not know, its resource is not pushed any more. -/
theorem not_sequenced :
    AllComplete (fun _ block => block) oneResource [9, 7]
      ∧ ¬ ((start .empty []).pushResources oneResource [9, 7] 0).InSequence oneResource [9, 7]
      ∧ (start .empty []).processResponse oneResource [9, 7] = none := by
  refine ⟨oneResource_complete _ _, fun h => ?_, rfl⟩
  have hone := h.reported (fun a ha => by cases ha)
  cases hone

end Zway.Client.Pushing
