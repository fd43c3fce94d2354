import Zway.Client.Transmission

/-!
# What packets and pushes do to the tables

A packet of an announced resource marks its rows: they are incoming, and with the last
packet received. The callback of the last one then looks at the other rows of the request,
and finishes the message if they are received: `Tracks.delivered`.
-/

namespace Zway.Client

/-! ## Marking a resource -/

namespace Records

/-- The rows of a resource get a status, and nothing else happens to the columns that are counted. -/
def Marks (id : UInt32) (status : ResourceStatus) (s s' : Records) : Prop :=
  s'.resources.map (fun row => (row.id, row.request, row.status))
    = s.resources.map (fun row => (row.id, row.request, if row.id = id then status else row.status))

theorem Marks.forall_iff {id : UInt32} {status : ResourceStatus} {s s' : Records}
    (h : Marks id status s s') (P : UInt32 → UInt32 → ResourceStatus → Prop) :
    (∀ row ∈ s'.resources, P row.id row.request row.status)
      ↔ ∀ row ∈ s.resources, P row.id row.request (if row.id = id then status else row.status) := by
  have hleft := @List.forall_mem_map _ _ (fun row : ResourceRow => (row.id, row.request, row.status))
    s'.resources (fun x => P x.1 x.2.1 x.2.2)
  have hright := @List.forall_mem_map _ _
    (fun row : ResourceRow => (row.id, row.request, if row.id = id then status else row.status))
    s.resources (fun x => P x.1 x.2.1 x.2.2)
  unfold Marks at h
  rw [h] at hleft
  exact hleft.symm.trans hright

theorem Marks.exists_id {id : UInt32} {status : ResourceStatus} {s s' : Records}
    (h : Marks id status s s') {id' : UInt32} (hrow : ∃ row ∈ s.resources, row.id = id') :
    ∃ row ∈ s'.resources, row.id = id' := by
  obtain ⟨row, hmem, hid⟩ := hrow
  apply Classical.byContradiction
  intro hnone
  have hall := (h.forall_iff (fun id'' _ _ => id'' ≠ id')).mp
    (fun row' hmem' hid' => hnone ⟨row', hmem', hid'⟩)
  exact hall row hmem hid

theorem marks_updateResource (s : Records) (id : UInt32) (status : ResourceStatus) :
    Marks id status s (s.updateResource id status) := by
  unfold Marks updateResource
  rw [List.map_map]
  refine List.map_congr_left (fun row _ => ?_)
  by_cases hid : row.id = id
  · simp [hid]
  · simp [hid]

theorem marks_storeResource (s : Records) (id : UInt32) (status : ResourceStatus)
    (data : Option MemoryBuffer) : Marks id status s (s.storeResource id status data) := by
  unfold Marks storeResource
  rw [List.map_map]
  refine List.map_congr_left (fun row _ => ?_)
  by_cases hid : row.id = id
  · simp [hid]
  · simp [hid]

/-- Rows that have the status already. -/
theorem marks_self {s : Records} {id : UInt32} {status : ResourceStatus}
    (h : ∀ row ∈ s.resources, row.id = id → row.status = status) : Marks id status s s := by
  refine List.map_congr_left (fun row hrow => ?_)
  by_cases hid : row.id = id
  · rw [if_pos hid, h row hrow hid]
  · rw [if_neg hid]

theorem Marks.trans {id : UInt32} {status status' : ResourceStatus} {s s₁ s' : Records}
    (h : Marks id status s s₁) (h' : Marks id status' s₁ s') : Marks id status' s s' := by
  unfold Marks at h h' ⊢
  have hmap := congrArg
    (List.map (fun x : UInt32 × UInt32 × ResourceStatus =>
      (x.1, x.2.1, if x.1 = id then status' else x.2.2))) h
  rw [List.map_map, List.map_map] at hmap
  refine h'.trans (hmap.trans (List.map_congr_left (fun row _ => ?_)))
  by_cases hid : row.id = id
  · simp [hid]
  · simp [hid]

/-! ## The callback -/

/-- The other resources of the request have been received. -/
def Others (s : Records) (request id : UInt32) : Prop :=
  ∀ row ∈ s.resources, row.request = request → row.id = id ∨ row.status = .received

theorem numWith_storeResource_eq_iff (s : Records) (id request : UInt32) (buffer : MemoryBuffer) :
    (s.storeResource id .received (some buffer)).numWith request .received
        = (s.storeResource id .received (some buffer)).numResources request
      ↔ Others s request id := by
  rw [numWith_eq_iff, (marks_storeResource s id .received (some buffer)).forall_iff
    (fun _ request' status => request' = request → status = .received)]
  refine forall_congr' (fun row => forall_congr' (fun _ => forall_congr' (fun _ => ?_)))
  by_cases hid : row.id = id
  · simp [hid]
  · simp [hid]

/-- What becomes of the resource itself does not matter. -/
theorem Marks.others_iff {id : UInt32} {status : ResourceStatus} {s s' : Records}
    (h : Marks id status s s') (request : UInt32) : Others s' request id ↔ Others s request id := by
  unfold Others
  rw [h.forall_iff (fun id' request' status' => request' = request → id' = id ∨ status' = .received)]
  refine forall_congr' (fun row => forall_congr' (fun _ => forall_congr' (fun _ => ?_)))
  by_cases hid : row.id = id
  · simp [hid]
  · simp [hid]

/-- The callback with the last resource of a message. -/
theorem resourceReceived_last {s : Records} {id : UInt32} {buffer : MemoryBuffer}
    {request : RequestRow} (h : Others s request.id id) :
    ∃ message resource, s.resourceReceived id buffer request =
      ((((s.storeResource id .received (some buffer)).removeRequest request.id).updateMessage
        request.id .received).post (.resourceReceived message resource)).post (.messageReceived
          ((s.updateMessage request.id .received).message request.id)) := by
  unfold resourceReceived
  dsimp only
  rw [if_pos ((numWith_storeResource_eq_iff s id request.id buffer).mpr h)]
  exact ⟨_, _, rfl⟩

theorem resourceReceived_other {s : Records} {id : UInt32} {buffer : MemoryBuffer}
    {request : RequestRow} (h : ¬ Others s request.id id) :
    ∃ message resource, s.resourceReceived id buffer request =
      (s.storeResource id .received (some buffer)).post (.resourceReceived message resource) := by
  unfold resourceReceived
  dsimp only
  rw [if_neg (fun hnum => h ((numWith_storeResource_eq_iff s id request.id buffer).mp hnum))]
  exact ⟨_, _, rfl⟩

/-! ## Pushes -/

theorem countP_eq_zero_of_ne {α : Type} {rows : List α} {f : α → UInt32} {id : UInt32}
    (h : ∀ row ∈ rows, f row ≠ id) : rows.countP (f · = id) = 0 :=
  List.countP_eq_zero.mpr (fun row hrow hid => h row hrow (of_decide_eq_true hid))

/-- The rows of a push go in once. -/
theorem foldl_insertResource (requestId : UInt32) : ∀ (ids : List UInt32) (s : Records),
    ∃ rows, ids.foldl (insertResource requestId) s = { s with resources := s.resources ++ rows }
      ∧ (∀ row ∈ rows, row.id ∈ ids ∧ row.request = requestId ∧ row.status = .unknown)
      ∧ ∀ id ∈ ids, ∃ row ∈ s.resources ++ rows, row.id = id
  | [], s => ⟨[], by rw [List.append_nil]; rfl, fun _ h => (by cases h), fun _ h => (by cases h)⟩
  | id :: ids, s => by
      by_cases hcount : s.resources.countP (·.id = id) = 0
      · obtain ⟨rows, hfold, hrows, hids⟩ := foldl_insertResource requestId ids
          { s with resources := s.resources ++ [⟨id, requestId, .unknown, none⟩] }
        refine ⟨⟨id, requestId, .unknown, none⟩ :: rows, ?_, ?_, ?_⟩
        · rw [List.foldl_cons, insertResource, if_pos hcount, hfold, List.append_assoc]
          rfl
        · intro row hrow
          rcases List.mem_cons.mp hrow with rfl | hrow
          · exact ⟨List.mem_cons_self .., rfl, rfl⟩
          · exact ⟨List.mem_cons_of_mem _ (hrows row hrow).1, (hrows row hrow).2⟩
        · intro id' hid'
          rcases List.mem_cons.mp hid' with rfl | hid'
          · exact ⟨_, List.mem_append_right _ (List.mem_cons_self ..), rfl⟩
          · obtain ⟨row, hrow, hid⟩ := hids id' hid'
            rw [List.append_assoc] at hrow
            exact ⟨row, hrow, hid⟩
      · obtain ⟨rows, hfold, hrows, hids⟩ := foldl_insertResource requestId ids s
        refine ⟨rows, ?_, fun row hrow => ⟨List.mem_cons_of_mem _ (hrows row hrow).1, (hrows row hrow).2⟩, ?_⟩
        · rw [List.foldl_cons, insertResource, if_neg hcount, hfold]
        · intro id' hid'
          rcases List.mem_cons.mp hid' with rfl | hid'
          · obtain ⟨row, hrow, hid⟩ := List.countP_pos_iff.mp (Nat.pos_of_ne_zero hcount)
            exact ⟨row, List.mem_append_left _ hrow, of_decide_eq_true hid⟩
          · exact hids id' hid'

/-- **A new push** leaves its rows, and an event. -/
theorem processPush_eq {s : Records} {p : Push} (hresources : p.resources ≠ []) (htext : p.text ≠ [])
    (hrequests : ∀ row ∈ s.requests, row.id ≠ p.requestId)
    (hmessages : ∀ row ∈ s.messages, row.id ≠ p.requestId) :
    ∃ rows, (s.processPush p).1 =
        { resources := s.resources ++ rows
          requests := s.requests ++ [⟨p.requestId, p.key, p.salt⟩]
          messages := s.messages ++ [⟨p.requestId, .incoming⟩]
          events := s.events ++ [.messageIncoming ⟨p.requestId, .incoming⟩] }
      ∧ (∀ row ∈ rows, row.id ∈ p.resources ∧ row.request = p.requestId ∧ row.status = .unknown)
      ∧ ∀ id ∈ p.resources, ∃ row ∈ s.resources ++ rows, row.id = id := by
  have hlength : p.resources.length ≠ 0 := fun h => hresources (List.length_eq_zero_iff.mp h)
  have hempty : p.text.isEmpty = false := List.isEmpty_eq_false_iff.mpr htext
  obtain ⟨rows, hfold, hrows, hids⟩ := foldl_insertResource p.requestId p.resources
    { s with requests := s.requests ++ [⟨p.requestId, p.key, p.salt⟩] }
  refine ⟨rows, ?_, hrows, hids⟩
  unfold processPush processMessage
  dsimp only
  rw [if_pos hlength, if_pos (countP_eq_zero_of_ne hrequests), hfold, hempty, if_neg (by decide),
    if_pos hlength, if_neg hlength]
  dsimp only
  rw [if_pos (countP_eq_zero_of_ne hmessages)]
  rfl

end Records

/-! ## One stream -/

/-- The status of a resource after `k` of its `n` packets. -/
def statusAt (k n : Nat) : ResourceStatus :=
  if k = 0 then .unknown else if k = n then .received else .incoming

/-- The resource of a push after `k` packets. -/
structure Tracks (p : Push) (id : UInt32) (content : Content) (s : Incoming) (k : Nat) : Prop where
  le : k ≤ content.parts id
  row : ∃ row ∈ s.records.resources, row.id = id
  request : ∀ row ∈ s.records.resources, row.id = id → row.request = p.requestId
  status : ∀ row ∈ s.records.resources, row.id = id → row.status = statusAt k (content.parts id)
  /-- There is a receiver in the middle of the stream only. -/
  receiver : 0 < k → k < content.parts id → ∃ r, OrdMap.find? s.streamReceivers id = some (.resource r)
    ∧ r.request = ⟨p.requestId, p.key, p.salt⟩ ∧ r.receiver.status ≠ .completed
    ∧ ResourceReceiver.Follows p.key.data (p.ctr id) (content.sender id) r.receiver k
  vacant : k = 0 ∨ k = content.parts id → OrdMap.find? s.streamReceivers id = none

/-- The rows of requests and messages, and the events, are the same. -/
structure SameTables (s s' : Records) : Prop where
  requests : s'.requests = s.requests
  messages : s'.messages = s.messages
  posted : ∀ messageId, s'.events.countP (·.isMessageReceived messageId)
    = s.events.countP (·.isMessageReceived messageId)

/-- The message of a request has been received. -/
structure Finished (requestId : UInt32) (s s' : Records) : Prop where
  requests : s'.requests = s.requests.filter (·.id ≠ requestId)
  messages : s'.messages = (s.updateMessage requestId .received).messages
  posted : ∀ messageId, s'.events.countP (·.isMessageReceived messageId)
    = s.events.countP (·.isMessageReceived messageId)
      + if messageId = requestId ∧ ∃ row ∈ s.messages, row.id = requestId then 1 else 0

theorem SameTables.trans {s s₁ s' : Records} (h : SameTables s s₁) (h' : SameTables s₁ s') :
    SameTables s s' :=
  ⟨h'.requests.trans h.requests, h'.messages.trans h.messages,
    fun messageId => (h'.posted messageId).trans (h.posted messageId)⟩

theorem SameTables.trans_finished {requestId : UInt32} {s s₁ s' : Records} (h : SameTables s s₁)
    (h' : Finished requestId s₁ s') : Finished requestId s s' := by
  obtain ⟨hrequests, hmessages, hposted⟩ := h'
  unfold Records.updateMessage at hmessages
  rw [h.requests] at hrequests
  rw [h.messages] at hmessages hposted
  exact ⟨hrequests, hmessages, fun messageId => by rw [hposted, h.posted]⟩

/-- The event of a message that has been updated. -/
theorem isMessageReceived_updateMessage (s : Records) (requestId messageId : UInt32) :
    (if (ClientEvent.messageReceived ((s.updateMessage requestId .received).message requestId)).isMessageReceived
        messageId = true then 1 else 0)
      = if messageId = requestId ∧ ∃ row ∈ s.messages, row.id = requestId then 1 else 0 := by
  have hmem := Records.exists_updateMessage s requestId requestId .received
  cases hfind : (s.updateMessage requestId .received).message requestId with
  | some row =>
    obtain ⟨hrow, hid⟩ := Records.message_mem hfind
    have hexists := hmem.mp ⟨row, hrow, hid⟩
    refine if_congr ?_ rfl rfl
    change decide (row.id = messageId) = true ↔ _
    rw [decide_eq_true_iff, hid]
    exact ⟨fun h => ⟨h.symm, hexists⟩, fun h => h.1.symm⟩
  | none =>
    rw [if_neg (fun h => by cases h), if_neg]
    rintro ⟨-, hexists⟩
    obtain ⟨row, hrow, hid⟩ := hmem.mpr hexists
    obtain ⟨row', hfind'⟩ := Records.exists_message hrow hid
    rw [hfind] at hfind'
    cases hfind'

/-- **The callback** marks the resource, and finishes the message if it was the last one. -/
theorem resourceReceived_spec (s : Records) (id : UInt32) (buffer : MemoryBuffer)
    (request : RequestRow) :
    Records.Marks id .received s (s.resourceReceived id buffer request)
      ∧ (Records.Others s request.id id →
          Finished request.id s (s.resourceReceived id buffer request))
      ∧ (¬ Records.Others s request.id id →
          SameTables s (s.resourceReceived id buffer request)) := by
  by_cases h : Records.Others s request.id id
  · obtain ⟨message, resource, heq⟩ := @Records.resourceReceived_last s id buffer request h
    rw [heq]
    refine ⟨Records.marks_storeResource s id .received (some buffer), fun _ => ⟨rfl, rfl, ?_⟩,
      fun hn => absurd h hn⟩
    intro messageId
    rw [Records.post_events, Records.post_events, List.countP_append, List.countP_append,
      List.countP_singleton, List.countP_singleton]
    exact congrArg _ (isMessageReceived_updateMessage s request.id messageId)
  · obtain ⟨message, resource, heq⟩ := @Records.resourceReceived_other s id buffer request h
    rw [heq]
    refine ⟨Records.marks_storeResource s id .received (some buffer), fun ho => absurd ho h,
      fun _ => ⟨rfl, rfl, fun messageId => ?_⟩⟩
    rw [Records.post_events, List.countP_append]
    rfl

/-- What one packet does. -/
structure Delivered (p : Push) (id : UInt32) (content : Content) (k : Nat) (s : Incoming)
    (r : Processed) : Prop where
  completed : r.completed = true ↔ k + 1 = content.parts id
  marks : Records.Marks id (statusAt (k + 1) (content.parts id)) s.records r.incoming.records
  others : ∀ id', id' ≠ id →
    OrdMap.find? r.incoming.streamReceivers id' = OrdMap.find? s.streamReceivers id'
  receiver : k + 1 < content.parts id → ∃ r', OrdMap.find? r.incoming.streamReceivers id = some (.resource r')
    ∧ r'.request = ⟨p.requestId, p.key, p.salt⟩ ∧ r'.receiver.status ≠ .completed
    ∧ ResourceReceiver.Follows p.key.data (p.ctr id) (content.sender id) r'.receiver (k + 1)
  vacant : k + 1 = content.parts id → OrdMap.find? r.incoming.streamReceivers id = none
  finished : k + 1 = content.parts id → Records.Others s.records p.requestId id →
    Finished p.requestId s.records r.incoming.records
  same : k + 1 ≠ content.parts id ∨ ¬ Records.Others s.records p.requestId id →
    SameTables s.records r.incoming.records

section

variable {aes_encrypt : Bytes → Bytes → Bytes} {p : Push} {id : UInt32} {content : Content} {k : Nat}

/-- The receiver of a packet of the stream, which may be a new one. -/
theorem Tracks.receiver_any {s : Incoming} (h : Tracks p id content s k) (hk : k < content.parts id)
    (hrequest : s.records.request p.requestId = some ⟨p.requestId, p.key, p.salt⟩) {pkt : Packet}
    (hstream : pkt.head.streamId = id) (htype : k = 0 → pkt.head.streamType = Packet.Resource) :
    ∃ records r, Records.Marks id .incoming s.records records ∧ SameTables s.records records
      ∧ r.request = ⟨p.requestId, p.key, p.salt⟩ ∧ r.receiver.status ≠ .completed
      ∧ (k = 0 → r.receiver = BufferReceiver.init pkt (contextAt p.key.data (p.ctr id) 0))
      ∧ (0 < k → ResourceReceiver.Follows p.key.data (p.ctr id) (content.sender id) r.receiver k)
      ∧ s.processIncomingPacket aes_encrypt pkt
        = { s with records := records }.processReceiver aes_encrypt r pkt := by
  unfold Incoming.processIncomingPacket
  rw [hstream]
  by_cases hzero : k = 0
  · subst hzero
    obtain ⟨row, hmem, hid⟩ := h.row
    have hunknown : row.status = .unknown := h.status row hmem hid
    cases hfind : s.records.resources.find? (fun row => row.id = id ∧ row.status = .unknown) with
    | none => exact absurd (decide_eq_true ⟨hid, hunknown⟩) (List.find?_eq_none.mp hfind row hmem)
    | some row' =>
      obtain ⟨hmem', hid', -⟩ := Records.find_unknown hfind
      have hrequest' : s.records.request row'.request = some ⟨p.requestId, p.key, p.salt⟩ := by
        rw [h.request row' hmem' hid']
        exact hrequest
      obtain ⟨event, hevent, hcreate⟩ :=
        Records.createStreamReceiver_eq hstream (htype rfl) hfind hrequest' rfl rfl
      rw [h.vacant (.inl rfl), hcreate]
      refine ⟨(s.records.updateResource id .incoming).post event,
        ⟨BufferReceiver.init pkt (contextAt p.key.data (p.ctr id) 0), ⟨p.requestId, p.key, p.salt⟩⟩,
        Records.marks_updateResource s.records id .incoming, ⟨rfl, rfl, ?_⟩, rfl, ?_, fun _ => rfl,
        fun hpos => absurd hpos (Nat.lt_irrefl 0), rfl⟩
      · intro messageId
        rw [Records.post_events, List.countP_append, List.countP_singleton, hevent]
        rfl
      · exact fun hstatus => by cases hstatus
  · obtain ⟨r, hfind, hreq, hstatus, hfollows⟩ := h.receiver (Nat.pos_of_ne_zero hzero) hk
    rw [hfind]
    refine ⟨s.records, r, Records.marks_self (fun row hrow hid => ?_), ⟨rfl, rfl, fun _ => rfl⟩, hreq,
      hstatus, fun h0 => absurd h0 hzero, fun _ => hfollows, rfl⟩
    rw [h.status row hrow hid, statusAt, if_neg hzero, if_neg (Nat.ne_of_lt hk)]

/-- The receiver of the next packet. -/
theorem Tracks.receiver_eq {s : Incoming} (h : Tracks p id content s k) (hk : k < content.parts id)
    (hrequest : s.records.request p.requestId = some ⟨p.requestId, p.key, p.salt⟩) :
    ∃ records r, Records.Marks id .incoming s.records records ∧ SameTables s.records records
      ∧ r.request = ⟨p.requestId, p.key, p.salt⟩ ∧ r.receiver.status ≠ .completed
      ∧ ResourceReceiver.Follows p.key.data (p.ctr id) (content.sender id) r.receiver k
      ∧ s.processIncomingPacket aes_encrypt (p.packet aes_encrypt id content k)
        = { s with records := records }.processReceiver aes_encrypt r
            (p.packet aes_encrypt id content k) := by
  have hstream : (p.packet aes_encrypt id content k).head.streamId = id := content.sender_id id
  obtain ⟨records, r, hmarks, hsame, hreq, hstatus, hnew, hold, hprocess⟩ :=
    @Tracks.receiver_any aes_encrypt p id content k s h hk hrequest _ hstream
      (fun _ => content.sender_type id)
  refine ⟨records, r, hmarks, hsame, hreq, hstatus, ?_, hprocess⟩
  by_cases hzero : k = 0
  · subst hzero
    rw [hnew rfl]
    exact ResourceReceiver.follows_init (content.sender_at id)
  · exact hold (Nat.pos_of_ne_zero hzero)

/-- Rows of other resources come in. -/
theorem Tracks.append {s s' : Incoming} (h : Tracks p id content s k) {rows : List ResourceRow}
    (hresources : s'.records.resources = s.records.resources ++ rows)
    (hreceivers : s'.streamReceivers = s.streamReceivers) (hrows : ∀ row ∈ rows, row.id ≠ id) :
    Tracks p id content s' k where
  le := h.le
  row := by
    obtain ⟨row, hrow, hid⟩ := h.row
    rw [hresources]
    exact ⟨row, List.mem_append_left _ hrow, hid⟩
  request := by
    rw [hresources]
    intro row hrow hid
    rcases List.mem_append.mp hrow with hold | hnew
    · exact h.request row hold hid
    · exact absurd hid (hrows row hnew)
  status := by
    rw [hresources]
    intro row hrow hid
    rcases List.mem_append.mp hrow with hold | hnew
    · exact h.status row hold hid
    · exact absurd hid (hrows row hnew)
  receiver := hreceivers ▸ h.receiver
  vacant := hreceivers ▸ h.vacant

/-- The rows of a new push. -/
theorem tracks_new {s : Incoming} {rows old : List ResourceRow}
    (hresources : s.records.resources = old ++ rows)
    (hids : ∀ id ∈ p.resources, ∃ row ∈ old ++ rows, row.id = id) (hid : id ∈ p.resources)
    (hvacant : ∀ row ∈ old, row.id ≠ id)
    (hrows : ∀ row ∈ rows, row.request = p.requestId ∧ row.status = .unknown)
    (hreceiver : OrdMap.find? s.streamReceivers id = none) : Tracks p id content s 0 where
  le := Nat.zero_le _
  row := by
    rw [hresources]
    exact hids id hid
  request := by
    rw [hresources]
    intro row hrow hid
    rcases List.mem_append.mp hrow with hold | hnew
    · exact absurd hid (hvacant row hold)
    · exact (hrows row hnew).1
  status := by
    rw [hresources]
    intro row hrow hid
    rcases List.mem_append.mp hrow with hold | hnew
    · exact absurd hid (hvacant row hold)
    · exact (hrows row hnew).2
  receiver := fun hpos => absurd hpos (Nat.lt_irrefl 0)
  vacant := fun _ => hreceiver

/-- **One packet.** -/
theorem Tracks.delivered {s : Incoming} (h : Tracks p id content s k) (hk : k < content.parts id)
    (hrequest : s.records.request p.requestId = some ⟨p.requestId, p.key, p.salt⟩) :
    Delivered p id content k s
      (s.processIncomingPacket aes_encrypt (p.packet aes_encrypt id content k)) := by
  obtain ⟨records, r, hmarks, hsame, hreq, hstatus, hfollows, hprocess⟩ :=
    @Tracks.receiver_eq aes_encrypt p id content k s h hk hrequest
  obtain ⟨receiver, hfollows', hstatus', heq⟩ := @Incoming.processReceiver_eq aes_encrypt _ _ _ _ _
    { s with records := records } r (content.sender_at id) hfollows hk hstatus
  have hparts : (content.sender id).parts.toNat = content.parts id := rfl
  rw [content.sender_sub, content.sender_id, hparts] at heq
  rw [hparts] at hstatus'
  rw [hprocess]
  unfold Push.packet
  rw [heq, hreq]
  obtain ⟨hmarks', hfinished, hother⟩ :=
    resourceReceived_spec records id receiver.buffer ⟨p.requestId, p.key, p.salt⟩
  have hothers : Records.Others records p.requestId id ↔ Records.Others s.records p.requestId id :=
    hmarks.others_iff p.requestId
  by_cases hlast : k + 1 = content.parts id
  · rw [if_pos hlast]
    exact
      { completed := ⟨fun _ => hlast, fun _ => rfl⟩
        marks := by
          rw [statusAt, if_neg (Nat.succ_ne_zero k), if_pos hlast]
          exact hmarks.trans hmarks'
        others := fun id' hid' =>
          (OrdMap.find?_erase_of_ne _ hid').trans (OrdMap.find?_insert_of_ne _ _ hid')
        receiver := fun hlt => absurd hlast (Nat.ne_of_lt hlt)
        vacant := fun _ => OrdMap.find?_erase_self _ _
        finished := fun _ h => hsame.trans_finished (hfinished (hothers.mpr h))
        same := fun h => hsame.trans (hother (fun ho =>
          h.elim (fun hne => hne hlast) (fun hn => hn (hothers.mp ho)))) }
  · rw [if_neg hlast]
    have hlt : k + 1 < content.parts id := Nat.lt_of_le_of_ne hk hlast
    exact
      { completed := ⟨fun h => (by cases h), fun h => absurd h hlast⟩
        marks := by
          rw [statusAt, if_neg (Nat.succ_ne_zero k), if_neg hlast]
          exact hmarks
        others := fun id' hid' => OrdMap.find?_insert_of_ne _ _ hid'
        receiver := fun _ => ⟨_, OrdMap.find?_insert_self _ _ _, rfl, (hstatus' hlt).symm ▸ hstatus, hfollows'⟩
        vacant := fun h => absurd h hlast
        finished := fun h => absurd h hlast
        same := fun _ => hsame }

/-- Either the packet finishes the message, or it leaves the other tables alone. -/
theorem Delivered.tables {s : Incoming} {r : Processed} (hd : Delivered p id content k s r) :
    (k + 1 = content.parts id ∧ Records.Others s.records p.requestId id
        ∧ Finished p.requestId s.records r.incoming.records)
      ∨ ((k + 1 ≠ content.parts id ∨ ¬ Records.Others s.records p.requestId id)
        ∧ SameTables s.records r.incoming.records) := by
  by_cases hlast : k + 1 = content.parts id
  · by_cases hothers : Records.Others s.records p.requestId id
    · exact .inl ⟨hlast, hothers, hd.finished hlast hothers⟩
    · exact .inr ⟨.inr hothers, hd.same (.inr hothers)⟩
  · exact .inr ⟨.inl hlast, hd.same (.inl hlast)⟩

/-- No request comes in with a packet. -/
theorem Delivered.requests_subset {s : Incoming} {r : Processed} (hd : Delivered p id content k s r) :
    ∀ row ∈ r.incoming.records.requests, row ∈ s.records.requests := by
  rcases hd.tables with ⟨-, -, hfinished⟩ | ⟨-, hsame⟩
  · rw [hfinished.requests]
    exact fun row hrow => (List.mem_filter.mp hrow).1
  · rw [hsame.requests]
    exact fun row hrow => hrow

theorem Delivered.exists_message {s : Incoming} {r : Processed} (hd : Delivered p id content k s r)
    {messageId : UInt32} : (∃ row ∈ r.incoming.records.messages, row.id = messageId)
      ↔ ∃ row ∈ s.records.messages, row.id = messageId := by
  rcases hd.tables with ⟨-, -, hfinished⟩ | ⟨-, hsame⟩
  · rw [hfinished.messages]
    exact Records.exists_updateMessage s.records p.requestId messageId .received
  · rw [hsame.messages]

theorem Delivered.unposted {s : Incoming} {r : Processed} (hd : Delivered p id content k s r)
    {messageId : UInt32} (hne : messageId ≠ p.requestId) :
    r.incoming.records.events.countP (·.isMessageReceived messageId)
      = s.records.events.countP (·.isMessageReceived messageId) := by
  rcases hd.tables with ⟨-, -, hfinished⟩ | ⟨-, hsame⟩
  · rw [hfinished.posted, if_neg (fun hc => hne hc.1), Nat.add_zero]
  · exact hsame.posted messageId

/-- The stream goes on. -/
theorem Delivered.tracks {s : Incoming} {r : Processed} (h : Tracks p id content s k)
    (hk : k < content.parts id) (hd : Delivered p id content k s r) :
    Tracks p id content r.incoming (k + 1) where
  le := hk
  row := hd.marks.exists_id h.row
  request := (hd.marks.forall_iff (fun id' request _ => id' = id → request = p.requestId)).mpr
    h.request
  status := by
    refine (hd.marks.forall_iff (fun id' _ status => id' = id → status = _)).mpr (fun row _ hid => ?_)
    rw [if_pos hid]
  receiver := fun _ => hd.receiver
  vacant := fun hor => hd.vacant (hor.resolve_left (Nat.succ_ne_zero k))

/-- Every other one stays where it is. -/
theorem Delivered.tracks_other {s : Incoming} {r : Processed} {q : Push} {id' : UInt32}
    {content' : Content} {k' : Nat} (h : Tracks q id' content' s k') (hne : id' ≠ id)
    (hd : Delivered p id content k s r) : Tracks q id' content' r.incoming k' where
  le := h.le
  row := hd.marks.exists_id h.row
  request := (hd.marks.forall_iff (fun id'' request _ => id'' = id' → request = q.requestId)).mpr
    h.request
  status := by
    refine (hd.marks.forall_iff (fun id'' _ status => id'' = id' → status = _)).mpr
      (fun row hrow hid => ?_)
    rw [if_neg (fun he => hne (hid.symm.trans he))]
    exact h.status row hrow hid
  receiver := by
    rw [hd.others id' hne]
    exact h.receiver
  vacant := by
    rw [hd.others id' hne]
    exact h.vacant

end

/-! ## The tables of a push -/

/-- What the tables say about the message of a push. -/
structure Tables (s : Records) (p : Push) (all : Prop) : Prop where
  message : ∃ row ∈ s.messages, row.id = p.requestId
  status : ∀ row ∈ s.messages, row.id = p.requestId → (row.status = .received ↔ all)
  requests : all → ∀ row ∈ s.requests, row.id ≠ p.requestId
  request : ¬ all → s.request p.requestId = some ⟨p.requestId, p.key, p.salt⟩
  posted : all → s.events.countP (·.isMessageReceived p.requestId) = 1
  pending : ¬ all → s.events.countP (·.isMessageReceived p.requestId) = 0

theorem Tables.congr {s s' : Records} {p : Push} {all all' : Prop} (h : Tables s p all)
    (hsame : SameTables s s') (hall : all ↔ all') : Tables s' p all' where
  message := by
    rw [hsame.messages]
    exact h.message
  status := by
    rw [hsame.messages]
    exact fun row hrow hid => (h.status row hrow hid).trans hall
  requests := by
    rw [hsame.requests]
    exact fun ha => h.requests (hall.mpr ha)
  request := fun hn => by
    unfold Records.request
    rw [hsame.requests]
    exact h.request (fun ha => hn (hall.mp ha))
  posted := fun ha => (hsame.posted _).trans (h.posted (hall.mpr ha))
  pending := fun hn => (hsame.posted _).trans (h.pending (fun ha => hn (hall.mp ha)))

/-- The tables of a new push. -/
theorem tables_new {s s' : Records} {p : Push} {all : Prop} {event : ClientEvent} (hn : ¬ all)
    (hrequests : s'.requests = s.requests ++ [⟨p.requestId, p.key, p.salt⟩])
    (hmessages : s'.messages = s.messages ++ [⟨p.requestId, .incoming⟩])
    (hevents : s'.events = s.events ++ [event])
    (hnewRequest : ∀ row ∈ s.requests, row.id ≠ p.requestId)
    (hnewMessage : ∀ row ∈ s.messages, row.id ≠ p.requestId)
    (hunposted : s.events.countP (·.isMessageReceived p.requestId) = 0)
    (hevent : event.isMessageReceived p.requestId = false) : Tables s' p all where
  message := by
    rw [hmessages]
    exact ⟨_, List.mem_append_right _ (List.mem_singleton.mpr rfl), rfl⟩
  status := by
    rw [hmessages]
    intro row hrow hid
    rcases List.mem_append.mp hrow with hold | hnew
    · exact absurd hid (hnewMessage row hold)
    · obtain rfl := List.mem_singleton.mp hnew
      exact ⟨fun hstatus => (by cases hstatus), fun ha => absurd ha hn⟩
  requests := fun ha => absurd ha hn
  request := fun _ => by
    have hnone : s.requests.find? (·.id = p.requestId) = none :=
      List.find?_eq_none.mpr (fun row hrow hid => hnewRequest row hrow (of_decide_eq_true hid))
    unfold Records.request
    rw [hrequests, List.find?_append, hnone, Option.none_or, List.find?_cons_of_pos (by simp)]
  posted := fun ha => absurd ha hn
  pending := fun _ => by
    rw [hevents, List.countP_append, List.countP_singleton, hevent, hunposted]
    rfl

/-- Another message is finished. -/
theorem Tables.other {s s' : Records} {p : Push} {all : Prop} {requestId : UInt32}
    (h : Tables s p all) (hne : p.requestId ≠ requestId) (hfinished : Finished requestId s s') :
    Tables s' p all where
  message := by
    rw [hfinished.messages]
    exact (Records.exists_updateMessage s requestId p.requestId .received).mpr h.message
  status := by
    rw [hfinished.messages]
    refine List.forall_mem_map.mpr (fun row hrow => ?_)
    by_cases hid : row.id = requestId
    · rw [if_pos hid]
      exact fun hid' => absurd (hid'.symm.trans hid) hne
    · rw [if_neg hid]
      exact h.status row hrow
  requests := by
    rw [hfinished.requests]
    exact fun ha row hrow => h.requests ha row (List.mem_filter.mp hrow).1
  request := fun hn => by
    have hfind := h.request hn
    unfold Records.request at hfind ⊢
    rw [hfinished.requests, List.find?_filter, ← hfind]
    refine congrArg (List.find? · s.requests) (funext (fun row => ?_))
    by_cases hid : row.id = p.requestId
    · simp [hid, hne]
    · simp [hid]
  posted := fun ha => by
    rw [hfinished.posted, if_neg (fun hc => hne hc.1)]
    exact h.posted ha
  pending := fun hn => by
    rw [hfinished.posted, if_neg (fun hc => hne hc.1)]
    exact h.pending hn

/-- The message itself is finished. -/
theorem Tables.finish {s s' : Records} {p : Push} {all all' : Prop} (h : Tables s p all)
    (hn : ¬ all) (ha' : all') (hfinished : Finished p.requestId s s') : Tables s' p all' where
  message := by
    rw [hfinished.messages]
    exact (Records.exists_updateMessage s p.requestId p.requestId .received).mpr h.message
  status := by
    rw [hfinished.messages]
    refine List.forall_mem_map.mpr (fun row hrow hid => ⟨fun _ => ha', fun _ => ?_⟩)
    by_cases hid' : row.id = p.requestId
    · rw [if_pos hid']
    · rw [if_neg hid'] at hid
      exact absurd hid hid'
  requests := by
    rw [hfinished.requests]
    exact fun _ row hrow => of_decide_eq_true (List.mem_filter.mp hrow).2
  request := fun hc => absurd ha' hc
  posted := fun _ => by
    rw [hfinished.posted, if_pos ⟨rfl, h.message⟩, h.pending hn]
  pending := fun hc => absurd ha' hc

/-- A push comes in. -/
theorem Tables.push {s s' : Records} {p : Push} {all : Prop} {request : RequestRow}
    {message : MessageRow} {event : ClientEvent} (h : Tables s p all) (hrequest : request.id ≠ p.requestId)
    (hmessage : message.id ≠ p.requestId) (hevent : event.isMessageReceived p.requestId = false)
    (hrequests : s'.requests = s.requests ++ [request])
    (hmessages : s'.messages = s.messages ++ [message]) (hevents : s'.events = s.events ++ [event]) :
    Tables s' p all where
  message := by
    obtain ⟨row, hrow, hid⟩ := h.message
    rw [hmessages]
    exact ⟨row, List.mem_append_left _ hrow, hid⟩
  status := by
    rw [hmessages]
    intro row hrow hid
    rcases List.mem_append.mp hrow with hold | hnew
    · exact h.status row hold hid
    · obtain rfl := List.mem_singleton.mp hnew
      exact absurd hid hmessage
  requests := by
    rw [hrequests]
    intro ha row hrow
    rcases List.mem_append.mp hrow with hold | hnew
    · exact h.requests ha row hold
    · obtain rfl := List.mem_singleton.mp hnew
      exact hrequest
  request := fun hn => by
    have hfind := h.request hn
    unfold Records.request at hfind ⊢
    rw [hrequests, List.find?_append, hfind]
    rfl
  posted := fun ha => by
    rw [hevents, List.countP_append, List.countP_singleton, hevent, h.posted ha]
    rfl
  pending := fun hn => by
    rw [hevents, List.countP_append, List.countP_singleton, hevent, h.pending hn]
    rfl

end Zway.Client
