import Zway.Client.Completion
import Zway.Client.Receiving

/-!
# When a message is received

As long as no push lists a resource that another one has listed, a message is received
when all its resources are: `received_of_fresh`. A resource that is listed again gets no
row of the new request, so the new message is counted without it: `not_received_shared`.
-/

namespace Zway.Client.Receiving

/-- All that a push lists has been received since. -/
def AllReceived (s : Receiving) (p : Push) : Prop := ∀ id ∈ p.resources, (p.requestId, id) ∈ s.received

instance (s : Receiving) (p : Push) : Decidable (s.AllReceived p) :=
  inferInstanceAs (Decidable (∀ id ∈ p.resources, (p.requestId, id) ∈ s.received))

variable (aes_encrypt : Bytes → Bytes → Bytes) (content : UInt32 → UInt32 → Content) in
/-- The message of a push is received when all its resources are. -/
structure Settled (s : Receiving) (p : Push) : Prop where
  status : (∃ row, s.incoming.records.message p.requestId = some row ∧ row.status = .received)
    ↔ s.AllReceived p
  posted : s.incoming.records.events.countP (·.isMessageReceived p.requestId)
    = if s.AllReceived p then 1 else 0
  request : s.incoming.records.request p.requestId = none ↔ s.AllReceived p
  /-- What has been transmitted in full has been received. -/
  transmitted : ∀ id ∈ p.resources, (p.requestId, id) ∈ s.received
    ↔ s.progress p.requestId id = (p.packets aes_encrypt id (content p.requestId id)).length

/-- No push lists what another one has listed. -/
def Fresh (s : Receiving) : ReceivingEvent → Prop
  | .push p => ∀ q ∈ s.pushes, ∀ id ∈ p.resources, id ∉ q.resources
  | .packet _ _ => True

/-! ## The invariant -/

/-- **The invariant of pushes that do not share resources.** -/
structure Inv (content : UInt32 → UInt32 → Content) (s : Receiving) : Prop where
  distinct : ∀ p ∈ s.pushes, ∀ q ∈ s.pushes, p.requestId = q.requestId → p = q
  owner : ∀ p ∈ s.pushes, ∀ q ∈ s.pushes, ∀ id, id ∈ p.resources → id ∈ q.resources → p = q
  nonempty : ∀ p ∈ s.pushes, p.resources ≠ []
  /-- The tables have rows of the pushes only, and so have the receivers. -/
  rows : ∀ row ∈ s.incoming.records.resources,
    ∃ p ∈ s.pushes, row.request = p.requestId ∧ row.id ∈ p.resources
  requests : ∀ row ∈ s.incoming.records.requests, ∃ p ∈ s.pushes, row.id = p.requestId
  messages : ∀ row ∈ s.incoming.records.messages, ∃ p ∈ s.pushes, row.id = p.requestId
  receivers : ∀ id, (∀ p ∈ s.pushes, id ∉ p.resources) →
    OrdMap.find? s.incoming.streamReceivers id = none
  unposted : ∀ requestId, (∀ p ∈ s.pushes, p.requestId ≠ requestId) →
    s.incoming.records.events.countP (·.isMessageReceived requestId) = 0
  unsent : ∀ requestId id, (∀ p ∈ s.pushes, p.requestId ≠ requestId) → s.progress requestId id = 0
  listed : ∀ pair ∈ s.received, ∃ p ∈ s.pushes, pair.1 = p.requestId
  /-- What has been transmitted has been received. -/
  received : ∀ p ∈ s.pushes, ∀ id ∈ p.resources, (p.requestId, id) ∈ s.received
    ↔ s.progress p.requestId id = (content p.requestId id).parts id
  tracks : ∀ p ∈ s.pushes, ∀ id ∈ p.resources,
    Tracks p id (content p.requestId id) s.incoming (s.progress p.requestId id)
  tables : ∀ p ∈ s.pushes, Tables s.incoming.records p (s.AllReceived p)

variable {content : UInt32 → UInt32 → Content}

theorem inv_init : Inv content init where
  distinct := fun _ h => by cases h
  owner := fun _ h => by cases h
  nonempty := fun _ h => by cases h
  rows := fun _ h => by cases h
  requests := fun _ h => by cases h
  messages := fun _ h => by cases h
  receivers := fun _ _ => rfl
  unposted := fun _ _ => rfl
  unsent := fun _ _ _ => rfl
  listed := fun _ h => by cases h
  received := fun _ h => by cases h
  tracks := fun _ h => by cases h
  tables := fun _ h => by cases h

/-- The status says whether a resource has been received. -/
theorem Inv.status_iff {s : Receiving} (h : Inv content s) {p : Push} (hp : p ∈ s.pushes)
    {row : ResourceRow} (hrow : row ∈ s.incoming.records.resources) (hid : row.id ∈ p.resources) :
    row.status = .received ↔ (p.requestId, row.id) ∈ s.received := by
  rw [h.received p hp row.id hid, (h.tracks p hp row.id hid).status row hrow rfl]
  have hpos := (content p.requestId row.id).parts_pos row.id
  unfold statusAt
  split
  · rename_i hzero
    exact ⟨fun hs => (by cases hs), fun hall => by omega⟩
  · split
    · rename_i hall
      exact ⟨fun _ => hall, fun _ => rfl⟩
    · rename_i hall
      exact ⟨fun hs => (by cases hs), fun hall' => absurd hall' hall⟩

/-- **What the callback counts.** -/
theorem Inv.others_iff {s : Receiving} (h : Inv content s) {p : Push} (hp : p ∈ s.pushes) (id : UInt32) :
    Records.Others s.incoming.records p.requestId id
      ↔ ∀ id' ∈ p.resources, id' = id ∨ (p.requestId, id') ∈ s.received := by
  constructor
  · intro hothers id' hid'
    obtain ⟨row, hrow, rfl⟩ := (h.tracks p hp id' hid').row
    have hrequest := (h.tracks p hp row.id hid').request row hrow rfl
    exact (hothers row hrow hrequest).imp_right (h.status_iff hp hrow hid').mp
  · intro hall row hrow hrequest
    obtain ⟨q, hq, hrequest', hid⟩ := h.rows row hrow
    obtain rfl := h.distinct q hq p hp (hrequest'.symm.trans hrequest)
    exact (hall row.id hid).imp_right (h.status_iff hp hrow hid).mpr

/-! ## A push -/

/-- A push that comes in, with rows of its own. -/
theorem inv_push {s : Receiving} (h : Inv content s) {p : Push}
    (hrequest : p.requestId ∉ s.pushes.map (·.requestId)) (hresources : p.resources ≠ [])
    (htext : p.text ≠ []) (hfresh : ∀ q ∈ s.pushes, ∀ id ∈ p.resources, id ∉ q.resources) :
    Inv content
      { s with
        incoming := { s.incoming with records := (s.incoming.records.processPush p).1 }
        pushes := s.pushes ++ [p] } := by
  have hnew : ∀ q ∈ s.pushes, q.requestId ≠ p.requestId :=
    fun q hq he => hrequest (List.mem_map.mpr ⟨q, hq, he⟩)
  have hrequests : ∀ row ∈ s.incoming.records.requests, row.id ≠ p.requestId := by
    intro row hrow he
    obtain ⟨q, hq, hid⟩ := h.requests row hrow
    exact hnew q hq (hid.symm.trans he)
  have hmessages : ∀ row ∈ s.incoming.records.messages, row.id ≠ p.requestId := by
    intro row hrow he
    obtain ⟨q, hq, hid⟩ := h.messages row hrow
    exact hnew q hq (hid.symm.trans he)
  obtain ⟨rows, heq, hrows, hids⟩ := Records.processPush_eq hresources htext hrequests hmessages
  rw [heq]
  -- what the new push lists has no row yet
  have hvacant : ∀ id ∈ p.resources, ∀ row ∈ s.incoming.records.resources, row.id ≠ id := by
    intro id hid row hrow he
    obtain ⟨q, hq, -, hlisted⟩ := h.rows row hrow
    exact hfresh q hq id hid (he ▸ hlisted)
  have hunlisted : ∀ pair ∈ s.received, pair.1 ≠ p.requestId := by
    intro pair hpair he
    obtain ⟨q, hq, hid⟩ := h.listed pair hpair
    exact hnew q hq (hid.symm.trans he)
  constructor
  · intro q hq q' hq' he
    rcases List.mem_append.mp hq with hold | hlast
    · rcases List.mem_append.mp hq' with hold' | hlast'
      · exact h.distinct q hold q' hold' he
      · obtain rfl := List.mem_singleton.mp hlast'
        exact absurd he (hnew q hold)
    · obtain rfl := List.mem_singleton.mp hlast
      rcases List.mem_append.mp hq' with hold' | hlast'
      · exact absurd he.symm (hnew q' hold')
      · exact (List.mem_singleton.mp hlast').symm
  · intro q hq q' hq' id hid hid'
    rcases List.mem_append.mp hq with hold | hlast
    · rcases List.mem_append.mp hq' with hold' | hlast'
      · exact h.owner q hold q' hold' id hid hid'
      · obtain rfl := List.mem_singleton.mp hlast'
        exact absurd hid (hfresh q hold id hid')
    · obtain rfl := List.mem_singleton.mp hlast
      rcases List.mem_append.mp hq' with hold' | hlast'
      · exact absurd hid' (hfresh q' hold' id hid)
      · exact (List.mem_singleton.mp hlast').symm
  · intro q hq
    rcases List.mem_append.mp hq with hq | hq
    · exact h.nonempty q hq
    · obtain rfl := List.mem_singleton.mp hq
      exact hresources
  · intro row hrow
    rcases List.mem_append.mp hrow with hrow | hrow
    · obtain ⟨q, hq, hrow'⟩ := h.rows row hrow
      exact ⟨q, List.mem_append_left _ hq, hrow'⟩
    · exact ⟨p, List.mem_append_right _ (List.mem_singleton.mpr rfl), (hrows row hrow).2.1,
        (hrows row hrow).1⟩
  · intro row hrow
    rcases List.mem_append.mp hrow with hrow | hrow
    · obtain ⟨q, hq, hid⟩ := h.requests row hrow
      exact ⟨q, List.mem_append_left _ hq, hid⟩
    · obtain rfl := List.mem_singleton.mp hrow
      exact ⟨p, List.mem_append_right _ (List.mem_singleton.mpr rfl), rfl⟩
  · intro row hrow
    rcases List.mem_append.mp hrow with hrow | hrow
    · obtain ⟨q, hq, hid⟩ := h.messages row hrow
      exact ⟨q, List.mem_append_left _ hq, hid⟩
    · obtain rfl := List.mem_singleton.mp hrow
      exact ⟨p, List.mem_append_right _ (List.mem_singleton.mpr rfl), rfl⟩
  · exact fun id hid => h.receivers id (fun q hq => hid q (List.mem_append_left _ hq))
  · intro requestId hother
    rw [List.countP_append, List.countP_singleton,
      h.unposted requestId (fun q hq => hother q (List.mem_append_left _ hq))]
    rfl
  · exact fun requestId id hother =>
      h.unsent requestId id (fun q hq => hother q (List.mem_append_left _ hq))
  · intro pair hpair
    obtain ⟨q, hq, hid⟩ := h.listed pair hpair
    exact ⟨q, List.mem_append_left _ hq, hid⟩
  · intro q hq id hid
    rcases List.mem_append.mp hq with hq | hq
    · exact h.received q hq id hid
    · obtain rfl := List.mem_singleton.mp hq
      have hpos := (content q.requestId id).parts_pos id
      dsimp only
      rw [h.unsent q.requestId id hnew]
      exact ⟨fun hpair => absurd rfl (hunlisted _ hpair), fun hall => absurd hall (Nat.ne_of_lt hpos)⟩
  · intro q hq id hid
    rcases List.mem_append.mp hq with hq | hq
    · exact (h.tracks q hq id hid).append rfl rfl (fun row hrow he =>
        hfresh q hq row.id (hrows row hrow).1 (he ▸ hid))
    · obtain rfl := List.mem_singleton.mp hq
      dsimp only
      rw [h.unsent q.requestId id hnew]
      exact tracks_new rfl hids hid (hvacant id hid) (fun row hrow => (hrows row hrow).2)
        (h.receivers id (fun q' hq' => hfresh q' hq' id hid))
  · intro q hq
    rcases List.mem_append.mp hq with hq | hq
    · exact (h.tables q hq).push (hnew q hq).symm (hnew q hq).symm rfl rfl rfl rfl
    · obtain rfl := List.mem_singleton.mp hq
      refine tables_new (fun hall => ?_) rfl rfl rfl hrequests hmessages (h.unposted q.requestId hnew) rfl
      obtain ⟨id, hid⟩ := List.exists_mem_of_ne_nil _ hresources
      exact hunlisted _ (hall id hid) rfl

/-! ## A packet -/

variable {aes_encrypt : Bytes → Bytes → Bytes}

/-- What has been received after a packet. -/
theorem Inv.mem_received_receive {s : Receiving} (h : Inv content s) {p : Push} (hp : p ∈ s.pushes)
    {id : UInt32} (hid : id ∈ p.resources) {pkt : Packet} (requestId id' : UInt32) :
    (requestId, id') ∈ (s.receive aes_encrypt p.requestId id pkt).received
      ↔ (requestId, id') ∈ s.received
        ∨ ((s.incoming.processIncomingPacket aes_encrypt pkt).completed = true
          ∧ requestId = p.requestId ∧ id' = id) := by
  unfold receive
  dsimp only
  by_cases hcompleted : (s.incoming.processIncomingPacket aes_encrypt pkt).completed = true
  · rw [if_pos hcompleted, List.mem_append, or_comm]
    refine or_congr_right ?_
    rw [List.mem_map]
    constructor
    · rintro ⟨q, hq, heq⟩
      obtain ⟨hmem, hlisted⟩ := List.mem_filter.mp hq
      obtain rfl := h.owner q hmem p hp id (of_decide_eq_true hlisted) hid
      injection heq with hrequestId hid'
      exact ⟨hcompleted, hrequestId.symm, hid'.symm⟩
    · rintro ⟨-, rfl, rfl⟩
      exact ⟨p, List.mem_filter.mpr ⟨hp, decide_eq_true hid⟩, rfl⟩
  · rw [if_neg hcompleted]
    exact ⟨.inl, fun hor => hor.resolve_right (fun hc => hcompleted hc.1)⟩

/-- The next packet of a resource. -/
theorem inv_packet {s : Receiving} (h : Inv content s) {p : Push} (hp : p ∈ s.pushes) {id : UInt32}
    (hid : id ∈ p.resources)
    (hk : s.progress p.requestId id < (content p.requestId id).parts id) :
    Inv content (s.receive aes_encrypt p.requestId id
      (p.packet aes_encrypt id (content p.requestId id) (s.progress p.requestId id))) := by
  have hmem := fun requestId id' => @Inv.mem_received_receive content aes_encrypt s h p hp id hid
    (p.packet aes_encrypt id (content p.requestId id) (s.progress p.requestId id)) requestId id'
  have hunreceived : (p.requestId, id) ∉ s.received :=
    fun hr => Nat.ne_of_lt hk ((h.received p hp id hid).mp hr)
  have hrequest := (h.tables p hp).request (fun hall => hunreceived (hall id hid))
  have hd := @Tracks.delivered aes_encrypt p id _ _ _ (h.tracks p hp id hid) hk hrequest
  have hprogress : ∀ requestId id',
      (s.receive aes_encrypt p.requestId id
        (p.packet aes_encrypt id (content p.requestId id) (s.progress p.requestId id))).progress
          requestId id'
        = if requestId = p.requestId ∧ id' = id then s.progress p.requestId id + 1
          else s.progress requestId id' := fun _ _ => rfl
  have hincoming : (s.receive aes_encrypt p.requestId id
        (p.packet aes_encrypt id (content p.requestId id) (s.progress p.requestId id))).incoming
      = (s.incoming.processIncomingPacket aes_encrypt
        (p.packet aes_encrypt id (content p.requestId id) (s.progress p.requestId id))).incoming := rfl
  have hpushes : (s.receive aes_encrypt p.requestId id
        (p.packet aes_encrypt id (content p.requestId id) (s.progress p.requestId id))).pushes
      = s.pushes := rfl
  generalize s.receive aes_encrypt p.requestId id
    (p.packet aes_encrypt id (content p.requestId id) (s.progress p.requestId id)) = s' at *
  generalize s.incoming.processIncomingPacket aes_encrypt
    (p.packet aes_encrypt id (content p.requestId id) (s.progress p.requestId id)) = r at *
  constructor
  · rw [hpushes]
    exact h.distinct
  · rw [hpushes]
    exact h.owner
  · rw [hpushes]
    exact h.nonempty
  · rw [hpushes, hincoming]
    exact (hd.marks.forall_iff (fun id' request _ =>
      ∃ q ∈ s.pushes, request = q.requestId ∧ id' ∈ q.resources)).mpr h.rows
  · rw [hpushes, hincoming]
    exact fun row hrow => h.requests row (hd.requests_subset row hrow)
  · rw [hpushes, hincoming]
    intro row hrow
    obtain ⟨row', hrow', hid'⟩ := hd.exists_message.mp ⟨row, hrow, rfl⟩
    obtain ⟨q, hq, hrequestId⟩ := h.messages row' hrow'
    exact ⟨q, hq, hid'.symm.trans hrequestId⟩
  · rw [hpushes, hincoming]
    intro id' hother
    rw [hd.others id' (fun he => hother p hp (he ▸ hid))]
    exact h.receivers id' hother
  · rw [hpushes, hincoming]
    intro requestId hother
    rw [hd.unposted (fun he => hother p hp he.symm)]
    exact h.unposted requestId hother
  · rw [hpushes]
    intro requestId id' hother
    rw [hprogress, if_neg (fun hc => hother p hp hc.1.symm)]
    exact h.unsent requestId id' hother
  · rw [hpushes]
    intro pair hpair
    rcases (hmem pair.1 pair.2).mp hpair with hold | ⟨-, hrequestId, -⟩
    · exact h.listed pair hold
    · exact ⟨p, hp, hrequestId⟩
  · rw [hpushes]
    intro q hq id' hid'
    rw [hmem, hprogress, hd.completed, h.received q hq id' hid']
    by_cases hsame : q.requestId = p.requestId ∧ id' = id
    · obtain ⟨hrequestId, rfl⟩ := hsame
      obtain rfl := h.distinct q hq p hp hrequestId
      rw [if_pos ⟨rfl, rfl⟩]
      exact ⟨fun hor => hor.elim (fun hall => absurd hall (Nat.ne_of_lt hk)) (fun hc => hc.1),
        fun hall => .inr ⟨hall, rfl, rfl⟩⟩
    · rw [if_neg hsame]
      exact ⟨fun hor => hor.elim (fun hall => hall) (fun hc => absurd hc.2 hsame), .inl⟩
  · rw [hpushes, hincoming]
    intro q hq id' hid'
    rw [hprogress]
    by_cases heq : id' = id
    · subst heq
      obtain rfl := h.owner q hq p hp id' hid' hid
      rw [if_pos ⟨rfl, rfl⟩]
      exact hd.tracks (h.tracks q hq id' hid') hk
    · rw [if_neg (fun hc => heq hc.2)]
      exact hd.tracks_other (h.tracks q hq id' hid') heq
  · rw [hpushes, hincoming]
    intro q hq
    by_cases hqp : q = p
    · subst hqp
      have hothers := h.others_iff hq id
      rcases hd.tables with ⟨hlast, hall, hfinished⟩ | ⟨hnot, hsame⟩
      · refine (h.tables q hq).finish (fun hc => hunreceived (hc id hid)) (fun id' hid' => ?_) hfinished
        rw [hmem]
        exact (hothers.mp hall id' hid').symm.imp_right
          (fun he => ⟨hd.completed.mpr hlast, rfl, he⟩)
      · refine (h.tables q hq).congr hsame ⟨fun hc => absurd (hc id hid) hunreceived, fun hc => ?_⟩
        -- the message has not all of its resources after the packet either
        rcases hnot with hnot | hnot
        · have hreceived := (hmem q.requestId id).mp (hc id hid)
          exact absurd (hreceived.resolve_left hunreceived).1 (fun hcompleted =>
            hnot (hd.completed.mp hcompleted))
        · refine absurd (hothers.mpr (fun id' hid' => ?_)) hnot
          exact ((hmem q.requestId id').mp (hc id' hid')).symm.imp_left (fun he => he.2.2)
    · have hne : q.requestId ≠ p.requestId := fun he => hqp (h.distinct q hq p hp he)
      have hall : s.AllReceived q ↔ s'.AllReceived q := by
        refine forall_congr' (fun id' => forall_congr' (fun _ => ?_))
        rw [hmem]
        exact ⟨.inl, fun hor => hor.resolve_right (fun hc => hne hc.2.1)⟩
      rcases hd.tables with ⟨-, -, hfinished⟩ | ⟨-, hsame⟩
      · exact ((h.tables q hq).other hne hfinished).congr ⟨rfl, rfl, fun _ => rfl⟩ hall
      · exact (h.tables q hq).congr hsame hall

/-! ## Runs -/

/-- **Every step keeps the invariant**, if no push lists what another one has listed. -/
theorem inv_step (s : Receiving) (e : ReceivingEvent) (s' : Receiving) (h : Inv content s)
    (hfresh : Fresh s e) (hstep : step aes_encrypt content s e = some s') : Inv content s' := by
  unfold step at hstep
  cases e with
  | push p =>
    dsimp only at hstep
    split at hstep
    · rename_i hpush
      obtain rfl := Option.some.inj hstep
      exact inv_push h hpush.1 hpush.2.1 hpush.2.2 hfresh
    · cases hstep
  | packet requestId id =>
    dsimp only at hstep
    split at hstep
    · rename_i p hfind
      have hp := List.mem_of_find?_eq_some hfind
      obtain rfl : p.requestId = requestId := by simpa using List.find?_some hfind
      split at hstep
      · rename_i hid
        obtain ⟨pkt, hpkt, rfl⟩ := Option.map_eq_some_iff.mp hstep
        rw [Push.packets_eq, List.getElem?_map] at hpkt
        obtain ⟨k, hk, rfl⟩ := Option.map_eq_some_iff.mp hpkt
        obtain ⟨hlt, hget⟩ := List.getElem?_eq_some_iff.mp hk
        rw [List.getElem_range', Nat.one_mul, Nat.zero_add] at hget
        rw [List.length_range'] at hlt
        subst hget
        exact inv_packet h hp hid hlt
      · cases hstep
    · cases hstep

/-- What the invariant says about a message. -/
theorem Inv.settled {s : Receiving} (h : Inv content s) {p : Push} (hp : p ∈ s.pushes) :
    Settled aes_encrypt content s p where
  status := by
    obtain ⟨row, hrow, hid⟩ := (h.tables p hp).message
    obtain ⟨row', hfind⟩ := Records.exists_message hrow hid
    obtain ⟨hrow', hid'⟩ := Records.message_mem hfind
    rw [← (h.tables p hp).status row' hrow' hid']
    constructor
    · rintro ⟨row'', hfind', hstatus⟩
      obtain rfl := Option.some.inj (hfind.symm.trans hfind')
      exact hstatus
    · exact fun hstatus => ⟨row', hfind, hstatus⟩
  posted := by
    split
    · rename_i hall
      exact (h.tables p hp).posted hall
    · rename_i hnot
      exact (h.tables p hp).pending hnot
  request := by
    constructor
    · intro hnone
      apply Classical.byContradiction
      intro hnot
      cases hnone.symm.trans ((h.tables p hp).request hnot)
    · intro hall
      exact List.find?_eq_none.mpr (fun row hrow hid =>
        (h.tables p hp).requests hall row hrow (of_decide_eq_true hid))
  transmitted := by
    intro id hid
    rw [h.received p hp id hid, Push.packets_eq, List.length_map, List.length_range']

/-- **A message is received when all its resources are**, as long as no push lists what another one
has listed. -/
theorem received_of_fresh {es : List ReceivingEvent} {s : Receiving}
    (hmeets : Steps.Meets (step aes_encrypt content) Fresh init es)
    (hrun : Steps.run (step aes_encrypt content) init es = some s) :
    ∀ p ∈ s.pushes, Settled aes_encrypt content s p :=
  fun _ hp => (Steps.run_invariant_of_meets inv_step inv_init hmeets hrun).settled hp

/-! ## Two pushes -/

/-- The next packet of a stream that is not at its end may come in. -/
theorem step_packet {s : Receiving} {p : Push} {id : UInt32}
    (hfind : s.pushes.find? (·.requestId = p.requestId) = some p) (hid : id ∈ p.resources)
    (hk : s.progress p.requestId id < (content p.requestId id).parts id) :
    step aes_encrypt content s (.packet p.requestId id)
      = some (s.receive aes_encrypt p.requestId id
          (p.packet aes_encrypt id (content p.requestId id) (s.progress p.requestId id))) := by
  have hget : ((List.range' 0 ((content p.requestId id).parts id)).map
      (p.packet aes_encrypt id (content p.requestId id)))[s.progress p.requestId id]?
      = some (p.packet aes_encrypt id (content p.requestId id) (s.progress p.requestId id)) := by
    rw [List.getElem?_map, List.getElem?_range' hk, Nat.one_mul, Nat.zero_add]
    rfl
  unfold step
  dsimp only
  rw [hfind]
  dsimp only
  rw [if_pos hid, Push.packets_eq, hget]
  rfl

/-- A push of one resource. -/
def firstPush : Push where
  requestId := 1
  key := .create 32
  salt := .create 16
  resources := [7]
  text := [0x61]
  key_size := MemoryBuffer.create_size 32
  salt_size := MemoryBuffer.create_size 16

/-- A push that lists the resource again, and another one. -/
def secondPush : Push where
  requestId := 2
  key := .create 32
  salt := .create 16
  resources := [7, 8]
  text := [0x61]
  key_size := MemoryBuffer.create_size 32
  salt_size := MemoryBuffer.create_size 16

def oneByte : Content := ⟨.ofData [1], by decide, by decide⟩

/-- The cipher does not matter. -/
def zeroCipher : Bytes → Bytes → Bytes := fun _ _ => List.replicate 16 0

theorem received_of_fresh_first :
    ∃ s, Steps.run (step zeroCipher (fun _ _ => oneByte)) init [.push firstPush, .packet 1 7] = some s
      ∧ s.pushes = [firstPush] ∧ Settled zeroCipher (fun _ _ => oneByte) s firstPush
      ∧ s.AllReceived firstPush := by
  obtain ⟨s₁, hpush, hpushes, hprogress⟩ :
      ∃ s₁, step zeroCipher (fun _ _ => oneByte) init (.push firstPush) = some s₁
        ∧ s₁.pushes = [firstPush] ∧ s₁.progress 1 7 = 0 := ⟨_, rfl, rfl, rfl⟩
  have hpacket := @step_packet (fun _ _ => oneByte) zeroCipher s₁ firstPush 7
    (by rw [hpushes]; rfl) (List.mem_singleton.mpr rfl) (by
      change s₁.progress 1 7 < _
      rw [hprogress]
      exact oneByte.parts_pos 7)
  generalize hs : s₁.receive zeroCipher firstPush.requestId 7 _ = s at hpacket
  have hrun : Steps.run (step zeroCipher (fun _ _ => oneByte)) init [.push firstPush, .packet 1 7]
      = some s :=
    Steps.run_cons_eq_some.mpr ⟨s₁, hpush, Steps.run_cons_eq_some.mpr ⟨s, hpacket, rfl⟩⟩
  have hmeets : Steps.Meets (step zeroCipher (fun _ _ => oneByte)) Fresh init
      [.push firstPush, .packet 1 7] :=
    .cons (show Fresh init (.push firstPush) from fun _ h => by cases h) hpush
      (.cons (show Fresh s₁ (.packet 1 7) from trivial) hpacket trivial)
  have hpushes' : s.pushes = [firstPush] := hs ▸ hpushes
  have hprogress' : s.progress 1 7 = 1 := by
    rw [← hs]
    change (if (1 : UInt32) = 1 ∧ (7 : UInt32) = 7 then s₁.progress 1 7 + 1 else s₁.progress 1 7) = 1
    rw [hprogress]
    rfl
  have hsettled := received_of_fresh hmeets hrun firstPush (hpushes' ▸ List.mem_singleton.mpr rfl)
  refine ⟨s, hrun, hpushes', hsettled, fun id hid => (hsettled.transmitted id hid).mpr ?_⟩
  obtain rfl := List.mem_singleton.mp hid
  rw [Push.packets_eq, List.length_map, List.length_range']
  exact hprogress'

/-- **Two pushes that share a resource.** The second message is received with the other resource
alone. -/
theorem not_received_shared :
    ∃ s, Steps.run (step zeroCipher (fun _ _ => oneByte)) init
        [.push firstPush, .push secondPush, .packet 2 8] = some s
      ∧ secondPush ∈ s.pushes ∧ ¬ s.AllReceived secondPush
      ∧ (∃ row, s.incoming.records.message 2 = some row ∧ row.status = .received)
      ∧ ¬ Settled zeroCipher (fun _ _ => oneByte) s secondPush := by
  obtain ⟨s₁, s₂, hfirst, hsecond, hpushes, hprogress, hreceivers, hreceived, hresources, hmessages,
      hrequests⟩ :
      ∃ s₁ s₂, step zeroCipher (fun _ _ => oneByte) init (.push firstPush) = some s₁
        ∧ step zeroCipher (fun _ _ => oneByte) s₁ (.push secondPush) = some s₂
        ∧ s₂.pushes = [firstPush, secondPush] ∧ s₂.progress 2 8 = 0
        ∧ s₂.incoming.streamReceivers = [] ∧ s₂.received = []
        ∧ s₂.incoming.records.resources = [⟨7, 1, .unknown, none⟩, ⟨8, 2, .unknown, none⟩]
        ∧ s₂.incoming.records.messages = [⟨1, .incoming⟩, ⟨2, .incoming⟩]
        ∧ s₂.incoming.records.requests
          = [⟨1, firstPush.key, firstPush.salt⟩, ⟨2, secondPush.key, secondPush.salt⟩] :=
    ⟨_, _, rfl, rfl, rfl, rfl, rfl, rfl, rfl, rfl, rfl⟩
  have hparts : oneByte.parts 8 = 1 := by decide
  have hpacket := @step_packet (fun _ _ => oneByte) zeroCipher s₂ secondPush 8
    (by rw [hpushes]; rfl) (List.mem_cons_of_mem _ (List.mem_singleton.mpr rfl)) (by
      change s₂.progress 2 8 < oneByte.parts 8
      rw [hprogress, hparts]
      exact Nat.one_pos)
  change step zeroCipher (fun _ _ => oneByte) s₂ (.packet 2 8)
    = some (s₂.receive zeroCipher 2 8 (secondPush.packet zeroCipher 8 oneByte (s₂.progress 2 8)))
    at hpacket
  rw [hprogress] at hpacket
  -- the only row of the second request is the other resource
  have htracks : Tracks secondPush 8 oneByte s₂.incoming 0 :=
    @tracks_new secondPush 8 oneByte s₂.incoming [⟨8, 2, .unknown, none⟩] [⟨7, 1, .unknown, none⟩]
      hresources (by simp [secondPush]) (by simp [secondPush]) (by simp) (by simp [secondPush])
      (by rw [hreceivers]; rfl)
  have hrequest : s₂.incoming.records.request 2 = some ⟨2, secondPush.key, secondPush.salt⟩ := by
    unfold Records.request
    rw [hrequests]
    rfl
  have hd := @Tracks.delivered zeroCipher secondPush 8 oneByte 0 s₂.incoming htracks
    (oneByte.parts_pos 8) hrequest
  have hothers : Records.Others s₂.incoming.records 2 8 := by
    unfold Records.Others
    rw [hresources]
    decide
  have hfinished := hd.finished hparts.symm hothers
  have hcompleted := hd.completed.mpr hparts.symm
  generalize hs : s₂.receive zeroCipher 2 8 (secondPush.packet zeroCipher 8 oneByte 0) = s at hpacket
  have hreceived' : s.received = [(2, 8)] := by
    rw [← hs]
    unfold receive
    dsimp only
    rw [if_pos hcompleted, hpushes, hreceived]
    rfl
  have hincoming : s.incoming
      = (s₂.incoming.processIncomingPacket zeroCipher (secondPush.packet zeroCipher 8 oneByte 0)).incoming := by
    rw [← hs]
    rfl
  have hnot : ¬ s.AllReceived secondPush := by
    intro hall
    have hmem := hall 7 (List.mem_cons_self ..)
    rw [hreceived'] at hmem
    exact absurd hmem (by decide)
  have hstatus : ∃ row, s.incoming.records.message 2 = some row ∧ row.status = .received := by
    refine ⟨⟨2, .received⟩, ?_, rfl⟩
    unfold Records.message
    rw [hincoming, hfinished.messages]
    unfold Records.updateMessage
    rw [hmessages]
    rfl
  refine ⟨s, ?_, ?_, hnot, hstatus, fun hsettled => hnot (hsettled.status.mp hstatus)⟩
  · exact Steps.run_cons_eq_some.mpr ⟨s₁, hfirst, Steps.run_cons_eq_some.mpr ⟨s₂, hsecond,
      Steps.run_cons_eq_some.mpr ⟨s, hpacket, rfl⟩⟩⟩
  · rw [← hs]
    change secondPush ∈ s₂.pushes
    rw [hpushes]
    exact List.mem_cons_of_mem _ (List.mem_singleton.mpr rfl)

end Zway.Client.Receiving
