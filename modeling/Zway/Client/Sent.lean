import Zway.Client.Sending

/-!
# When a message is sent

Receipts that come in only once the resources of a message have been counted leave it
sent, and delivered as soon as all of them have come in: `sent_of_inTime`. The callback of
`PushRequest::processResponse` counts the resources that are sent at that moment, so a
receipt that was processed before makes it miss one: `not_sent_early`. It also sets the
status of the message without a look at it: `not_delivered_overwritten`.
-/

namespace Zway.Client

/-- The callback of `PushRequest::processResponse` has counted. -/
def PushPhase.Counted : PushPhase → Prop
  | .counted .. | .finishing _ | .done => True
  | _ => False

/-- It has updated the message. -/
def PushPhase.Updated : PushPhase → Prop
  | .finishing _ | .done => True
  | _ => False

/-- The steps of the sender thread. -/
def SendingEvent.bySender : SendingEvent → Bool
  | .updateOutgoing | .resourceOutgoing | .sent | .updateSent | .resourceSent => true
  | .countAll | .countSent | .updateMessage | .finish => true
  | _ => false

/-- The receipts that have come in. -/
def ReceiptPhase.received (arrived : List UInt32) : ReceiptPhase → List UInt32
  | .idle => arrived
  | .updated id | .queried id _ | .countedAll id _ _ | .counted id _ _ _ | .finishing id _ _ =>
      id :: arrived

/-- Those after which the message has been updated. -/
def ReceiptPhase.handled (arrived : List UInt32) : ReceiptPhase → List UInt32
  | .finishing id _ _ => id :: arrived
  | _ => arrived

namespace Sending

/-- A message whose identifier, and those of its resources, are new. -/
structure Fresh (records : Records) (messageId : UInt32) (ids : List UInt32) : Prop where
  nonempty : ids ≠ []
  message : ∃ row ∈ records.messages, row.id = messageId
  request : ∀ row ∈ records.resources, row.request ≠ messageId
  resource : ∀ row ∈ records.resources, row.id ∉ ids

/-- The message is sent, once. -/
structure Settled (records : Records) (messageId : UInt32) (ids : List UInt32) (s : Sending) : Prop where
  posted : s.records.events.countP (·.isMessageSent messageId)
    = records.events.countP (·.isMessageSent messageId) + 1
  status : ∃ row, s.records.message messageId = some row
    ∧ (row.status = .sent ∨ row.status = .delivered)
  delivered : s.receipt = .idle →
    ((∃ row, s.records.message messageId = some row ∧ row.status = .delivered)
      ↔ ∀ id ∈ ids, id ∈ s.arrived)

/-- A receipt comes in once the resources are counted, and the last one makes the message
delivered once it is sent. -/
def InTime (messageId : UInt32) (s : Sending) : SendingEvent → Prop
  | .receipt _ => s.push.Counted
  | .updateDelivered =>
      (∀ row ∈ s.records.resources, row.request = messageId → row.status = .delivered) →
        s.push.Updated
  | _ => True

/-! ## The rows of the message -/

variable {messageId : UInt32} {ids : List UInt32}

/-- The resources of the message are those that it lists. -/
structure Rows (messageId : UInt32) (ids : List UInt32) (records : Records) : Prop where
  request_iff : ∀ row ∈ records.resources, row.request = messageId ↔ row.id ∈ ids
  resource : ∀ id ∈ ids, ∃ row ∈ records.resources, row.id = id
  message : ∃ row ∈ records.messages, row.id = messageId

theorem Fresh.rows {records : Records} (h : Fresh records messageId ids) :
    Rows messageId ids (insertResources records messageId ids) where
  request_iff := by
    intro row hrow
    rcases List.mem_append.mp hrow with hold | hnew
    · exact ⟨fun hrequest => absurd hrequest (h.request row hold),
        fun hid => absurd hid (h.resource row hold)⟩
    · obtain ⟨id, hid, rfl⟩ := List.mem_map.mp hnew
      exact ⟨fun _ => hid, fun _ => rfl⟩
  resource := fun id hid =>
    ⟨_, List.mem_append_right _ (List.mem_map.mpr ⟨id, hid, rfl⟩), rfl⟩
  message := h.message

theorem Rows.updateResource {records : Records} (h : Rows messageId ids records) (id : UInt32)
    (status : ResourceStatus) : Rows messageId ids (records.updateResource id status) where
  request_iff := Records.forall_mem_updateResource.mpr (fun row hrow => by
    rw [Records.id_updated, Records.request_updated]
    exact h.request_iff row hrow)
  resource := by
    intro id' hid'
    obtain ⟨row, hrow, hid⟩ := h.resource id' hid'
    exact ⟨_, Records.mem_updateResource.mpr ⟨row, hrow, rfl⟩,
      (Records.id_updated row id status).trans hid⟩
  message := h.message

theorem Rows.updateMessage {records : Records} (h : Rows messageId ids records) (id : UInt32)
    (status : MessageStatus) : Rows messageId ids (records.updateMessage id status) where
  request_iff := h.request_iff
  resource := h.resource
  message := (Records.exists_updateMessage records id messageId status).mpr h.message

theorem Rows.post {records : Records} (h : Rows messageId ids records) (event : ClientEvent) :
    Rows messageId ids (records.post event) :=
  ⟨h.request_iff, h.resource, h.message⟩

/-- The resource of a receipt belongs to the message. -/
theorem Rows.messageOf_eq {records : Records} (h : Rows messageId ids records) {id : UInt32}
    (hid : id ∈ ids) : messageOf (records.resource id) = messageId := by
  obtain ⟨row, hrow, hrowId⟩ := h.resource id hid
  obtain ⟨row', hfind⟩ := Records.exists_resource hrow hrowId
  obtain ⟨hmem, rfl⟩ := Records.resource_mem hfind
  rw [hfind]
  exact (h.request_iff row' hmem).mpr hid

/-- The resources with these identifiers are sent. -/
def AllSent (records : Records) (p : UInt32 → Prop) : Prop :=
  ∀ row ∈ records.resources, p row.id → row.status = .sent

theorem AllSent.updateOutgoing {records : Records} {p : UInt32 → Prop} (h : AllSent records p)
    (id : UInt32) :
    AllSent (records.updateResource id .outgoing) (fun id' => p id' ∧ id' ≠ id) := by
  refine Records.forall_mem_updateResource.mpr (fun row hrow hp => ?_)
  rw [Records.id_updated] at hp
  rw [if_neg hp.2]
  exact h row hrow hp.1

theorem AllSent.updateSent {records : Records} {p : UInt32 → Prop} {id : UInt32}
    (h : AllSent records (fun id' => p id' ∧ id' ≠ id)) :
    AllSent (records.updateResource id .sent) (fun id' => p id' ∨ id' = id) := by
  refine Records.forall_mem_updateResource.mpr (fun row hrow hp => ?_)
  rw [Records.id_updated] at hp
  by_cases hid : row.id = id
  · rw [if_pos hid]
  · rw [if_neg hid]
    exact h row hrow ⟨hp.resolve_right hid, hid⟩

/-! ## Before the resources are counted -/

/-- How far the sender thread has come. -/
def Pushed (messageId : UInt32) (ids : List UInt32) (records : Records) : PushPhase → Prop
  | .pushing index => index < ids.length ∧ AllSent records (· ∈ ids.take index)
  | .outgoing index | .sending index | .completed index =>
      ∃ id, ids[index]? = some id
        ∧ AllSent records (fun id' => id' ∈ ids.take index ∧ id' ≠ id)
  | .updated index => index < ids.length ∧ AllSent records (· ∈ ids.take (index + 1))
  | .counting => AllSent records (· ∈ ids)
  | .countedAll numResources =>
      numResources = records.numResources messageId ∧ AllSent records (· ∈ ids)
  | _ => False

/-- No receipt has come in. -/
structure Early (posted : Nat) (messageId : UInt32) (ids : List UInt32) (s : Sending) : Prop where
  push : Pushed messageId ids s.records s.push
  receipt : s.receipt = .idle
  arrived : s.arrived = []
  posted : s.records.events.countP (·.isMessageSent messageId) = posted

/-! ## Afterwards -/

/-- What the thread of the client has found out about a receipt. -/
def Receipt (messageId : UInt32) (ids : List UInt32) (records : Records) : ReceiptPhase → Prop
  | .idle => True
  | .updated id => id ∈ ids
  | .queried id resource | .finishing id resource _ => id ∈ ids ∧ messageOf resource = messageId
  | .countedAll id resource numResources =>
      (id ∈ ids ∧ messageOf resource = messageId)
        ∧ numResources = records.numResources messageId
  | .counted id resource numResources numCompleted =>
      (id ∈ ids ∧ messageOf resource = messageId)
        ∧ (numCompleted = numResources
          ↔ ∀ row ∈ records.resources, row.request = messageId → row.status = .delivered)

/-- The status of the message, once it has been updated. -/
def Status (messageId : UInt32) (records : Records) (delivered : Prop) : Prop :=
  ∀ row ∈ records.messages, row.id = messageId →
    (row.status = .sent ∧ ¬ delivered) ∨ (row.status = .delivered ∧ delivered)

/-- Where the callback is, and what has come of the message. -/
def Decided (messageId : UInt32) (records : Records) (delivered : Prop) : PushPhase → Prop
  | .counted numResources numCompleted => numCompleted = numResources ∧ ¬ delivered
  | .finishing sent => sent = true ∧ Status messageId records delivered
  | .done => Status messageId records delivered
  | _ => False

structure Late (posted : Nat) (messageId : UInt32) (ids : List UInt32) (s : Sending) : Prop where
  push : Decided messageId s.records (∀ id ∈ ids, id ∈ s.receipt.handled s.arrived) s.push
  receipt : Receipt messageId ids s.records s.receipt
  marked : ∀ row ∈ s.records.resources, row.request = messageId →
    (row.status = .delivered ↔ row.id ∈ s.receipt.received s.arrived)
  posted : s.records.events.countP (·.isMessageSent messageId)
    = posted + if s.push = .done then 1 else 0

/-- **The invariant of a message that is being sent.** -/
structure Inv (posted : Nat) (messageId : UInt32) (ids : List UInt32) (s : Sending) : Prop where
  rows : Rows messageId ids s.records
  sent : ∀ id ∈ s.sent, id ∈ ids
  phase : Early posted messageId ids s ∨ Late posted messageId ids s

theorem inv_init {records : Records} (h : Fresh records messageId ids) :
    Inv (records.events.countP (·.isMessageSent messageId)) messageId ids
      (init records messageId ids) where
  rows := h.rows
  sent := fun id hid => by cases hid
  phase := .inl
    { push := ⟨List.length_pos_iff.mpr h.nonempty, fun row _ hid => by cases hid⟩
      receipt := rfl
      arrived := rfl
      posted := rfl }

/-- The phases that have a resource at hand. -/
theorem mem_take_add_one {index : Nat} {id : UInt32} (h : ids[index]? = some id) (id' : UInt32) :
    id' ∈ ids.take (index + 1) ↔ id' ∈ ids.take index ∨ id' = id := by
  rw [List.take_add_one, h, List.mem_append]
  simp

/-! ## The sender thread -/

/-- A step that has nothing to do with the receipts. -/
theorem Early.next {posted : Nat} {s s' : Sending} (h : Early posted messageId ids s)
    (hpush : Pushed messageId ids s'.records s'.push) (hreceipt : s'.receipt = s.receipt)
    (harrived : s'.arrived = s.arrived)
    (hposted : s'.records.events.countP (·.isMessageSent messageId)
      = s.records.events.countP (·.isMessageSent messageId)) : Early posted messageId ids s' where
  push := hpush
  receipt := hreceipt.trans h.receipt
  arrived := harrived.trans h.arrived
  posted := hposted.trans h.posted

/-- Other events do not count. -/
theorem countP_post {records : Records} {event : ClientEvent}
    (h : event.isMessageSent messageId = false) :
    (records.post event).events.countP (·.isMessageSent messageId)
      = records.events.countP (·.isMessageSent messageId) := by
  rw [Records.post_events, List.countP_append, List.countP_singleton, h]
  rfl

/-- **The count of the sent resources is the count of all of them.** -/
theorem Late.of_counted {posted : Nat} {s : Sending} (hrows : Rows messageId ids s.records)
    (hids : ids ≠ []) (h : Early posted messageId ids s) {numResources : Nat}
    (hphase : s.push = .countedAll numResources) :
    Late posted messageId ids
      { s with push := .counted numResources (s.records.numWith messageId .sent) } := by
  obtain ⟨hnum, hsent⟩ : Pushed messageId ids s.records (.countedAll numResources) := hphase ▸ h.push
  have hall : s.records.numWith messageId .sent = s.records.numResources messageId :=
    (Records.numWith_eq_iff _ _ _).mpr (fun row hrow hrequest =>
      hsent row hrow ((hrows.request_iff row hrow).mp hrequest))
  constructor
  · refine ⟨hall.trans hnum.symm, fun hdelivered => ?_⟩
    obtain ⟨id, hid⟩ := List.exists_mem_of_ne_nil ids hids
    have hmem := hdelivered id hid
    dsimp only at hmem
    rw [h.receipt, h.arrived] at hmem
    cases hmem
  · dsimp only
    rw [h.receipt]
    trivial
  · intro row hrow hrequest
    dsimp only
    rw [h.receipt, h.arrived, hsent row hrow ((hrows.request_iff row hrow).mp hrequest)]
    exact ⟨fun hstatus => (by cases hstatus), fun hmem => (by cases hmem)⟩
  · exact h.posted

/-- In the early phases the resources are pushed, one after the other. -/
theorem Inv.early {posted : Nat} {s : Sending} (h : Inv posted messageId ids s)
    (hphase : ∀ delivered, ¬ Decided messageId s.records delivered s.push) :
    Early posted messageId ids s :=
  h.phase.resolve_right (fun hlate => hphase _ hlate.push)

theorem Inv.late {posted : Nat} {s : Sending} (h : Inv posted messageId ids s)
    (hphase : ¬ Pushed messageId ids s.records s.push) : Late posted messageId ids s :=
  h.phase.resolve_left (fun hearly => hphase hearly.push)

/-- Before the resources are counted no receipt is looked at. -/
theorem Inv.late_of_receipt {posted : Nat} {s : Sending} (h : Inv posted messageId ids s)
    (hreceipt : s.receipt ≠ .idle) : Late posted messageId ids s :=
  h.phase.resolve_left (fun hearly => hreceipt hearly.receipt)

theorem Pushed.not_counted {records : Records} {push : PushPhase}
    (h : Pushed messageId ids records push) : ¬ push.Counted := by
  intro hcounted
  cases push with
  | counted _ _ => exact h
  | finishing _ => exact h
  | done => exact h
  | _ => exact hcounted

theorem inv_updateOutgoing {posted : Nat} {s s' : Sending} (h : Inv posted messageId ids s)
    (hstep : step messageId ids s .updateOutgoing = some s') : Inv posted messageId ids s' := by
  unfold step at hstep
  dsimp only at hstep
  split at hstep
  · rename_i index hpush
    split at hstep
    · rename_i id hid
      obtain rfl := Option.some.inj hstep
      have hearly := h.early (fun _ hdecided => by rw [hpush] at hdecided; exact hdecided)
      obtain ⟨-, hsent⟩ : Pushed messageId ids s.records (.pushing index) := hpush ▸ hearly.push
      refine ⟨h.rows.updateResource id .outgoing, h.sent, .inl (hearly.next ?_ rfl rfl rfl)⟩
      exact ⟨id, hid, hsent.updateOutgoing id⟩
    · cases hstep
  · cases hstep

theorem inv_resourceOutgoing {posted : Nat} {s s' : Sending} (h : Inv posted messageId ids s)
    (hstep : step messageId ids s .resourceOutgoing = some s') : Inv posted messageId ids s' := by
  unfold step at hstep
  dsimp only at hstep
  split at hstep
  · rename_i index hpush
    split at hstep
    · obtain rfl := Option.some.inj hstep
      have hearly := h.early (fun _ hdecided => by rw [hpush] at hdecided; exact hdecided)
      have hpushed : Pushed messageId ids s.records (.outgoing index) := hpush ▸ hearly.push
      exact ⟨h.rows.post _, h.sent, .inl (hearly.next hpushed rfl rfl (countP_post rfl))⟩
    · cases hstep
  · cases hstep

theorem inv_sent {posted : Nat} {s s' : Sending} (h : Inv posted messageId ids s)
    (hstep : step messageId ids s .sent = some s') : Inv posted messageId ids s' := by
  unfold step at hstep
  dsimp only at hstep
  split at hstep
  · rename_i index hpush
    split at hstep
    · rename_i id hid
      obtain rfl := Option.some.inj hstep
      have hearly := h.early (fun _ hdecided => by rw [hpush] at hdecided; exact hdecided)
      have hpushed : Pushed messageId ids s.records (.sending index) := hpush ▸ hearly.push
      refine ⟨h.rows, ?_, .inl (hearly.next hpushed rfl rfl rfl)⟩
      intro id' hid'
      rcases List.mem_cons.mp hid' with rfl | hold
      · exact List.mem_of_getElem? hid
      · exact h.sent id' hold
    · cases hstep
  · cases hstep

theorem inv_updateSent {posted : Nat} {s s' : Sending} (h : Inv posted messageId ids s)
    (hstep : step messageId ids s .updateSent = some s') : Inv posted messageId ids s' := by
  unfold step at hstep
  dsimp only at hstep
  split at hstep
  · rename_i index hpush
    split at hstep
    · rename_i id hid
      obtain rfl := Option.some.inj hstep
      have hearly := h.early (fun _ hdecided => by rw [hpush] at hdecided; exact hdecided)
      obtain ⟨id', hid', hsent⟩ : Pushed messageId ids s.records (.completed index) :=
        hpush ▸ hearly.push
      obtain rfl : id' = id := Option.some.inj (hid'.symm.trans hid)
      refine ⟨h.rows.updateResource id' .sent, h.sent, .inl (hearly.next ?_ rfl rfl rfl)⟩
      refine ⟨(List.getElem?_eq_some_iff.mp hid).1, fun row hrow hmem => ?_⟩
      exact hsent.updateSent row hrow ((mem_take_add_one hid _).mp hmem)
    · cases hstep
  · cases hstep

theorem inv_resourceSent {posted : Nat} {s s' : Sending} (h : Inv posted messageId ids s)
    (hstep : step messageId ids s .resourceSent = some s') : Inv posted messageId ids s' := by
  unfold step at hstep
  dsimp only at hstep
  split at hstep
  · rename_i index hpush
    split at hstep
    · obtain rfl := Option.some.inj hstep
      have hearly := h.early (fun _ hdecided => by rw [hpush] at hdecided; exact hdecided)
      obtain ⟨-, hsent⟩ : Pushed messageId ids s.records (.updated index) := hpush ▸ hearly.push
      refine ⟨h.rows.post _, h.sent, .inl (hearly.next ?_ rfl rfl (countP_post rfl))⟩
      by_cases hlt : index + 1 < ids.length
      · simp only [if_pos hlt]
        exact ⟨hlt, hsent⟩
      · simp only [if_neg hlt]
        rw [List.take_of_length_le (Nat.le_of_not_lt hlt)] at hsent
        exact hsent
    · cases hstep
  · cases hstep

theorem inv_countAll {posted : Nat} {s s' : Sending} (h : Inv posted messageId ids s)
    (hstep : step messageId ids s .countAll = some s') : Inv posted messageId ids s' := by
  unfold step at hstep
  dsimp only at hstep
  split at hstep
  · rename_i hpush
    obtain rfl := Option.some.inj hstep
    have hearly := h.early (fun _ hdecided => by rw [hpush] at hdecided; exact hdecided)
    have hpushed : Pushed messageId ids s.records .counting := hpush ▸ hearly.push
    exact ⟨h.rows, h.sent, .inl (hearly.next ⟨rfl, hpushed⟩ rfl rfl rfl)⟩
  · cases hstep

theorem inv_countSent {posted : Nat} {s s' : Sending} (hids : ids ≠ [])
    (h : Inv posted messageId ids s)
    (hstep : step messageId ids s .countSent = some s') : Inv posted messageId ids s' := by
  unfold step at hstep
  dsimp only at hstep
  split at hstep
  · rename_i numResources hpush
    obtain rfl := Option.some.inj hstep
    have hearly := h.early (fun _ hdecided => by rw [hpush] at hdecided; exact hdecided)
    exact ⟨h.rows, h.sent, .inr (.of_counted h.rows hids hearly hpush)⟩
  · cases hstep

/-! ## What the phases look at -/

/-- The callback looks at the message only. -/
theorem Decided.congr {records records' : Records} {p q : Prop} {push : PushPhase}
    (h : Decided messageId records p push) (hmessages : records'.messages = records.messages)
    (hiff : p ↔ q) : Decided messageId records' q push := by
  have hstatus : Status messageId records p → Status messageId records' q := by
    intro hstatus row hrow hid
    rw [← hiff]
    exact hstatus row (hmessages ▸ hrow) hid
  cases push with
  | counted _ _ => exact ⟨h.1, fun hq => h.2 (hiff.mpr hq)⟩
  | finishing _ => exact ⟨h.1, hstatus h.2⟩
  | done => exact hstatus h
  | _ => exact h

/-- The thread of the client looks at the resources only. -/
theorem Receipt.congr {records records' : Records} {receipt : ReceiptPhase}
    (h : Receipt messageId ids records receipt) (hresources : records'.resources = records.resources) :
    Receipt messageId ids records' receipt := by
  have hnum : records'.numResources messageId = records.numResources messageId := by
    unfold Records.numResources
    rw [hresources]
  cases receipt with
  | countedAll _ _ _ => exact ⟨h.1, h.2.trans hnum.symm⟩
  | counted _ _ _ _ =>
    refine ⟨h.1, h.2.trans ?_⟩
    rw [hresources]
  | _ => exact h

theorem inv_updateMessage {posted : Nat} {s s' : Sending} (h : Inv posted messageId ids s)
    (hstep : step messageId ids s .updateMessage = some s') : Inv posted messageId ids s' := by
  unfold step at hstep
  dsimp only at hstep
  split at hstep
  · rename_i numResources numCompleted hpush
    have hlate := h.late (fun hpushed => by rw [hpush] at hpushed; exact hpushed)
    obtain ⟨hnum, hopen⟩ : Decided messageId s.records _ (.counted numResources numCompleted) :=
      hpush ▸ hlate.push
    rw [if_pos hnum] at hstep
    obtain rfl := Option.some.inj hstep
    refine ⟨h.rows.updateMessage _ _, h.sent, .inr ⟨⟨rfl, ?_⟩, ?_, hlate.marked, ?_⟩⟩
    · refine List.forall_mem_map.mpr (fun row _ hid => .inl ⟨?_, hopen⟩)
      by_cases hrow : row.id = messageId
      · rw [if_pos hrow]
      · rw [if_neg hrow] at hid
        exact absurd hid hrow
    · exact hlate.receipt.congr rfl
    · have hposted := hlate.posted
      rw [hpush] at hposted
      exact hposted
  · cases hstep

theorem inv_finish {posted : Nat} {s s' : Sending} (h : Inv posted messageId ids s)
    (hstep : step messageId ids s .finish = some s') : Inv posted messageId ids s' := by
  unfold step at hstep
  dsimp only at hstep
  split at hstep
  · rename_i sent hpush
    obtain rfl := Option.some.inj hstep
    have hlate := h.late (fun hpushed => by rw [hpush] at hpushed; exact hpushed)
    obtain ⟨rfl, hstatus⟩ : Decided messageId s.records _ (.finishing sent) := hpush ▸ hlate.push
    obtain ⟨row, hrow, hid⟩ := h.rows.message
    obtain ⟨row', hfind⟩ := Records.exists_message hrow hid
    refine ⟨h.rows.post _, h.sent, .inr ⟨hstatus, hlate.receipt.congr rfl, hlate.marked, ?_⟩⟩
    have hposted := hlate.posted
    rw [hpush] at hposted
    have hevent : (ClientEvent.messageSent (some row')).isMessageSent messageId = true :=
      decide_eq_true (Records.message_mem hfind).2
    simp only [hfind, if_true, Records.post_events, List.countP_append, List.countP_singleton,
      hevent, hposted]
    rfl
  · cases hstep

/-! ## The thread of the client -/

theorem inv_receipt {posted : Nat} {s s' : Sending} {id : UInt32} (h : Inv posted messageId ids s)
    (hcounted : s.push.Counted) (hstep : step messageId ids s (.receipt id) = some s') :
    Inv posted messageId ids s' := by
  unfold step at hstep
  dsimp only at hstep
  split at hstep
  · rename_i hidle
    obtain ⟨hidle, hsent⟩ := hidle
    obtain rfl := Option.some.inj hstep
    have hlate := h.late (fun hpushed => hpushed.not_counted hcounted)
    refine ⟨h.rows.updateResource id .delivered, h.sent, .inr ⟨?_, h.sent id hsent, ?_, hlate.posted⟩⟩
    · refine hlate.push.congr rfl ?_
      rw [hidle]
      rfl
    · refine Records.forall_mem_updateResource.mpr (fun row hrow hrequest => ?_)
      rw [Records.request_updated] at hrequest
      rw [Records.id_updated]
      have hmarked := hlate.marked row hrow hrequest
      rw [hidle] at hmarked
      by_cases hid : row.id = id
      · rw [if_pos hid]
        exact ⟨fun _ => List.mem_cons.mpr (.inl hid), fun _ => rfl⟩
      · rw [if_neg hid, hmarked]
        exact ⟨List.mem_cons_of_mem _, fun hmem => (List.mem_cons.mp hmem).resolve_left hid⟩
  · cases hstep

theorem inv_queryReceipt {posted : Nat} {s s' : Sending} (h : Inv posted messageId ids s)
    (hstep : step messageId ids s .queryReceipt = some s') : Inv posted messageId ids s' := by
  unfold step at hstep
  dsimp only at hstep
  split at hstep
  · rename_i id hreceipt
    obtain rfl := Option.some.inj hstep
    have hlate := h.late_of_receipt (fun hidle => by rw [hreceipt] at hidle; cases hidle)
    obtain ⟨hpush, hphase, hmarked, hposted⟩ := hlate
    rw [hreceipt] at hpush hphase hmarked
    exact ⟨h.rows, h.sent, .inr ⟨hpush, ⟨hphase, h.rows.messageOf_eq hphase⟩, hmarked, hposted⟩⟩
  · cases hstep

theorem inv_countAllReceipt {posted : Nat} {s s' : Sending} (h : Inv posted messageId ids s)
    (hstep : step messageId ids s .countAllReceipt = some s') : Inv posted messageId ids s' := by
  unfold step at hstep
  dsimp only at hstep
  split at hstep
  · rename_i id resource hreceipt
    obtain rfl := Option.some.inj hstep
    have hlate := h.late_of_receipt (fun hidle => by rw [hreceipt] at hidle; cases hidle)
    obtain ⟨hpush, hphase, hmarked, hposted⟩ := hlate
    rw [hreceipt] at hpush hphase hmarked
    refine ⟨h.rows, h.sent, .inr ⟨hpush, ⟨hphase, ?_⟩, hmarked, hposted⟩⟩
    rw [hphase.2]
  · cases hstep

theorem inv_countDelivered {posted : Nat} {s s' : Sending} (h : Inv posted messageId ids s)
    (hstep : step messageId ids s .countDelivered = some s') : Inv posted messageId ids s' := by
  unfold step at hstep
  dsimp only at hstep
  split at hstep
  · rename_i id resource numResources hreceipt
    obtain rfl := Option.some.inj hstep
    have hlate := h.late_of_receipt (fun hidle => by rw [hreceipt] at hidle; cases hidle)
    obtain ⟨hpush, hphase, hmarked, hposted⟩ := hlate
    rw [hreceipt] at hpush hphase hmarked
    obtain ⟨hphase, hnum⟩ := hphase
    refine ⟨h.rows, h.sent, .inr ⟨hpush, ⟨hphase, ?_⟩, hmarked, hposted⟩⟩
    rw [hphase.2, hnum]
    exact Records.numWith_eq_iff _ _ _
  · cases hstep

/-- All resources are delivered when all receipts have come in. -/
theorem Rows.all_delivered_iff {records : Records} {received : List UInt32}
    (h : Rows messageId ids records)
    (hmarked : ∀ row ∈ records.resources, row.request = messageId →
      (row.status = .delivered ↔ row.id ∈ received)) :
    (∀ row ∈ records.resources, row.request = messageId → row.status = .delivered)
      ↔ ∀ id ∈ ids, id ∈ received := by
  constructor
  · intro hall id hid
    obtain ⟨row, hrow, rfl⟩ := h.resource id hid
    have hrequest := (h.request_iff row hrow).mpr hid
    exact (hmarked row hrow hrequest).mp (hall row hrow hrequest)
  · intro hall row hrow hrequest
    exact (hmarked row hrow hrequest).mpr (hall row.id ((h.request_iff row hrow).mp hrequest))

theorem inv_updateDelivered {posted : Nat} {s s' : Sending} (h : Inv posted messageId ids s)
    (hintime : InTime messageId s .updateDelivered)
    (hstep : step messageId ids s .updateDelivered = some s') : Inv posted messageId ids s' := by
  unfold step at hstep
  dsimp only at hstep
  split at hstep
  · rename_i id resource numResources numCompleted hreceipt
    have hlate := h.late_of_receipt (fun hidle => by rw [hreceipt] at hidle; cases hidle)
    obtain ⟨hpush, hphase, hmarked, hposted⟩ := hlate
    rw [hreceipt] at hpush hphase hmarked
    obtain ⟨⟨hid, hmessage⟩, hnum⟩ := hphase
    have hreceived := h.rows.all_delivered_iff hmarked
    split at hstep
    · rename_i hequal
      obtain rfl := Option.some.inj hstep
      have hdelivered := hnum.mp hequal
      have hupdated := hintime hdelivered
      -- the last receipt makes the message delivered
      have hstatus : Status messageId (s.records.updateMessage (messageOf resource) .delivered)
          (∀ id' ∈ ids, id' ∈ id :: s.arrived) := by
        refine List.forall_mem_map.mpr (fun row _ hrow => .inr ⟨?_, hreceived.mp hdelivered⟩)
        by_cases hrowId : row.id = messageOf resource
        · rw [if_pos hrowId]
        · rw [if_neg hrowId] at hrow
          exact absurd (hrow.trans hmessage.symm) hrowId
      refine ⟨h.rows.updateMessage _ _, h.sent, .inr ⟨?_, ⟨hid, hmessage⟩, hmarked, hposted⟩⟩
      revert hupdated hpush
      dsimp only
      cases s.push with
      | finishing sent => exact fun hpush _ => ⟨hpush.1, hstatus⟩
      | done => exact fun _ _ => hstatus
      | _ => exact fun _ hupdated => hupdated.elim
    · rename_i hless
      obtain rfl := Option.some.inj hstep
      have hopen : ¬ ∀ id' ∈ ids, id' ∈ id :: s.arrived := fun hall => hless (hnum.mpr (hreceived.mpr hall))
      refine ⟨h.rows, h.sent, .inr ⟨hpush.congr rfl ?_, ⟨hid, hmessage⟩, hmarked, hposted⟩⟩
      exact ⟨fun hall => absurd (fun id' hid' => List.mem_cons_of_mem _ (hall id' hid')) hopen,
        fun hall => absurd hall hopen⟩
  · cases hstep

theorem inv_finishReceipt {posted : Nat} {s s' : Sending} (h : Inv posted messageId ids s)
    (hstep : step messageId ids s .finishReceipt = some s') : Inv posted messageId ids s' := by
  unfold step at hstep
  dsimp only at hstep
  split at hstep
  · rename_i id resource delivered hreceipt
    obtain rfl := Option.some.inj hstep
    have hlate := h.late_of_receipt (fun hidle => by rw [hreceipt] at hidle; cases hidle)
    obtain ⟨hpush, -, hmarked, hposted⟩ := hlate
    rw [hreceipt] at hpush hmarked
    cases delivered with
    | true =>
      refine ⟨(h.rows.post _).post _, h.sent, .inr ⟨hpush.congr rfl .rfl, trivial, hmarked, ?_⟩⟩
      exact (countP_post rfl).trans ((countP_post rfl).trans hposted)
    | false =>
      refine ⟨h.rows.post _, h.sent, .inr ⟨hpush.congr rfl .rfl, trivial, hmarked, ?_⟩⟩
      exact (countP_post rfl).trans hposted
  · cases hstep

/-- **Every step keeps the invariant**, if receipts come in in time. -/
theorem inv_step {posted : Nat} (hids : ids ≠ []) (s : Sending) (e : SendingEvent) (s' : Sending)
    (h : Inv posted messageId ids s) (hintime : InTime messageId s e)
    (hstep : step messageId ids s e = some s') : Inv posted messageId ids s' := by
  cases e with
  | updateOutgoing => exact inv_updateOutgoing h hstep
  | resourceOutgoing => exact inv_resourceOutgoing h hstep
  | sent => exact inv_sent h hstep
  | updateSent => exact inv_updateSent h hstep
  | resourceSent => exact inv_resourceSent h hstep
  | countAll => exact inv_countAll h hstep
  | countSent => exact inv_countSent hids h hstep
  | updateMessage => exact inv_updateMessage h hstep
  | finish => exact inv_finish h hstep
  | receipt id => exact inv_receipt h hintime hstep
  | queryReceipt => exact inv_queryReceipt h hstep
  | countAllReceipt => exact inv_countAllReceipt h hstep
  | countDelivered => exact inv_countDelivered h hstep
  | updateDelivered => exact inv_updateDelivered h hintime hstep
  | finishReceipt => exact inv_finishReceipt h hstep

/-- At the end the message is sent. -/
theorem Inv.settled {records : Records} {s : Sending}
    (h : Inv (records.events.countP (·.isMessageSent messageId)) messageId ids s)
    (hdone : s.push = .done) : Settled records messageId ids s := by
  have hlate := h.late (fun hpushed => by rw [hdone] at hpushed; exact hpushed)
  obtain ⟨hpush, -, -, hposted⟩ := hlate
  rw [hdone] at hpush hposted
  obtain ⟨row, hrow, hid⟩ := h.rows.message
  obtain ⟨row', hfind⟩ := Records.exists_message hrow hid
  obtain ⟨hmem, hid'⟩ := Records.message_mem hfind
  constructor
  · exact hposted
  · refine ⟨row', hfind, ?_⟩
    rcases hpush row' hmem hid' with hsent | hdelivered
    · exact .inl hsent.1
    · exact .inr hdelivered.1
  · intro hidle
    rw [hidle] at hpush
    constructor
    · rintro ⟨row'', hfind'', hstatus⟩
      obtain rfl := Option.some.inj (hfind.symm.trans hfind'')
      rcases hpush row' hmem hid' with hsent | hdelivered
      · rw [hsent.1] at hstatus
        cases hstatus
      · exact hdelivered.2
    · intro hall
      refine ⟨row', hfind, ?_⟩
      rcases hpush row' hmem hid' with hsent | hdelivered
      · exact absurd hall hsent.2
      · exact hdelivered.1

/-- Until then the sender thread has something to do. -/
theorem Inv.sender_goes_on {posted : Nat} {s : Sending} (h : Inv posted messageId ids s)
    (hdone : s.push ≠ .done) :
    ∃ e, e.bySender = true ∧ (step messageId ids s e).isSome := by
  have hearly := h.early
  unfold step
  cases hpush : s.push with
  | pushing index =>
    rw [hpush] at hearly
    have hpushed := (hearly (fun _ => id)).push
    rw [hpush] at hpushed
    exact ⟨.updateOutgoing, rfl, by simp [List.getElem?_eq_getElem hpushed.1]⟩
  | outgoing index =>
    rw [hpush] at hearly
    have hpushed := (hearly (fun _ => id)).push
    rw [hpush] at hpushed
    obtain ⟨id, hid, -⟩ := hpushed
    exact ⟨.resourceOutgoing, rfl, by simp [hid]⟩
  | sending index =>
    rw [hpush] at hearly
    have hpushed := (hearly (fun _ => id)).push
    rw [hpush] at hpushed
    obtain ⟨id, hid, -⟩ := hpushed
    exact ⟨.sent, rfl, by simp [hid]⟩
  | completed index =>
    rw [hpush] at hearly
    have hpushed := (hearly (fun _ => id)).push
    rw [hpush] at hpushed
    obtain ⟨id, hid, -⟩ := hpushed
    exact ⟨.updateSent, rfl, by simp [hid]⟩
  | updated index =>
    rw [hpush] at hearly
    have hpushed := (hearly (fun _ => id)).push
    rw [hpush] at hpushed
    exact ⟨.resourceSent, rfl, by simp [List.getElem?_eq_getElem hpushed.1]⟩
  | counting => exact ⟨.countAll, rfl, rfl⟩
  | countedAll numResources => exact ⟨.countSent, rfl, rfl⟩
  | counted numResources numCompleted =>
    refine ⟨.updateMessage, rfl, ?_⟩
    dsimp only
    split
    · rfl
    · rfl
  | finishing sent => exact ⟨.finish, rfl, rfl⟩
  | done => exact absurd hpush hdone

/-- **When receipts come in in time, a message is sent once, and delivered when all its receipts
have come in.** -/
theorem sent_of_inTime {records : Records} {es : List SendingEvent} {s : Sending}
    (hfresh : Fresh records messageId ids)
    (hmeets : Steps.Meets (step messageId ids) (InTime messageId) (init records messageId ids) es)
    (hrun : Steps.run (step messageId ids) (init records messageId ids) es = some s) :
    (s.push = .done → Settled records messageId ids s)
      ∧ (s.push ≠ .done → ∃ e, e.bySender = true ∧ (step messageId ids s e).isSome) := by
  have hinv := Steps.run_invariant_of_meets (inv_step hfresh.nonempty) (inv_init hfresh) hmeets hrun
  exact ⟨hinv.settled, hinv.sender_goes_on⟩

/-! ## One resource -/

/-- The records of a message, before it is pushed. -/
def oneMessage : Records := { Records.empty with messages := [⟨5, .outgoing⟩] }

theorem fresh_oneMessage : Fresh oneMessage 5 [7] where
  nonempty := List.cons_ne_nil _ _
  message := ⟨⟨5, .outgoing⟩, List.mem_singleton.mpr rfl, rfl⟩
  request := fun row hrow => by cases hrow
  resource := fun row hrow => by cases hrow

/-- What the sender thread does about one resource. -/
def oneSent : List SendingEvent := [.updateOutgoing, .resourceOutgoing, .sent, .updateSent, .resourceSent]

/-- What the thread of the client does about its receipt. -/
def oneReceipt : List SendingEvent :=
  [.receipt 7, .queryReceipt, .countAllReceipt, .countDelivered, .updateDelivered, .finishReceipt]

/-- The receipt comes in after the message is sent. -/
theorem sent_of_inTime_one :
    ∃ s, Steps.run (step 5 [7]) (init oneMessage 5 [7])
        (oneSent ++ [.countAll, .countSent, .updateMessage, .finish] ++ oneReceipt) = some s
      ∧ Settled oneMessage 5 [7] s ∧ s.arrived = [7] := by
  obtain ⟨s, hs⟩ : ∃ s, Steps.run (step 5 [7]) (init oneMessage 5 [7])
      (oneSent ++ [.countAll, .countSent, .updateMessage, .finish] ++ oneReceipt) = some s :=
    ⟨_, rfl⟩
  refine ⟨s, hs, (sent_of_inTime fresh_oneMessage ?_ hs).1 ?_, ?_⟩
  · exact .cons trivial rfl <| .cons trivial rfl <| .cons trivial rfl <| .cons trivial rfl <|
      .cons trivial rfl <| .cons trivial rfl <| .cons trivial rfl <| .cons trivial rfl <|
      .cons trivial rfl <| .cons trivial rfl <| .cons trivial rfl <| .cons trivial rfl <|
      .cons trivial rfl <| .cons (fun _ => trivial) rfl <| .cons trivial rfl trivial
  · obtain rfl := Option.some.inj hs
    rfl
  · obtain rfl := Option.some.inj hs
    rfl

/-- A receipt that is processed before the resources are counted: no resource is sent any more
when they are, and the message never is. -/
theorem not_sent_early :
    Fresh oneMessage 5 [7] ∧ ∃ s, Steps.run (step 5 [7]) (init oneMessage 5 [7])
        (oneSent ++ oneReceipt ++ [.countAll, .countSent, .updateMessage, .finish]) = some s
      ∧ s.push = .done ∧ ¬ Settled oneMessage 5 [7] s := by
  obtain ⟨s, hs⟩ : ∃ s, Steps.run (step 5 [7]) (init oneMessage 5 [7])
      (oneSent ++ oneReceipt ++ [.countAll, .countSent, .updateMessage, .finish]) = some s :=
    ⟨_, rfl⟩
  refine ⟨fresh_oneMessage, s, hs, ?_, fun hsettled => ?_⟩
  · obtain rfl := Option.some.inj hs
    rfl
  · have hposted := hsettled.posted
    obtain rfl := Option.some.inj hs
    cases hposted

/-- A receipt that is processed between the count and the update of the message: its status is
sent, though all receipts have come in. -/
theorem not_delivered_overwritten :
    Fresh oneMessage 5 [7] ∧ ∃ s, Steps.run (step 5 [7]) (init oneMessage 5 [7])
        (oneSent ++ [.countAll, .countSent] ++ oneReceipt ++ [.updateMessage, .finish]) = some s
      ∧ s.push = .done ∧ ¬ Settled oneMessage 5 [7] s := by
  obtain ⟨s, hs⟩ : ∃ s, Steps.run (step 5 [7]) (init oneMessage 5 [7])
      (oneSent ++ [.countAll, .countSent] ++ oneReceipt ++ [.updateMessage, .finish]) = some s :=
    ⟨_, rfl⟩
  refine ⟨fresh_oneMessage, s, hs, ?_, fun hsettled => ?_⟩
  · obtain rfl := Option.some.inj hs
    rfl
  · obtain rfl := Option.some.inj hs
    obtain ⟨row, hrow, hstatus⟩ := (hsettled.delivered rfl).mpr (fun _ hid => hid)
    obtain rfl := Option.some.inj hrow
    cases hstatus

end Sending

end Zway.Client
