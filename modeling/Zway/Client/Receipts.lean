import Zway.Client.Sending
import Zway.Store.Action

/-!
# Receipts

A client is told with a dispatch request that a resource has arrived. The message of the
resource is delivered when as many of its resources are as there are. The resource is looked
up by the id in the request, and what is not found counts as a resource of message zero: so
the two counts can be equal because there is nothing to count.
-/

namespace Zway.Client

open Ubj (Object)

/-- The number of a `Resource::Status`. -/
def ResourceStatus.code : ResourceStatus → UInt32
  | unknown => 0
  | incoming => 1
  | outgoing => 2
  | sent => 3
  | received => 4
  | delivered => 5
  | receipted => 6
  | error => 7

/-- What a dispatch request changes. -/
structure Dispatched where
  records : Records
  /-- What `postRequestSuccess` was called with. -/
  succeeded : List UInt32

/-- `toInt` of a field of a request, as it is assigned to a `uint32_t`. -/
def numberOf (request : Object) (key : String) : UInt32 :=
  UInt32.ofBitVec (Ubj.Store.field request (lit key)).toInt

namespace Dispatched

/-- `Client::processDispatchRequest`. The message is looked for with the `request` column of the
resource: without a resource that is null, which no row matches. -/
def processDispatchRequest (s : Dispatched) (request : Object) : Dispatched :=
  let requestId := numberOf request "requestId"
  let dispatchId := numberOf request "dispatchId"
  let dispatchType := numberOf request "dispatchType"
  let succeeded := s.succeeded ++ [requestId]
  if dispatchType = ResourceStatus.receipted.code then
    let records := s.records.updateResource dispatchId .delivered
    let resource := records.resource dispatchId
    let messageId := Sending.messageOf resource
    let numResources := records.numResources messageId
    let numCompleted := records.numWith messageId .delivered
    let records :=
      if numCompleted = numResources then records.updateMessage messageId .delivered else records
    let message := resource.bind fun row => records.message row.request
    let records := records.post (.resourceDelivered message resource)
    let records :=
      if numCompleted = numResources then records.post (.messageDelivered message) else records
    { records := records, succeeded := succeeded }
  else { s with succeeded := succeeded }

/-- Requests one after another. -/
def run (s : Dispatched) (requests : List Object) : Dispatched :=
  requests.foldl processDispatchRequest s

end Dispatched

/-! ## What an event says -/

/-- A `MessageDelivered` event says that its message is in the table, that it has resources, and
that all of them are delivered. -/
def ClientEvent.Sound (records : Records) : ClientEvent → Prop
  | .messageDelivered message => ∃ row, message = some row ∧ row ∈ records.messages ∧
      (∃ resource ∈ records.resources, resource.request = row.id) ∧
      ∀ resource ∈ records.resources, resource.request = row.id → resource.status = .delivered
  | _ => True

namespace Dispatched

/-- The events that a request posts. -/
def posted (s : Dispatched) (request : Object) : List ClientEvent :=
  (s.processDispatchRequest request).records.events.drop s.records.events.length

/-- What the events say is true when they are posted. -/
def Truthful (s : Dispatched) (request : Object) : Prop :=
  ∀ event ∈ s.posted request, event.Sound (s.processDispatchRequest request).records

/-- The receipt is about a resource whose message is there too, or another resource of that message
is not delivered yet. -/
def Known (records : Records) (dispatchId : UInt32) : Prop :=
  (∃ row, records.resource dispatchId = some row ∧
      ∃ message ∈ records.messages, message.id = row.request) ∨
    ∃ row ∈ records.resources, row.request = Sending.messageOf (records.resource dispatchId) ∧
      row.id ≠ dispatchId ∧ row.status ≠ .delivered

/-- A request that is a receipt has to be known. -/
def Admissible (s : Dispatched) (request : Object) : Prop :=
  numberOf request "dispatchType" = ResourceStatus.receipted.code →
    Known s.records (numberOf request "dispatchId")

/-- What holds of every request of a sequence when its turn comes. -/
def Always (P : Dispatched → Object → Prop) : Dispatched → List Object → Prop
  | _, [] => True
  | s, request :: requests => P s request ∧ Always P (s.processDispatchRequest request) requests

/-! ## One receipt -/

/-- A resource is found after the update as before. -/
theorem resource_updated (records : Records) (id id' : UInt32) (status : ResourceStatus) :
    (records.updateResource id status).resource id'
      = (records.resource id').map fun row =>
          if row.id = id then { row with status := status } else row := by
  unfold Records.resource Records.updateResource
  rw [List.find?_map]
  refine congrArg (Option.map _) ?_
  refine congrArg (fun p => List.find? p records.resources) (funext fun row => ?_)
  show decide ((if row.id = id then _ else row).id = id') = _
  rw [Records.id_updated]

theorem messageOf_updated (records : Records) (id id' : UInt32) (status : ResourceStatus) :
    Sending.messageOf ((records.updateResource id status).resource id')
      = Sending.messageOf (records.resource id') := by
  rw [resource_updated]
  unfold Sending.messageOf
  cases records.resource id' with
  | none => rfl
  | some row =>
    show (if row.id = id then _ else row).request = row.request
    rw [Records.request_updated]

/-- After the update all resources of a message are delivered if all others were. -/
theorem delivered_iff (records : Records) (id messageId : UInt32) :
    (∀ row ∈ (records.updateResource id .delivered).resources,
        row.request = messageId → row.status = .delivered)
      ↔ ¬ ∃ row ∈ records.resources, row.request = messageId ∧ row.id ≠ id ∧
          row.status ≠ .delivered := by
  rw [Records.forall_mem_updateResource]
  constructor
  · rintro h ⟨row, hrow, hrequest, hid, hstatus⟩
    have hdelivered := h row hrow
    rw [if_neg hid] at hdelivered
    exact hstatus (hdelivered hrequest)
  · intro h row hrow hrequest
    rw [Records.request_updated] at hrequest
    by_cases hid : row.id = id
    · rw [if_pos hid]
    · rw [if_neg hid]
      by_contra hstatus
      exact h ⟨row, hrow, hrequest, hid, hstatus⟩

/-- The records when a receipt has been counted. -/
def settled (records : Records) (dispatchId : UInt32) : Records :=
  let updated := records.updateResource dispatchId .delivered
  let messageId := Sending.messageOf (updated.resource dispatchId)
  if updated.numWith messageId .delivered = updated.numResources messageId then
    updated.updateMessage messageId .delivered
  else updated

theorem settled_resources (records : Records) (dispatchId : UInt32) :
    (settled records dispatchId).resources
      = (records.updateResource dispatchId .delivered).resources := by
  unfold settled
  dsimp only
  split
  · rfl
  · rfl

theorem settled_messages (records : Records) (dispatchId id : UInt32) :
    (∃ row ∈ (settled records dispatchId).messages, row.id = id)
      ↔ ∃ row ∈ records.messages, row.id = id := by
  unfold settled
  dsimp only
  split
  · exact Records.exists_updateMessage ..
  · exact Iff.rfl

theorem settled_resource (records : Records) (dispatchId id : UInt32) :
    (settled records dispatchId).resource id
      = (records.updateResource dispatchId .delivered).resource id := by
  unfold Records.resource
  rw [settled_resources]

/-- **What a receipt posts**: the message is reported if no resource of it is left. -/
theorem posted_receipt (s : Dispatched) {request : Object}
    (htype : numberOf request "dispatchType" = ResourceStatus.receipted.code)
    {dispatchId : UInt32} (hid : numberOf request "dispatchId" = dispatchId)
    {message : Option MessageRow}
    (hmessage : message = ((settled s.records dispatchId).resource dispatchId).bind fun row =>
      (settled s.records dispatchId).message row.request) :
    (s.processDispatchRequest request).records.resources = (settled s.records dispatchId).resources ∧
      (s.processDispatchRequest request).records.messages = (settled s.records dispatchId).messages ∧
      s.posted request =
        .resourceDelivered message ((settled s.records dispatchId).resource dispatchId) ::
          if ∃ row ∈ s.records.resources,
              row.request = Sending.messageOf (s.records.resource dispatchId) ∧
                row.id ≠ dispatchId ∧ row.status ≠ .delivered then []
          else [.messageDelivered message] := by
  have hcount := Records.numWith_eq_iff (s.records.updateResource dispatchId .delivered)
    (Sending.messageOf ((s.records.updateResource dispatchId .delivered).resource dispatchId))
    .delivered
  rw [messageOf_updated, delivered_iff] at hcount
  rw [settled_resource] at hmessage ⊢
  have hsettled : settled s.records dispatchId =
      if ((s.records.updateResource dispatchId .delivered).numWith
          (Sending.messageOf (s.records.resource dispatchId)) .delivered
        = (s.records.updateResource dispatchId .delivered).numResources
          (Sending.messageOf (s.records.resource dispatchId))) then
        (s.records.updateResource dispatchId .delivered).updateMessage
          (Sending.messageOf (s.records.resource dispatchId)) .delivered
      else s.records.updateResource dispatchId .delivered := by
    unfold settled
    dsimp only
    rw [messageOf_updated]
  unfold posted processDispatchRequest
  rw [if_pos htype, hid]
  dsimp only
  rw [messageOf_updated, ← hsettled, ← hmessage]
  by_cases hleft : ∃ row ∈ s.records.resources,
      row.request = Sending.messageOf (s.records.resource dispatchId) ∧
        row.id ≠ dispatchId ∧ row.status ≠ .delivered
  · have hne := fun h => hcount.mp h hleft
    rw [if_neg hne, if_pos hleft]
    rw [if_neg hne] at hsettled
    rw [hsettled]
    refine ⟨rfl, rfl, ?_⟩
    show (s.records.events ++ [_]).drop s.records.events.length = _
    rw [List.drop_left]
  · have heq := hcount.mpr hleft
    rw [if_pos heq, if_neg hleft]
    rw [if_pos heq] at hsettled
    rw [hsettled]
    refine ⟨rfl, rfl, ?_⟩
    show (s.records.events ++ [_] ++ [_]).drop s.records.events.length = _
    rw [List.append_assoc, List.drop_left]
    rfl

/-- A message that is found after a receipt was there before it, under the same id. -/
theorem settled_message {records : Records} {dispatchId id : UInt32} :
    (∃ row, (settled records dispatchId).message id = some row ∧
        row ∈ (settled records dispatchId).messages ∧ row.id = id)
      ↔ ∃ message ∈ records.messages, message.id = id := by
  rw [← settled_messages records dispatchId id]
  constructor
  · rintro ⟨row, -, hmem, hid⟩
    exact ⟨row, hmem, hid⟩
  · rintro ⟨row, hmem, hid⟩
    obtain ⟨row', hfound⟩ := Records.exists_message hmem hid
    obtain ⟨hmem', hid'⟩ := Records.message_mem hfound
    exact ⟨row', hfound, hmem', hid'⟩

/-- **The events of a request are true exactly if the receipt is about a message that is there, or
about one that has other resources to come.** -/
theorem truthful_iff (s : Dispatched) (request : Object) :
    s.Truthful request ↔ s.Admissible request := by
  by_cases htype : numberOf request "dispatchType" = ResourceStatus.receipted.code
  · have hposted := s.posted_receipt htype rfl rfl
    generalize hid : numberOf request "dispatchId" = dispatchId at hposted
    obtain ⟨hresources, hmessages, hposted⟩ := hposted
    have hadmissible : s.Admissible request ↔ Known s.records dispatchId :=
      ⟨fun h => hid ▸ h htype, fun h _ => hid ▸ h⟩
    rw [hadmissible]
    unfold Truthful Known
    rw [hposted, List.forall_mem_cons]
    by_cases hleft : ∃ row ∈ s.records.resources,
        row.request = Sending.messageOf (s.records.resource dispatchId) ∧
          row.id ≠ dispatchId ∧ row.status ≠ .delivered
    · -- the message is not reported
      rw [if_pos hleft]
      refine ⟨fun _ => Or.inr hleft, fun _ => ⟨trivial, ?_⟩⟩
      intro event hevent
      cases hevent
    · rw [if_neg hleft, List.forall_mem_singleton]
      have hdelivered := (delivered_iff s.records dispatchId
        (Sending.messageOf (s.records.resource dispatchId))).mpr hleft
      rw [settled_resource, resource_updated]
      cases hfound : s.records.resource dispatchId with
      | none =>
        -- the message of no resource
        constructor
        · rintro ⟨-, row, hrow, -⟩
          cases hrow
        · rintro (⟨row, hrow, -⟩ | hother)
          · cases hrow
          · rw [hfound] at hleft
            exact absurd hother hleft
      | some row =>
        rw [hfound] at hdelivered hleft
        obtain ⟨hmem, hrowId⟩ := Records.resource_mem hfound
        have hupdated : (if row.id = dispatchId then { row with status := .delivered } else row)
            = { row with status := .delivered } := if_pos hrowId
        rw [Option.map_some, hupdated]
        have hown : { row with status := .delivered }
            ∈ (s.records.updateResource dispatchId .delivered).resources :=
          Records.mem_updateResource.mpr ⟨row, hmem, hupdated⟩
        constructor
        · rintro ⟨-, message, hmessage, hmember, -, -⟩
          refine Or.inl ⟨row, rfl, ?_⟩
          have hmessage' : (settled s.records dispatchId).message row.request = some message :=
            hmessage
          rw [← settled_messages s.records dispatchId row.request]
          obtain ⟨hmember', hmessageId⟩ := Records.message_mem hmessage'
          exact ⟨message, hmember', hmessageId⟩
        · rintro (⟨row', hrow', hmessage⟩ | hother)
          · obtain rfl := Option.some.inj hrow'
            obtain ⟨message, hfoundMessage, hmember, hmessageId⟩ := settled_message.mpr hmessage
            refine ⟨trivial, message, hfoundMessage, ?_, ?_, ?_⟩
            · rw [hmessages]
              exact hmember
            · rw [hresources, settled_resources]
              exact ⟨_, hown, hmessageId.symm⟩
            · rw [hresources, settled_resources, hmessageId]
              exact hdelivered
          · exact absurd hother hleft
  · -- nothing is posted
    have hposted : s.posted request = [] := by
      unfold posted processDispatchRequest
      rw [if_neg htype]
      exact List.drop_length
    constructor
    · intro _ hc
      exact absurd hc htype
    · intro _ event hevent
      rw [hposted] at hevent
      cases hevent

/-! ## Receipts one after another -/

/-- **In a sequence of requests every event is true exactly if every receipt is known when its turn
comes.** -/
theorem always_truthful_iff (requests : List Object) (s : Dispatched) :
    Always Truthful s requests ↔ Always Admissible s requests := by
  induction requests generalizing s with
  | nil => exact Iff.rfl
  | cons request requests ih =>
    unfold Always
    rw [truthful_iff, ih]

/-- A receipt for a resource that nobody has heard of. -/
def strayReceipt : Object :=
  [(lit "dispatchId", .int32 7), (lit "dispatchType", .int32 6), (lit "requestId", .int32 1)]

/-- It reports that no message at all is delivered. -/
theorem not_truthful_stray : ¬ Always Truthful ⟨Records.empty, []⟩ [strayReceipt] := by
  rintro ⟨h, -⟩
  have hposted : (⟨Records.empty, []⟩ : Dispatched).posted strayReceipt
      = [.resourceDelivered none none, .messageDelivered none] := by decide
  have hsound := h (.messageDelivered none) (by rw [hposted]; simp)
  obtain ⟨row, hrow, -⟩ := hsound
  cases hrow

/-! ### Resources that are listed -/

/-- The resource is in its table, and so is its message. -/
def Listed (records : Records) (dispatchId : UInt32) : Prop :=
  ∃ row, records.resource dispatchId = some row ∧
    ∃ message ∈ records.messages, message.id = row.request

/-- No request takes a resource or a message away. -/
theorem Listed.process {s : Dispatched} {id : UInt32} (h : Listed s.records id) (request : Object) :
    Listed (s.processDispatchRequest request).records id := by
  by_cases htype : numberOf request "dispatchType" = ResourceStatus.receipted.code
  · obtain ⟨hresources, hmessages, -⟩ := s.posted_receipt htype rfl rfl
    obtain ⟨row, hrow, hmessage⟩ := h
    refine ⟨if row.id = numberOf request "dispatchId" then { row with status := .delivered } else row,
      ?_, ?_⟩
    · unfold Records.resource
      rw [hresources]
      show (settled s.records (numberOf request "dispatchId")).resource id = _
      rw [settled_resource, resource_updated, hrow]
      rfl
    · rw [hmessages, Records.request_updated]
      exact (settled_messages s.records _ _).mpr hmessage
  · unfold processDispatchRequest
    rw [if_neg htype]
    exact h

/-- **If all receipts are about resources that are listed to begin with**, every event is true. -/
theorem always_truthful_of_listed : ∀ (requests : List Object) {s : Dispatched},
    (∀ request ∈ requests, numberOf request "dispatchType" = ResourceStatus.receipted.code →
      Listed s.records (numberOf request "dispatchId")) → Always Truthful s requests
  | [], _, _ => trivial
  | request :: requests, s, h => by
      refine ⟨(truthful_iff s request).mpr ?_, always_truthful_of_listed requests ?_⟩
      · intro htype
        exact Or.inl (h request (List.mem_cons_self ..) htype)
      · intro request' hrequest' htype
        exact (h request' (List.mem_cons_of_mem _ hrequest') htype).process request

end Dispatched

end Zway.Client
