import Zway.Stream.Packet

/-!
# Records of messages

The tables `resources`, `requests` and `messages` of the store of a client, with the
columns that sending and receiving look at, and the events that go out with them. The
rows of a table are in the order in which they were inserted. Operations of the store
succeed here.
-/

namespace Zway.Client

/-- `Resource::Status`. -/
inductive ResourceStatus where
  | unknown
  | incoming
  | outgoing
  | sent
  | received
  | delivered
  | receipted
  | error
  deriving Repr, DecidableEq

/-- `Message::Status`. -/
inductive MessageStatus where
  | undefined
  | incoming
  | outgoing
  | sent
  | received
  | delivered
  | receipted
  | error
  deriving Repr, DecidableEq

structure ResourceRow where
  id : UInt32
  request : UInt32
  status : ResourceStatus
  /-- The blob that `data` refers to. -/
  data : Option MemoryBuffer
  deriving DecidableEq

structure RequestRow where
  id : UInt32
  key : MemoryBuffer
  salt : MemoryBuffer
  deriving DecidableEq

structure MessageRow where
  id : UInt32
  status : MessageStatus
  deriving Repr, DecidableEq

/-- `Event`, with the rows it takes along. A row that was not found is left out. -/
inductive ClientEvent where
  | messageIncoming (message : MessageRow)
  | messageReceived (message : Option MessageRow)
  | messageSent (message : Option MessageRow)
  | messageDelivered (message : Option MessageRow)
  | resourceIncoming (message : Option MessageRow) (resource : ResourceRow)
  | resourceReceived (message : Option MessageRow) (resource : Option ResourceRow)
  | resourceOutgoing (message : Option MessageRow) (resource : Option ResourceRow)
  | resourceSent (message : Option MessageRow) (resource : Option ResourceRow)
  | resourceDelivered (message : Option MessageRow) (resource : Option ResourceRow)
  deriving DecidableEq

/-- The message of a `MessageReceived`. -/
def ClientEvent.isMessageReceived (messageId : UInt32) : ClientEvent → Bool
  | .messageReceived (some row) => row.id = messageId
  | _ => false

def ClientEvent.isMessageSent (messageId : UInt32) : ClientEvent → Bool
  | .messageSent (some row) => row.id = messageId
  | _ => false

structure Records where
  resources : List ResourceRow
  requests : List RequestRow
  messages : List MessageRow
  /-- What `postEvent` was called with. -/
  events : List ClientEvent

namespace Records

def empty : Records := ⟨[], [], [], []⟩

def post (s : Records) (event : ClientEvent) : Records := { s with events := s.events ++ [event] }

/-- `query` of the resources by id. -/
def resource (s : Records) (id : UInt32) : Option ResourceRow := s.resources.find? (·.id = id)

def request (s : Records) (id : UInt32) : Option RequestRow := s.requests.find? (·.id = id)

def message (s : Records) (id : UInt32) : Option MessageRow := s.messages.find? (·.id = id)

/-- `update` of the status of a resource. -/
def updateResource (s : Records) (id : UInt32) (status : ResourceStatus) : Records :=
  { s with
    resources := s.resources.map (fun row => if row.id = id then { row with status := status } else row) }

/-- `update` of its status and its data. -/
def storeResource (s : Records) (id : UInt32) (status : ResourceStatus) (data : Option MemoryBuffer) :
    Records :=
  { s with
    resources := s.resources.map
      (fun row => if row.id = id then { row with status := status, data := data } else row) }

/-- `update` of the status of a message. -/
def updateMessage (s : Records) (id : UInt32) (status : MessageStatus) : Records :=
  { s with
    messages := s.messages.map (fun row => if row.id = id then { row with status := status } else row) }

def removeRequest (s : Records) (id : UInt32) : Records :=
  { s with requests := s.requests.filter (·.id ≠ id) }

/-- `count` of the resources of a request. -/
def numResources (s : Records) (request : UInt32) : Nat :=
  s.resources.countP (·.request = request)

/-- `count` of those with a status. -/
def numWith (s : Records) (request : UInt32) (status : ResourceStatus) : Nat :=
  s.resources.countP (fun row => row.request = request ∧ row.status = status)

/-! ## Counting -/

/-- The two counts are equal when all resources of the request have the status. -/
theorem numWith_eq_iff (s : Records) (request : UInt32) (status : ResourceStatus) :
    s.numWith request status = s.numResources request
      ↔ ∀ row ∈ s.resources, row.request = request → row.status = status := by
  unfold numWith numResources
  induction s.resources with
  | nil => simp
  | cons row rows ih =>
    have hle : rows.countP (fun row => row.request = request ∧ row.status = status)
        ≤ rows.countP (·.request = request) :=
      List.countP_mono_left (fun row _ h => by simpa using (of_decide_eq_true h).1)
    rw [List.forall_mem_cons, ← ih, List.countP_cons, List.countP_cons]
    by_cases hrequest : row.request = request
    · rw [if_pos (decide_eq_true hrequest)]
      by_cases hstatus : row.status = status
      · rw [if_pos (decide_eq_true ⟨hrequest, hstatus⟩), Nat.add_right_cancel_iff]
        exact ⟨fun h => ⟨fun _ => hstatus, h⟩, fun h => h.2⟩
      · rw [if_neg (fun h => hstatus (of_decide_eq_true h).2)]
        refine ⟨fun h => ?_, fun h => absurd (h.1 hrequest) hstatus⟩
        omega
    · rw [if_neg (fun h => hrequest (of_decide_eq_true h).1),
        if_neg (fun h => hrequest (of_decide_eq_true h))]
      exact ⟨fun h => ⟨fun he => absurd he hrequest, h⟩, fun h => h.2⟩

/-! ## Updating -/

/-- The row that an update of the status leaves of a row. -/
theorem mem_updateResource {s : Records} {id : UInt32} {status : ResourceStatus} {row : ResourceRow} :
    row ∈ (s.updateResource id status).resources
      ↔ ∃ row' ∈ s.resources, (if row'.id = id then { row' with status := status } else row') = row :=
  List.mem_map

theorem forall_mem_updateResource {s : Records} {id : UInt32} {status : ResourceStatus}
    {P : ResourceRow → Prop} :
    (∀ row ∈ (s.updateResource id status).resources, P row)
      ↔ ∀ row ∈ s.resources, P (if row.id = id then { row with status := status } else row) :=
  List.forall_mem_map

@[simp] theorem updateResource_messages (s : Records) (id : UInt32) (status : ResourceStatus) :
    (s.updateResource id status).messages = s.messages := rfl

@[simp] theorem updateResource_events (s : Records) (id : UInt32) (status : ResourceStatus) :
    (s.updateResource id status).events = s.events := rfl

@[simp] theorem updateMessage_resources (s : Records) (id : UInt32) (status : MessageStatus) :
    (s.updateMessage id status).resources = s.resources := rfl

@[simp] theorem updateMessage_events (s : Records) (id : UInt32) (status : MessageStatus) :
    (s.updateMessage id status).events = s.events := rfl

@[simp] theorem post_resources (s : Records) (event : ClientEvent) :
    (s.post event).resources = s.resources := rfl

@[simp] theorem post_messages (s : Records) (event : ClientEvent) :
    (s.post event).messages = s.messages := rfl

@[simp] theorem post_events (s : Records) (event : ClientEvent) :
    (s.post event).events = s.events ++ [event] := rfl

theorem id_updated (row : ResourceRow) (id : UInt32) (status : ResourceStatus) :
    (if row.id = id then { row with status := status } else row).id = row.id := by
  split <;> rfl

theorem request_updated (row : ResourceRow) (id : UInt32) (status : ResourceStatus) :
    (if row.id = id then { row with status := status } else row).request = row.request := by
  split <;> rfl

/-- An update leaves the ids of messages alone. -/
theorem exists_updateMessage (s : Records) (id id' : UInt32) (status : MessageStatus) :
    (∃ row ∈ (s.updateMessage id status).messages, row.id = id') ↔ ∃ row ∈ s.messages, row.id = id' := by
  have hid : ∀ row : MessageRow,
      (if row.id = id then { row with status := status } else row).id = row.id := by
    intro row
    split
    · rfl
    · rfl
  constructor
  · rintro ⟨row, hrow, hrowId⟩
    obtain ⟨row', hrow', rfl⟩ := List.mem_map.mp hrow
    exact ⟨row', hrow', (hid row').symm.trans hrowId⟩
  · rintro ⟨row, hrow, hrowId⟩
    exact ⟨_, List.mem_map.mpr ⟨row, hrow, rfl⟩, (hid row).trans hrowId⟩

/-- What is found is one of the rows. -/
theorem resource_mem {s : Records} {id : UInt32} {row : ResourceRow} (h : s.resource id = some row) :
    row ∈ s.resources ∧ row.id = id :=
  ⟨List.mem_of_find?_eq_some h, by simpa using List.find?_some h⟩

theorem message_mem {s : Records} {id : UInt32} {row : MessageRow} (h : s.message id = some row) :
    row ∈ s.messages ∧ row.id = id :=
  ⟨List.mem_of_find?_eq_some h, by simpa using List.find?_some h⟩

theorem exists_resource {s : Records} {id : UInt32} {row : ResourceRow} (hmem : row ∈ s.resources)
    (hid : row.id = id) : ∃ row', s.resource id = some row' := by
  cases h : s.resource id with
  | some row' => exact ⟨row', rfl⟩
  | none => exact absurd (decide_eq_true hid) (List.find?_eq_none.mp h row hmem)

theorem exists_message {s : Records} {id : UInt32} {row : MessageRow} (hmem : row ∈ s.messages)
    (hid : row.id = id) : ∃ row', s.message id = some row' := by
  cases h : s.message id with
  | some row' => exact ⟨row', rfl⟩
  | none => exact absurd (decide_eq_true hid) (List.find?_eq_none.mp h row hmem)

end Records

end Zway.Client
