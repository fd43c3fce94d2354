import Zway.Lib.Bytes

/-!
# The contact handshake

A peer asks to be added (`AddContact`), and the one who asked is told whether that was
accepted or rejected. A server may deliver a request more than once. The first handler
looks whether it has the request already; an acceptance adds the contact every time it
comes in, because the record of the request stays. `delivered_eq_iff` is the exact
condition for repetitions to make no difference.

The ids in a request are integers of 32 bits. So the row that the first handler adds, with the id as
it came in, is the one that it looks for with `toInt` when the request comes again.
-/

namespace Zway.Client

-- the names, numbers, codes, keys and colors, which are only passed on
variable {α : Type}

/-! ## Tables -/

/-- A row of `contact_requests`. -/
structure ContactRequestRow (α : Type) where
  id : UInt32
  time : UInt64
  src : Option UInt32
  dst : UInt32
  name : α
  phone : α
  addCode : α
  color : α
  result : Option UInt32
  deriving DecidableEq

/-- A row of `contacts`, as it is added. -/
structure ContactRow (α : Type) where
  id : UInt32
  name : α
  phone : α
  publicKey : α
  color : α
  deriving DecidableEq

structure ContactTables (α : Type) where
  accountId : UInt32
  contactRequests : List (ContactRequestRow α)
  contacts : List (ContactRow α)
  /-- The codes in `add_codes`. -/
  addCodes : List α

/-! ## Requests -/

structure AddContact (α : Type) where
  requestId : UInt32
  name : α
  phone : α
  /-- Whether the field is there, and what it reads as. -/
  hasAddCode : Bool
  addCode : α
  deriving DecidableEq

structure AcceptContact (α : Type) where
  requestId : UInt32
  contactRequestId : UInt32
  contactId : UInt32
  name : α
  phone : α
  publicKey : α
  deriving DecidableEq

structure RejectContact where
  requestId : UInt32
  contactRequestId : UInt32
  deriving DecidableEq

inductive ContactMessage (α : Type) where
  | add (request : AddContact α)
  | accept (request : AcceptContact α)
  | reject (request : RejectContact)
  deriving DecidableEq

/-- `Request::AcceptContact`. -/
def acceptContactResult : UInt32 := 3400

/-- `Request::RejectContact`. -/
def rejectContactResult : UInt32 := 3500

/-- A request that comes in, with the time and the random color that its handler would take. -/
structure ContactDelivery (α : Type) where
  message : ContactMessage α
  time : UInt64
  color : α

/-! ## Handlers -/

namespace ContactTables

/-- `Store::query` of `contact_requests`. -/
def contactRequest (s : ContactTables α) (id : UInt32) : Option (ContactRequestRow α) :=
  s.contactRequests.find? (·.id = id)

/-- `Store::addContactRequest`. The row has no color yet. -/
def addContactRequest (s : ContactTables α) (row : ContactRequestRow α) : ContactTables α :=
  { s with contactRequests := s.contactRequests ++ [row] }

/-- `Store::addContact`. -/
def addContact (s : ContactTables α) (row : ContactRow α) : ContactTables α :=
  { s with contacts := s.contacts ++ [row] }

/-- `Store::update` of the result of a request. -/
def updateResult (s : ContactTables α) (id result : UInt32) : ContactTables α :=
  { s with
    contactRequests := s.contactRequests.map (fun row =>
      if row.id = id then { row with result := some result } else row) }

variable [DecidableEq α]

/-- `Client::processContactRequest`. -/
def processContactRequest (s : ContactTables α) (request : AddContact α) (time : UInt64) (color : α) :
    Bool × ContactTables α :=
  match s.contactRequest request.requestId with
  | some _ => (true, s)
  | none =>
      let s :=
        if request.hasAddCode then { s with addCodes := s.addCodes.filter (· ≠ request.addCode) } else s
      (true, s.addContactRequest
        { id := request.requestId
          time := time
          src := none
          dst := s.accountId
          name := request.name
          phone := request.phone
          addCode := request.addCode
          color := color
          result := none })

omit [DecidableEq α] in
/-- `Client::processContactRequestAccepted`. -/
def processContactRequestAccepted (s : ContactTables α) (request : AcceptContact α) :
    Bool × ContactTables α :=
  match s.contactRequest request.contactRequestId with
  | some row =>
      (true, (s.updateResult request.contactRequestId acceptContactResult).addContact
        { id := request.contactId
          name := request.name
          phone := request.phone
          publicKey := request.publicKey
          color := row.color })
  | none => (false, s)

omit [DecidableEq α] in
/-- `Client::processContactRequestRejected`. -/
def processContactRequestRejected (s : ContactTables α) (request : RejectContact) :
    Bool × ContactTables α :=
  match s.contactRequest request.contactRequestId with
  | some _ => (true, s.updateResult request.contactRequestId rejectContactResult)
  | none => (false, s)

/-- `Client::processIncomingRequest`, with one of these requests. -/
def deliver (s : ContactTables α) (d : ContactDelivery α) : ContactTables α :=
  match d.message with
  | .add request => (s.processContactRequest request d.time d.color).2
  | .accept request => (s.processContactRequestAccepted request).2
  | .reject request => (s.processContactRequestRejected request).2

/-- All deliveries. -/
def deliverAll (s : ContactTables α) (ds : List (ContactDelivery α)) : ContactTables α :=
  ds.foldl deliver s

/-- The deliveries without the repetitions of the one before. -/
def withoutRepetitions : Option (ContactMessage α) → List (ContactDelivery α) → List (ContactDelivery α)
  | _, [] => []
  | previous, d :: ds =>
      if previous = some d.message then withoutRepetitions previous ds
      else d :: withoutRepetitions (some d.message) ds

/-- No acceptance of a request that is known is repeated. -/
def AcceptsOnce : Option (ContactMessage α) → ContactTables α → List (ContactDelivery α) → Prop
  | _, _, [] => True
  | previous, s, d :: ds =>
      (∀ request, previous = some d.message → d.message = .accept request →
        s.contactRequest request.contactRequestId = none)
        ∧ AcceptsOnce (some d.message) (s.deliver d) ds

/-! ## Repetitions -/

omit [DecidableEq α] in
/-- Updating does not change which requests are known. -/
theorem contactRequest_updateResult (s : ContactTables α) (id result id' : UInt32) :
    (s.updateResult id result).contactRequest id'
      = (s.contactRequest id').map (fun row =>
        if row.id = id then { row with result := some result } else row) := by
  unfold contactRequest updateResult
  dsimp only
  rw [List.find?_map]
  congr 1
  refine congrArg (fun p => List.find? p s.contactRequests) (funext (fun row => ?_))
  show decide ((if row.id = id then _ else row).id = id') = _
  split
  · rfl
  · rfl

omit [DecidableEq α] in
theorem updateResult_updateResult (s : ContactTables α) (id result : UInt32) :
    (s.updateResult id result).updateResult id result = s.updateResult id result := by
  unfold updateResult
  dsimp only
  rw [List.map_map]
  congr 1
  refine List.map_congr_left (fun row _ => ?_)
  show (if (if row.id = id then _ else row).id = id then _ else _) = _
  by_cases hid : row.id = id
  · simp [hid]
  · simp [hid]

omit [DecidableEq α] in
theorem contactRequest_addContactRequest {s : ContactTables α} {row : ContactRequestRow α}
    (h : s.contactRequest row.id = none) :
    (s.addContactRequest row).contactRequest row.id = some row := by
  unfold contactRequest addContactRequest at *
  dsimp only
  rw [List.find?_append, h]
  simp

/-- The contacts that a delivery adds. -/
def added (s : ContactTables α) (d : ContactDelivery α) : List (ContactRow α) :=
  match d.message with
  | .accept request =>
      match s.contactRequest request.contactRequestId with
      | some row =>
          [{ id := request.contactId
             name := request.name
             phone := request.phone
             publicKey := request.publicKey
             color := row.color }]
      | none => []
  | _ => []

/-- **What a delivery does.** It adds contacts, and the rest does not depend on those there are. -/
theorem deliver_eq (s : ContactTables α) (d : ContactDelivery α) (contacts : List (ContactRow α)) :
    (({ s with contacts := contacts } : ContactTables α).deliver d)
      = { s.deliver d with contacts := contacts ++ s.added d } := by
  have hfind : ∀ id, ({ s with contacts := contacts } : ContactTables α).contactRequest id
      = s.contactRequest id := fun _ => rfl
  unfold deliver added
  cases d.message with
  | add request =>
    dsimp only
    unfold processContactRequest
    rw [hfind, List.append_nil]
    cases s.contactRequest request.requestId with
    | some row => rfl
    | none =>
      dsimp only
      split
      · rfl
      · rfl
  | accept request =>
    dsimp only
    unfold processContactRequestAccepted
    rw [hfind]
    cases s.contactRequest request.contactRequestId with
    | some row => rfl
    | none => simp
  | reject request =>
    dsimp only
    unfold processContactRequestRejected
    rw [hfind, List.append_nil]
    cases s.contactRequest request.contactRequestId with
    | some row => rfl
    | none => rfl

omit [DecidableEq α] in
theorem added_eq_nil {s : ContactTables α} {d : ContactDelivery α} :
    s.added d = [] ↔ ∀ request, d.message = .accept request →
      s.contactRequest request.contactRequestId = none := by
  unfold added
  constructor
  · intro hadded request hmessage
    rw [hmessage] at hadded
    cases hfind : s.contactRequest request.contactRequestId with
    | none => rfl
    | some row =>
      dsimp only at hadded
      rw [hfind] at hadded
      cases hadded
  · intro hnone
    cases hmessage : d.message with
    | add request => rfl
    | reject request => rfl
    | accept request =>
      dsimp only
      rw [hnone request hmessage]

/-- Delivering this again does nothing but add a contact. -/
def Settled (s : ContactTables α) (message : ContactMessage α) : Prop :=
  ∀ d : ContactDelivery α, d.message = message →
    s.deliver d = { s with contacts := s.contacts ++ s.added d }

/-- **A request that has been delivered is settled.** -/
theorem settled_deliver (s : ContactTables α) (d : ContactDelivery α) :
    (s.deliver d).Settled d.message := by
  intro d' hmessage
  obtain ⟨message, time, color⟩ := d
  obtain ⟨message', time', color'⟩ := d'
  dsimp only at hmessage
  subst hmessage
  unfold deliver added
  dsimp only
  cases message' with
  | add request =>
    -- whether it was there or not, it is there now
    have hthere : ∃ row, (s.processContactRequest request time color).2.contactRequest request.requestId
        = some row := by
      unfold processContactRequest
      cases hfind : s.contactRequest request.requestId with
      | some row => exact ⟨row, hfind⟩
      | none =>
        dsimp only
        split
        · exact ⟨_, contactRequest_addContactRequest hfind⟩
        · exact ⟨_, contactRequest_addContactRequest hfind⟩
    obtain ⟨row, hrow⟩ := hthere
    dsimp only
    rw [processContactRequest, hrow, List.append_nil]
  | accept request =>
    dsimp only
    unfold processContactRequestAccepted
    cases hfind : s.contactRequest request.contactRequestId with
    | none => simp [hfind]
    | some row =>
      dsimp only
      have hagain := (contactRequest_updateResult s request.contactRequestId acceptContactResult
        request.contactRequestId).trans (congrArg _ hfind)
      have hsame : ∀ row, ((s.updateResult request.contactRequestId acceptContactResult).addContact row).updateResult
          request.contactRequestId acceptContactResult
            = (s.updateResult request.contactRequestId acceptContactResult).addContact row :=
        fun row => congrArg (·.addContact row) (updateResult_updateResult s _ _)
      rw [show ((s.updateResult request.contactRequestId acceptContactResult).addContact _).contactRequest
        request.contactRequestId = _ from hagain]
      dsimp only [Option.map]
      rw [hsame]
      rfl
  | reject request =>
    dsimp only
    unfold processContactRequestRejected
    cases hfind : s.contactRequest request.contactRequestId with
    | none => simp [hfind]
    | some row =>
      dsimp only
      rw [contactRequest_updateResult, hfind]
      dsimp only [Option.map]
      rw [updateResult_updateResult, List.append_nil]

/-! ## Runs -/

theorem deliverAll_cons (s : ContactTables α) (d : ContactDelivery α) (ds : List (ContactDelivery α)) :
    s.deliverAll (d :: ds) = (s.deliver d).deliverAll ds := rfl

/-- **Both runs.** They only differ in the contacts, and those of the first are more if an acceptance
is repeated. -/
theorem deliverAll_withoutRepetitions : ∀ (ds : List (ContactDelivery α))
    (previous : Option (ContactMessage α)) (s : ContactTables α) (contacts : List (ContactRow α)),
    (∀ message, previous = some message → s.Settled message) →
    ∃ more once : List (ContactRow α),
      (s.deliverAll ds).contacts = s.contacts ++ more
      ∧ (({ s with contacts := contacts } : ContactTables α).deliverAll (withoutRepetitions previous ds))
        = { s.deliverAll ds with contacts := contacts ++ once }
      ∧ (AcceptsOnce previous s ds → more = once)
      ∧ (¬ AcceptsOnce previous s ds → once.length < more.length)
      ∧ once.length ≤ more.length
  | [], _, s, contacts, _ =>
      ⟨[], [], (List.append_nil _).symm, by rw [List.append_nil]; rfl, fun _ => rfl,
        fun h => absurd trivial h, Nat.le_refl 0⟩
  | d :: ds, previous, s, contacts, hsettled => by
      have hstep := deliver_eq s d s.contacts
      have hcontacts : (s.deliver d).contacts = s.contacts ++ s.added d := by
        rw [show s.deliver d = _ from hstep]
      have hnext : ∀ message, some d.message = some message → (s.deliver d).Settled message :=
        fun message hmessage => Option.some.inj hmessage ▸ settled_deliver s d
      rw [withoutRepetitions]
      by_cases hrepeated : previous = some d.message
      · -- only the first run takes the step
        rw [if_pos hrepeated]
        have hsame := hsettled d.message hrepeated d rfl
        obtain ⟨more, once, hmore, honce, heq, hlt, hle⟩ := deliverAll_withoutRepetitions ds
          (some d.message) (s.deliver d) contacts hnext
        have hother : ({ s.deliver d with contacts := contacts } : ContactTables α)
            = { s with contacts := contacts } := by rw [hsame]
        rw [hother, ← hrepeated] at honce
        refine ⟨s.added d ++ more, once, ?_, honce, ?_, ?_, ?_⟩
        · rw [deliverAll_cons, hmore, hcontacts, List.append_assoc]
        · rintro ⟨hnone, hrest⟩
          rw [added_eq_nil.mpr (hnone · hrepeated), List.nil_append, heq hrest]
        · intro hnot
          rw [List.length_append]
          by_cases hadded : s.added d = []
          · have hlt := hlt (fun hrest => hnot ⟨fun r _ => added_eq_nil.mp hadded r, hrest⟩)
            omega
          · have hpos := List.length_pos_iff.mpr hadded
            omega
        · rw [List.length_append]
          omega
      · rw [if_neg hrepeated]
        obtain ⟨more, once, hmore, honce, heq, hlt, hle⟩ := deliverAll_withoutRepetitions ds
          (some d.message) (s.deliver d) (contacts ++ s.added d) hnext
        have hboth : ({ s with contacts := contacts } : ContactTables α).deliver d
            = { s.deliver d with contacts := contacts ++ s.added d } := deliver_eq s d contacts
        refine ⟨s.added d ++ more, s.added d ++ once, ?_, ?_, ?_, ?_, ?_⟩
        · rw [deliverAll_cons, hmore, hcontacts, List.append_assoc]
        · rw [deliverAll_cons, deliverAll_cons, hboth, honce, List.append_assoc]
        · rintro ⟨-, hrest⟩
          rw [heq hrest]
        · intro hnot
          have hlt := hlt (fun hrest => hnot ⟨fun r hmessage => absurd hmessage hrepeated, hrest⟩)
          rw [List.length_append, List.length_append]
          omega
        · rw [List.length_append, List.length_append]
          omega

/-- **When repetitions make no difference.** -/
theorem delivered_eq_iff (s : ContactTables α) (ds : List (ContactDelivery α)) :
    (s.deliverAll ds).contactRequests = (s.deliverAll (withoutRepetitions none ds)).contactRequests
        ∧ (s.deliverAll ds).contacts = (s.deliverAll (withoutRepetitions none ds)).contacts
      ↔ AcceptsOnce none s ds := by
  obtain ⟨more, once, hmore, honce, heq, hlt, -⟩ :=
    deliverAll_withoutRepetitions ds none s s.contacts (fun _ h => by cases h)
  have honce : s.deliverAll (withoutRepetitions none ds)
      = { s.deliverAll ds with contacts := s.contacts ++ once } := honce
  rw [hmore, honce]
  constructor
  · rintro ⟨-, hcontacts⟩
    by_contra hnot
    have hlen := congrArg List.length (List.append_cancel_left hcontacts)
    exact absurd hlen (Nat.ne_of_gt (hlt hnot))
  · intro honceOnly
    exact ⟨rfl, congrArg _ (heq honceOnly)⟩

/-- A request that is known, and its acceptance. -/
def known : ContactTables Nat where
  accountId := 1
  contactRequests := [⟨7, 0, none, 1, 0, 0, 0, 0, none⟩]
  contacts := []
  addCodes := []

def acceptance : ContactDelivery Nat where
  message := .accept ⟨8, 7, 2, 0, 0, 0⟩
  time := 0
  color := 0

/-- An acceptance that is delivered twice. -/
theorem added_twice :
    (known.deliverAll [acceptance, acceptance]).contacts
      ≠ (known.deliverAll (withoutRepetitions none [acceptance, acceptance])).contacts := by
  decide

end ContactTables

end Zway.Client
