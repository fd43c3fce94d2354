import Zway.Client.Records
import Zway.Lib.Run

/-!
# Sending the resources of a message

What `PushRequest` does once the server has accepted a message: it sends one resource
after the other, each when the one before it has been sent, and the message is sent when
all of them are. In the meantime the receipts of resources come in as dispatch requests.
The callbacks of the resource senders run on the sender thread, receipts are processed on
that of the client. Every update and every count of the store is a step of its own, and
what an event takes along is queried in the step that posts it.
-/

namespace Zway.Client

/-- Where the callbacks of `PushRequest::pushResources` are. -/
inductive PushPhase where
  /-- At the beginning of `pushResources`, with an index. -/
  | pushing (index : Nat)
  /-- The resource is outgoing. -/
  | outgoing (index : Nat)
  /-- Its sender has been added. -/
  | sending (index : Nat)
  /-- In the callback of the sender, which has completed. -/
  | completed (index : Nat)
  /-- The status of the resource has been updated. -/
  | updated (index : Nat)
  /-- In the callback of `PushRequest::processResponse`. -/
  | counting
  | countedAll (numResources : Nat)
  | counted (numResources numCompleted : Nat)
  /-- The message has been updated, if it is sent. -/
  | finishing (sent : Bool)
  | done
  deriving Repr, DecidableEq

/-- Where `Client::processDispatchRequest` is with a receipt. -/
inductive ReceiptPhase where
  | idle
  /-- The status of the resource has been updated. -/
  | updated (id : UInt32)
  | queried (id : UInt32) (resource : Option ResourceRow)
  | countedAll (id : UInt32) (resource : Option ResourceRow) (numResources : Nat)
  | counted (id : UInt32) (resource : Option ResourceRow) (numResources numCompleted : Nat)
  /-- The message has been updated, if it is delivered. -/
  | finishing (id : UInt32) (resource : Option ResourceRow) (delivered : Bool)
  deriving DecidableEq

structure Sending where
  records : Records
  push : PushPhase
  receipt : ReceiptPhase
  /-- The resources that have been sent. -/
  sent : List UInt32
  /-- The receipts that have been processed. -/
  arrived : List UInt32

inductive SendingEvent where
  | updateOutgoing
  | resourceOutgoing
  /-- The last packet of the resource has been sent. -/
  | sent
  | updateSent
  | resourceSent
  | countAll
  | countSent
  | updateMessage
  | finish
  /-- A receipt comes in. -/
  | receipt (id : UInt32)
  | queryReceipt
  | countAllReceipt
  | countDelivered
  | updateDelivered
  | finishReceipt
  deriving Repr, DecidableEq

namespace Sending

/-- The records that `PushRequest::processResponse` creates. -/
def insertResources (records : Records) (messageId : UInt32) (ids : List UInt32) : Records :=
  { records with
    resources := records.resources ++ ids.map (fun id => ⟨id, messageId, .outgoing, none⟩) }

/-- `PushRequest::processResponse`, up to `pushResources`. -/
def init (records : Records) (messageId : UInt32) (ids : List UInt32) : Sending where
  records := insertResources records messageId ids
  push := .pushing 0
  receipt := .idle
  sent := []
  arrived := []

/-- The message that a resource belongs to, as a number: 0 if there is no resource. -/
def messageOf (resource : Option ResourceRow) : UInt32 := (resource.map (·.request)).getD 0

section

variable (messageId : UInt32) (ids : List UInt32)

/-- One step of one thread. -/
def step (s : Sending) : SendingEvent → Option Sending
  | .updateOutgoing =>
      match s.push with
      | .pushing index =>
          match ids[index]? with
          | some id => some
              { s with
                records := s.records.updateResource id .outgoing
                push := .outgoing index }
          | none => none
      | _ => none
  | .resourceOutgoing =>
      match s.push with
      | .outgoing index =>
          match ids[index]? with
          | some id => some
              { s with
                records := s.records.post
                  (.resourceOutgoing (s.records.message messageId) (s.records.resource id))
                push := .sending index }
          | none => none
      | _ => none
  | .sent =>
      match s.push with
      | .sending index =>
          match ids[index]? with
          | some id => some
              { s with
                push := .completed index
                sent := id :: s.sent }
          | none => none
      | _ => none
  | .updateSent =>
      match s.push with
      | .completed index =>
          match ids[index]? with
          | some id => some
              { s with
                records := s.records.updateResource id .sent
                push := .updated index }
          | none => none
      | _ => none
  | .resourceSent =>
      match s.push with
      | .updated index =>
          match ids[index]? with
          | some id => some
              { s with
                records := s.records.post
                  (.resourceSent (s.records.message messageId) (s.records.resource id))
                push := if index + 1 < ids.length then .pushing (index + 1) else .counting }
          | none => none
      | _ => none
  | .countAll =>
      match s.push with
      | .counting => some { s with push := .countedAll (s.records.numResources messageId) }
      | _ => none
  | .countSent =>
      match s.push with
      | .countedAll numResources =>
          some { s with push := .counted numResources (s.records.numWith messageId .sent) }
      | _ => none
  | .updateMessage =>
      match s.push with
      | .counted numResources numCompleted =>
          if numCompleted = numResources then
            some
              { s with
                records := s.records.updateMessage messageId .sent
                push := .finishing true }
          else some { s with push := .finishing false }
      | _ => none
  | .finish =>
      match s.push with
      | .finishing sent => some
          { s with
            records :=
              if sent then s.records.post (.messageSent (s.records.message messageId)) else s.records
            push := .done }
      | _ => none
  | .receipt id =>
      if s.receipt = .idle ∧ id ∈ s.sent then
        some
          { s with
            records := s.records.updateResource id .delivered
            receipt := .updated id }
      else none
  | .queryReceipt =>
      match s.receipt with
      | .updated id => some { s with receipt := .queried id (s.records.resource id) }
      | _ => none
  | .countAllReceipt =>
      match s.receipt with
      | .queried id resource =>
          let numResources := s.records.numResources (messageOf resource)
          some { s with receipt := .countedAll id resource numResources }
      | _ => none
  | .countDelivered =>
      match s.receipt with
      | .countedAll id resource numResources =>
          let numCompleted := s.records.numWith (messageOf resource) .delivered
          some { s with receipt := .counted id resource numResources numCompleted }
      | _ => none
  | .updateDelivered =>
      match s.receipt with
      | .counted id resource numResources numCompleted =>
          if numCompleted = numResources then
            some
              { s with
                records := s.records.updateMessage (messageOf resource) .delivered
                receipt := .finishing id resource true }
          else some { s with receipt := .finishing id resource false }
      | _ => none
  | .finishReceipt =>
      match s.receipt with
      | .finishing id resource delivered =>
          -- without a resource the id is null, which no row matches
          let message := resource.bind fun row => s.records.message row.request
          let records := s.records.post (.resourceDelivered message resource)
          some
            { s with
              records := if delivered then records.post (.messageDelivered message) else records
              receipt := .idle
              arrived := id :: s.arrived }
      | _ => none

end

end Sending

end Zway.Client
