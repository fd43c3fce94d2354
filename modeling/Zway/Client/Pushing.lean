import Zway.Client.Refusals
import Zway.Lib.Run
import Zway.Thread.Sender

/-!
# Pushing resources

When the server has accepted a message, it lists the resources that it wants. `pushResources`
adds a stream sender for the first one, and the callback of that sender goes on with the next.
A resource that the message does not have ends this without a word: no sender is added, so no
callback goes on. Before that, `processResponse` has looked at the name of each resource, also
of one that is not there.

The updates of the records and the events on the way are in `Zway.Client.Sending`. Whatever
they return is not looked at.
-/

namespace Zway.Client

/-- What `PushRequest::pushResources` looks at in a request that has been initialized. -/
structure PushRequest where
  /-- The resources of `m_msg`. -/
  resources : List Resource
  key : MemoryBuffer
  salt : MemoryBuffer
  salt_size : salt.size = 16

namespace PushRequest

/-- `Message::resourceById`. -/
def resourceById (request : PushRequest) (resourceId : UInt32) : Option Resource :=
  request.resources.find? (fun res => res.id = resourceId)

/-- The `ResourceSender` for a resource. -/
def sender (request : PushRequest) (res : Resource) (id : UInt32) : Option ClientSender :=
  (ResourceSender.create (some res) (some request.key) (resourceSalt (some request.salt) id)).map
    (fun s => s.withSub (.resource s.sub))

end PushRequest

/-- The stream senders of a client, and the pushing of the resources of one message. -/
structure Pushing where
  table : SenderTable ClientStream
  /-- The packets of the `Sender`. -/
  queue : List Packet
  /-- The senders that `pushResources` has added, with the index that their callback has captured. -/
  added : List (Nat × Nat)
  /-- How often the callback of `pushResources` has been called. -/
  calls : Nat

inductive PushEvent where
  /-- A stream sender has its turn. -/
  | process (h : Nat)
  /-- Someone else adds a stream sender. -/
  | add (new : NewStream)
  /-- `Engine::finish`. -/
  | finish

namespace Pushing

section

variable (aes_encrypt : Bytes → Bytes → Bytes) (request : PushRequest) (ids : List UInt32)

/-- `PushRequest::pushResources`. -/
def pushResources (s : Pushing) (index : Nat) : Pushing :=
  if ids.isEmpty then { s with calls := s.calls + 1 }
  else
    match ids[index]? with
    | none => s
    | some id =>
        match request.resourceById id with
        | none => s
        | some res =>
            match request.sender res id with
            | none => s
            | some sender =>
                if sender.id = 0 then s
                else
                  { s with
                    table := s.table.addStreamSender sender
                    added := s.added ++ [(s.table.objects.length, index)] }

/-- The callback of a sender that `pushResources` has added. -/
def callback (s : Pushing) (index : Nat) (status : SenderStatus) : Pushing :=
  if status = .completed then
    if index + 1 < ids.length then s.pushResources request ids (index + 1)
    else { s with calls := s.calls + 1 }
  else s

/-- The index that the callback of a sender has captured, if it is one of these. -/
def captured (added : List (Nat × Nat)) (h : Nat) : Option Nat :=
  (added.find? (fun a => a.1 = h)).map (·.2)

/-- A stream sender is kept as it is after a call of `process`, and its packet is queued. -/
def stored (s : Pushing) (h : Nat) (p : Sent ClientStream) : Pushing :=
  { s with
    table := storeSent (fun _ => []) s.table h p
    queue := s.queue ++ (p.offered true).toList }

/-- `invokeCallback`, if the sender has called it. -/
def invokeCallback (s : Pushing) (h : Nat) (p : Sent ClientStream) : Pushing :=
  if p.invoked then
    match captured s.added h with
    | some index => s.callback request ids index p.sender.status
    | none => s
  else s

/-- A stream sender has its turn in `Engine::processStreamSenders`. -/
def process (s : Pushing) (h : Nat) (sender : ClientSender) : Pushing :=
  let p := sender.process (ClientStream.virtuals aes_encrypt)
  let s := (s.stored h p).invokeCallback request ids h p
  if p.final then { s with table := s.table.removeStreamSender h } else s

def step (s : Pushing) : PushEvent → Option Pushing
  | .process h =>
      if h ∈ s.table.streamSenders then
        match s.table.objects[h]? with
        | some sender => some (s.process aes_encrypt request ids h sender)
        | none => none
      else none
  | .add new => some { s with table := s.table.addStreamSender new.sender }
  | .finish => some { s with table := { s.table with streamSenders := [] } }

/-- `PushRequest::processResponse` of a response with the status 1, up to the end of
`pushResources`. There is no result where it follows a null pointer. -/
def processResponse (s : Pushing) : Option Pushing :=
  if ids.isEmpty then some s
  else if ids.all (fun id => (request.resourceById id).isSome) then
    some (s.pushResources request ids 0)
  else none

end

end Pushing

end Zway.Client
