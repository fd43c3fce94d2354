import Zway.Client.Records
import Zway.Lib.OrdMap
import Zway.Stream.Resource

/-!
# Incoming messages

A push lists the resources of a message. Each of them arrives as a stream, which is
accepted while the status of its row is zero, and the message is received with the last
of its resources: the callback of a resource receiver counts the rows.

A packet that finds no receiver makes one of its own type, so the documents of requests
share `m_streamReceivers` with the resources. What a complete document has the client do is
a step of its own, a push for one.
-/

namespace Zway.Client

/-- A `Push` request whose key and meta data could be decrypted. -/
structure Push where
  requestId : UInt32
  key : MemoryBuffer
  salt : MemoryBuffer
  /-- The ids in `meta["resources"]`. -/
  resources : List UInt32
  /-- `meta["text"]`. -/
  text : Bytes
  /-- What `PushRequest::init` creates. -/
  key_size : key.size = 32
  salt_size : salt.size = 16

/-- A receiver of a resource, with what its callback captures. -/
structure IncomingReceiver where
  receiver : ResourceReceiver
  request : RequestRow

/-- What `Client::createStreamReceiver` may return. Of the receiver of a document only what decides
about its packets is here. -/
inductive IncomingStream where
  | resource (r : IncomingReceiver)
  | document (r : BufferReceiver Unit)

structure Incoming where
  records : Records
  /-- `m_streamReceivers`. -/
  streamReceivers : List (UInt32 × IncomingStream)

/-! ## Pushes -/

namespace Records

/-- A resource that a push lists. -/
def insertResource (requestId : UInt32) (s : Records) (id : UInt32) : Records :=
  if s.resources.countP (·.id = id) = 0 then
    { s with resources := s.resources ++ [⟨id, requestId, .unknown, none⟩] }
  else s

/-- `Client::processMessage`. -/
def processMessage (s : Records) (p : Push) (numResources : Nat) : Records :=
  if p.text.isEmpty then s
  else
    let message : MessageRow := ⟨p.requestId, if numResources ≠ 0 then .incoming else .received⟩
    let s :=
      if s.messages.countP (·.id = p.requestId) = 0 then
        { s with messages := s.messages ++ [message] }
      else s
    let s := s.post (.messageIncoming message)
    if numResources = 0 then s.post (.messageReceived (some message)) else s

/-- `Client::processPush`, and the ids in its response. -/
def processPush (s : Records) (p : Push) : Records × List UInt32 :=
  let numResources := p.resources.length
  let s :=
    if numResources ≠ 0 then
      let s :=
        if s.requests.countP (·.id = p.requestId) = 0 then
          { s with requests := s.requests ++ [⟨p.requestId, p.key, p.salt⟩] }
        else s
      p.resources.foldl (insertResource p.requestId) s
    else s
  (s.processMessage p numResources, p.resources)

/-! ## Receivers -/

/-- The callback of a resource receiver that is completed. -/
def resourceReceived (s : Records) (id : UInt32) (buffer : MemoryBuffer) (request : RequestRow) :
    Records :=
  let s := s.storeResource id .received (some buffer)
  let resource := s.resource id
  let numResources := s.numResources request.id
  let numCompleted := s.numWith request.id .received
  if numCompleted = numResources then
    let s := (s.removeRequest request.id).updateMessage request.id .received
    let message := s.message request.id
    (s.post (.resourceReceived message resource)).post (.messageReceived message)
  else s.post (.resourceReceived (s.message request.id) resource)

/-- `Client::createStreamReceiver`, of a packet of a resource. -/
def createResourceReceiver (s : Records) (pkt : Packet) : Records × Option IncomingReceiver :=
  let resourceId := pkt.head.streamId
  match s.resources.find? (fun row => row.id = resourceId ∧ row.status = .unknown) with
  | none => (s, none)
  | some resource =>
      match s.request resource.request with
      | none => (s, none)
      | some request =>
          match ResourceReceiver.create pkt (some request.key)
              (resourceSalt (some request.salt) resourceId) with
          | none => (s, none)
          | some receiver =>
              let s := s.updateResource resourceId .incoming
              match s.resource resourceId with
              | none => (s, none)
              | some resource =>
                  (s.post (.resourceIncoming (s.message resource.request) resource),
                    some ⟨receiver, request⟩)

/-- `Client::createStreamReceiver`. A packet of another type goes to
`Engine::createStreamReceiver`. -/
def createStreamReceiver (s : Records) (pkt : Packet) : Records × Option IncomingStream :=
  if pkt.head.streamType = Packet.Resource then
    let c := s.createResourceReceiver pkt
    (c.1, c.2.map .resource)
  else if pkt.head.streamType = Packet.Request then
    (s, some (.document (BufferReceiver.init pkt ())))
  else (s, none)

end Records

/-! ## Packets -/

/-- What `Engine::processIncomingPacket` leaves behind. -/
structure Processed where
  ok : Bool
  incoming : Incoming
  /-- Whether a resource is complete. -/
  completed : Bool

namespace Incoming

section

variable (aes_encrypt : Bytes → Bytes → Bytes)

/-- The second half of `Engine::processIncomingPacket`, with the receiver of the packet. -/
def processReceiver (s : Incoming) (r : IncomingReceiver) (pkt : Packet) : Processed :=
  let p := ResourceReceiver.process aes_encrypt r.receiver pkt
  let completed := p.receiver.status = .completed
  let records :=
    if p.invoked ∧ completed then
      s.records.resourceReceived p.receiver.id p.receiver.buffer r.request
    else s.records
  let streamReceivers :=
    OrdMap.insert pkt.head.streamId (.resource { r with receiver := p.receiver }) s.streamReceivers
  if p.ok = false ∨ completed then
    ⟨p.ok, ⟨records, OrdMap.erase p.receiver.id streamReceivers⟩, p.ok && decide completed⟩
  else ⟨true, ⟨records, streamReceivers⟩, false⟩

/-- The same, with the receiver of a document. -/
def processDocument (s : Incoming) (r : BufferReceiver Unit) (pkt : Packet) : Processed :=
  let p := BufferReceiver.process BufferReceiver.processPacket r pkt
  let streamReceivers := OrdMap.insert pkt.head.streamId (.document p.receiver) s.streamReceivers
  if p.ok = false ∨ p.receiver.status = .completed then
    ⟨p.ok, { s with streamReceivers := OrdMap.erase p.receiver.id streamReceivers }, false⟩
  else ⟨true, { s with streamReceivers := streamReceivers }, false⟩

def processStream (s : Incoming) (pkt : Packet) : IncomingStream → Processed
  | .resource r => s.processReceiver aes_encrypt r pkt
  | .document r => s.processDocument r pkt

/-- `Engine::processIncomingPacket`. A packet without a body that the part check lets through is
taken here, where the source follows a null pointer: see `BufferReceiver.processPacket`. -/
def processIncomingPacket (s : Incoming) (pkt : Packet) : Processed :=
  match OrdMap.find? s.streamReceivers pkt.head.streamId with
  | some r => s.processStream aes_encrypt pkt r
  | none =>
      let c := s.records.createStreamReceiver pkt
      match c.2 with
      | some r => { s with records := c.1 }.processStream aes_encrypt pkt r
      | none => ⟨false, { s with records := c.1 }, false⟩

/-- One packet after the other. -/
def processAll (s : Incoming) (pkts : List Packet) : Incoming :=
  pkts.foldl (fun s pkt => (s.processIncomingPacket aes_encrypt pkt).incoming) s

end

end Incoming

/-! ## What is transmitted -/

/-- The content of a resource. One without content is not listed. -/
structure Content where
  data : MemoryBuffer
  pos : 0 < data.size
  le : data.size ≤ 65535 * 65536

/-- The stream of a resource that a push lists, as the sender of the push transmits it. -/
def Push.packets (aes_encrypt : Bytes → Bytes → Bytes) (p : Push) (id : UInt32) (content : Content) :
    List Packet :=
  match ResourceSender.create (some ⟨id, some content.data⟩) (some p.key)
      (resourceSalt (some p.salt) id) with
  | some s => (s.sendAll (ResourceSender.virtuals aes_encrypt) s.parts.toNat).1
  | none => []

end Zway.Client
