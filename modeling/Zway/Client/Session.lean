import Zway.Client.Requests
import Zway.Client.Streams
import Zway.Stream.Reassembly

/-!
# Sessions

The status of a client and the connections it has one after another. The thread of the
client connects, and takes in what the receiver thread has queued; the receiver thread
disconnects. Nothing tells a queued packet, a stream that has begun or a pending request
which connection it belongs to, and neither does the status.

Every packet is followed with the number of the connection it was received on. The
connection is open from the time it is made until `disconnect` closes the socket. It sets the
status only after that, and the thread of the client may run in between.
-/

namespace Zway.Client

/-- `Client::Status`. -/
inductive Status where
  | closed
  | started
  | disconnected
  | connecting
  | connected
  | secure
  | authenticated
  deriving Repr, DecidableEq

/-- `request->processResponse`, as far as it is about the status of the client. -/
def processResponse (request : Request) (response : Ubj.Object) (status : Status) : Status :=
  match request.type with
  | .login => if intField response (lit "status") = 1 then .authenticated else status
  | .logout => if intField response (lit "status") = 1 then .secure else status
  | _ => status

/-- The connections on which the packets of a response were received. -/
structure Arrival where
  last : Nat
  earlier : List Nat
  deriving Repr, DecidableEq

/-- It was received on this connection. -/
def Arrival.On (arrival : Arrival) (connection : Nat) : Prop :=
  arrival.last = connection ∧ ∀ c ∈ arrival.earlier, c = connection

/-- Where the thread of the client is. -/
inductive ClientThread where
  /-- At the top of the loop of `Client::run`. -/
  | top
  /-- At the top of the loop of `Client::reconnect`. -/
  | reconnect
  /-- In `Client::connect`, by the last status it has set. -/
  | connecting
  | connected
  | secure
  /-- Sender and receiver run again. -/
  | resumed
  /-- `connect` has failed. -/
  | waiting
  | fetching
  | fetched (pkt : Packet) (connection : Nat)
  /-- It has a response and the request that it is for. -/
  | found (request : Request) (response : Ubj.Object) (arrival : Arrival)
  | responded (request : Request)
  /-- Before `Engine::process`. -/
  | sweeping

/-- In `Client::reconnect`, and sender and receiver do not run yet. -/
def ClientThread.Connecting : ClientThread → Prop
  | reconnect | connecting | connected | secure | waiting => True
  | _ => False

/-- It has made a connection, and sender and receiver do not run yet. -/
def ClientThread.Connected : ClientThread → Prop
  | connected | secure => True
  | _ => False

/-- The packet it has fetched. -/
def ClientThread.packets : ClientThread → List (Packet × Nat)
  | fetched pkt connection => [(pkt, connection)]
  | _ => []

/-- It has the response to a login that has succeeded, with this arrival. -/
def ClientThread.Login : ClientThread → Arrival → Prop
  | found request response arrival, a =>
      arrival = a ∧ request.type = .login ∧ intField response (lit "status") = 1
  | _, _ => False

theorem ClientThread.Connected.connecting {client : ClientThread} (h : client.Connected) :
    client.Connecting := by
  cases client with
  | connected | secure => trivial
  | _ => exact h.elim

theorem ClientThread.Connecting.packets {client : ClientThread} (h : client.Connecting) :
    client.packets = [] := by
  cases client with
  | fetched => exact h.elim
  | _ => rfl

theorem ClientThread.Connecting.not_login {client : ClientThread} (h : client.Connecting)
    {arrival : Arrival} : ¬ client.Login arrival := by
  cases client with
  | found => exact h.elim
  | _ => exact id

/-- Where the receiver thread is. -/
inductive ReceiverThread where
  | top
  /-- The status was one with a connection, and there is something to read. -/
  | reading
  | received (pkt : Packet) (connection : Nat)
  /-- In `Client::disconnect`, before `::close`. -/
  | disconnecting
  /-- The socket is closed, and the status is not set yet. -/
  | closed

structure Session where
  /-- `m_status` -/
  status : Status
  /-- How many connections there have been. -/
  connection : Nat
  isOpen : Bool
  /-- `m_packetQueue`, with the connection of each packet. -/
  packetQueue : List (Packet × Nat)
  /-- `m_streamReceivers` -/
  streamReceivers : StreamReceivers
  /-- The connections on which the packets of a stream that has begun were received. -/
  arrivals : UInt32 → List Nat
  /-- `m_requests` -/
  requests : List (UInt32 × Request)
  /-- `m_suspended` of the receiver. -/
  suspended : Bool
  client : ClientThread
  receiver : ReceiverThread
  /-- The successful responses to logins that were processed. -/
  logins : List Arrival

/-- What may happen. -/
inductive SessionEvent where
  /-- The thread of the client reads the status. -/
  | look
  | connect
  /-- `connect` returns before it sets the status. -/
  | resolveFails
  | connectFails
  /-- The client is canceled while it waits for the socket. -/
  | canceled
  | connected
  | handshakeFails
  | secure
  | resume
  /-- The login that `connect` requests has an id, unless it is refused. -/
  | login (id : Option UInt32)
  | retry
  /-- `reconnect` returns. -/
  | giveUp
  | fetchPacket
  /-- What the store has for a new resource stream. -/
  | processIncomingPacket (opened : Option (MemoryBuffer × MemoryBuffer))
  | processResponse
  | erase
  /-- The requests whose time is over. -/
  | process (expired : List UInt32)
  /-- The receiver thread reads the status, and there is something to read. -/
  | readable
  | recvPacket (pkt : Packet)
  | recvFails
  | pushBack
  /-- `disconnect` closes the socket. -/
  | close
  | disconnected
  /-- Any thread posts a request. -/
  | post (request : Request)
  | finish

namespace Session

/-- After `Client::start`. -/
def init : Session where
  status := .started
  connection := 0
  isOpen := false
  packetQueue := []
  streamReceivers := []
  arrivals := fun _ => []
  requests := []
  suspended := true
  client := .top
  receiver := .top
  logins := []

/-- The request that `Engine::createStreamReceiver` finds for a complete document. -/
def answered (s : Session) (head : Ubj.Object) : Option Request :=
  match OrdMap.find? head (lit "requestId") with
  | some requestId => OrdMap.find? s.requests (UInt32.ofBitVec requestId.toInt)
  | none => none

/-- `Client::createStreamReceiver`. -/
def createStreamReceiver (opened : Option (MemoryBuffer × MemoryBuffer)) (pkt : Packet) :
    Option StreamReceiver :=
  if pkt.head.streamType = Packet.Resource then
    (ResourceReceiver.create pkt (opened.map (·.1)) (opened.map (·.2))).map .resource
  else if pkt.head.streamType = Packet.Request then some (.request (UbjReceiver.create pkt))
  else none

section

variable (aes_encrypt : Bytes → Bytes → Bytes)
  (read : Ubj.Value → Bytes → Bool × Ubj.Value) (behind : Nat → UInt8)

/-- `Engine::processIncomingPacket` with a receiver, up to where a response is processed. -/
def processReceiver (s : Session) (r : StreamReceiver) (pkt : Packet) (arrival : Arrival) :
    Session :=
  let p := r.process aes_encrypt read behind pkt
  let s := { s with
    streamReceivers := s.streamReceivers.keep pkt p
    arrivals := Function.update s.arrivals pkt.head.streamId (arrival.earlier ++ [arrival.last]) }
  match p.receiver with
  | .request r =>
      if p.invoked ∧ r.status = .completed then
        match s.answered r.sub.toObject with
        | some request => { s with client := .found request r.sub.toObject arrival }
        | none => { s with client := .sweeping }
      else { s with client := .sweeping }
  | .resource _ => { s with client := .sweeping }

/-- `Engine::processIncomingPacket`. A packet without a body that the part check lets through is
taken here, where the source follows a null pointer: see `BufferReceiver.processPacket`. -/
def processIncomingPacket (s : Session) (opened : Option (MemoryBuffer × MemoryBuffer))
    (pkt : Packet) (connection : Nat) : Session :=
  match OrdMap.find? s.streamReceivers pkt.head.streamId with
  | some r =>
      s.processReceiver aes_encrypt read behind r pkt ⟨connection, s.arrivals pkt.head.streamId⟩
  | none =>
      match createStreamReceiver opened pkt with
      | some r => s.processReceiver aes_encrypt read behind r pkt ⟨connection, []⟩
      | none => { s with client := .sweeping }

/-- `processResponse` of a request. -/
def respond (s : Session) (request : Request) (response : Ubj.Object) (arrival : Arrival) :
    Session :=
  { s with
    status := processResponse request response s.status
    client := .responded request
    logins :=
      if request.type = .login ∧ intField response (lit "status") = 1 then arrival :: s.logins
      else s.logins }

/-- One step of one thread. -/
def step (s : Session) : SessionEvent → Option Session
  | .look =>
      match s.client with
      | .top =>
          if s.status = .started ∨ s.status = .disconnected then
            some { s with client := .reconnect }
          else some { s with client := .fetching }
      | _ => none
  | .connect =>
      match s.client with
      | .reconnect => some { s with status := .connecting, client := .connecting }
      | _ => none
  | .resolveFails =>
      match s.client with
      | .reconnect => some { s with client := .waiting }
      | _ => none
  | .connectFails =>
      match s.client with
      | .connecting => some { s with status := .disconnected, client := .waiting }
      | _ => none
  | .canceled =>
      match s.client with
      | .connecting => some { s with client := .waiting }
      | _ => none
  | .connected =>
      match s.client with
      | .connecting => some
          { s with
            status := .connected
            connection := s.connection + 1
            isOpen := true
            client := .connected }
      | _ => none
  | .handshakeFails =>
      match s.client with
      | .connected => some { s with client := .waiting }
      | _ => none
  | .secure =>
      match s.client with
      | .connected => some { s with status := .secure, client := .secure }
      | _ => none
  | .resume =>
      match s.client with
      | .secure => some { s with suspended := false, client := .resumed }
      | _ => none
  | .login id =>
      match s.client with
      | .resumed => some
          { s with
            requests := match id with
              | some id => OrdMap.insert id ⟨.login, id, 20⟩ s.requests
              | none => s.requests
            client := .top }
      | _ => none
  | .retry =>
      match s.client with
      | .waiting => some { s with client := .reconnect }
      | _ => none
  | .giveUp =>
      match s.client with
      | .waiting => some { s with client := .top }
      | _ => none
  | .fetchPacket =>
      match s.client, s.packetQueue with
      | .fetching, (pkt, connection) :: rest =>
          some { s with packetQueue := rest, client := .fetched pkt connection }
      | .fetching, [] => some { s with client := .sweeping }
      | _, _ => none
  | .processIncomingPacket opened =>
      match s.client with
      | .fetched pkt connection =>
          some (s.processIncomingPacket aes_encrypt read behind opened pkt connection)
      | _ => none
  | .processResponse =>
      match s.client with
      | .found request response arrival => some (s.respond request response arrival)
      | _ => none
  | .erase =>
      match s.client with
      | .responded request => some
          { s with
            requests := OrdMap.erase request.id s.requests
            client := .sweeping }
      | _ => none
  | .process expired =>
      match s.client with
      | .sweeping => some
          { s with
            requests := expired.foldl (fun m id => OrdMap.erase id m) s.requests
            client := .top }
      | _ => none
  | .readable =>
      match s.receiver with
      | .top =>
          if s.suspended = false ∧ (s.status = .secure ∨ s.status = .authenticated) then
            some { s with receiver := .reading }
          else none
      | _ => none
  | .recvPacket pkt =>
      match s.receiver with
      | .reading => some { s with receiver := .received pkt s.connection }
      | _ => none
  | .recvFails =>
      match s.receiver with
      | .reading => some { s with suspended := true, receiver := .disconnecting }
      | _ => none
  | .pushBack =>
      match s.receiver with
      | .received pkt connection => some
          { s with
            packetQueue := s.packetQueue ++ [(pkt, connection)]
            receiver := .top }
      | _ => none
  | .close =>
      match s.receiver with
      | .disconnecting => some { s with isOpen := false, receiver := .closed }
      | _ => none
  | .disconnected =>
      match s.receiver with
      | .closed => some { s with status := .disconnected, receiver := .top }
      | _ => none
  | .post request =>
      some { s with requests := OrdMap.insert request.id request s.requests }
  | .finish => some { s with requests := [] }

end

end Session

end Zway.Client
