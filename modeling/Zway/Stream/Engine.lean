import Zway.Lib.OrdMap
import Zway.Stream.Sender
import Zway.Stream.Receiver

/-!
# The engine

`Engine` keeps the streams of one party: a list of senders, which take turns in
rounds, and a map of receivers by stream id.

The senders are shared pointers, and a round works on a snapshot of the list while
callbacks may extend it. A pointer is a position in the list of all senders ever
added, so that the list and its snapshots are lists of positions.

Two logs record what the source passes on and forgets: which callbacks ran, and
which accesses of the receivers nothing guards.
-/

namespace Zway

/-! ## Sending -/

/-- The sending half of `Engine`. -/
structure SenderTable (δ : Type) where
  /-- Every sender there is; a pointer to a sender is its position. -/
  objects : List (StreamSender δ)
  /-- `m_streamSenders`. -/
  streamSenders : List Nat
  /-- The calls of `invokeCallback`, with the status of the sender at the time. -/
  callbacks : List (Nat × SenderStatus)

namespace SenderTable

variable {δ : Type}

def empty : SenderTable δ := { objects := [], streamSenders := [], callbacks := [] }

/-- `Engine::addStreamSender`. -/
def addStreamSender (t : SenderTable δ) (sender : StreamSender δ) : SenderTable δ :=
  if sender.id = 0 then t
  else
    { t with
      objects := t.objects ++ [sender]
      streamSenders := t.streamSenders ++ [t.objects.length] }

/-- `Engine::removeStreamSender`. -/
def removeStreamSender (t : SenderTable δ) (h : Nat) : SenderTable δ :=
  { t with streamSenders := t.streamSenders.filter (· ≠ h) }

end SenderTable

section Round

variable {δ ω : Type} (virtuals : SenderVirtuals δ)

/-- The state of a call of `Engine::processStreamSenders`; `out` is what the packet callback
keeps. -/
structure Round (δ ω : Type) where
  table : SenderTable δ
  out : ω
  res : Nat

-- `posts h` are the senders that the callback of sender `h` adds
variable (posts : Nat → List (StreamSender δ)) (copyBody : Bool)
  (packetCallback : Packet → ω → Bool × ω)

/-- What the processing of sender `h` leaves in the table: its new state, and what its callback
did. -/
def storeSent (t : SenderTable δ) (h : Nat) (p : Sent δ) : SenderTable δ :=
  let t := { t with objects := t.objects.set h p.sender }
  if p.invoked then
    (posts h).foldl SenderTable.addStreamSender
      { t with callbacks := t.callbacks ++ [(h, p.sender.status)] }
  else t

/-- The body of the loop of `Engine::processStreamSenders`, and whether the loop goes on. -/
def processStreamSender (h : Nat) (r : Round δ ω) : Bool × Round δ ω :=
  match r.table.objects[h]? with
  | none => (false, r)
  | some sender =>
      let p := sender.process virtuals
      let table := storeSent posts r.table h p
      let done := (false, { r with table := table.removeStreamSender h })
      match p.ok, p.pkt with
      | false, _ => done
      | true, none =>
          if p.sender.status = .completed then done else (true, { r with table := table })
      | true, some pkt =>
          let pkt :=
            if copyBody then { pkt with body := pkt.body.bind MemoryBuffer.copy } else pkt
          match packetCallback pkt r.out with
          | (false, out) => (false, { table := table, out := out, res := 0 })
          | (true, out) =>
              if p.sender.status = .completed then
                (false, { table := table.removeStreamSender h, out := out, res := r.res + 1 })
              else (true, { table := table, out := out, res := r.res + 1 })

/-- The loop of `Engine::processStreamSenders` over its snapshot. -/
def processSnapshot : List Nat → Round δ ω → Round δ ω
  | [], r => r
  | h :: hs, r =>
      match processStreamSender virtuals posts copyBody packetCallback h r with
      | (true, r) => processSnapshot hs r
      | (false, r) => r

/-- `Engine::processStreamSenders`. -/
def processStreamSenders (t : SenderTable δ) (out : ω) : Round δ ω :=
  processSnapshot virtuals posts copyBody packetCallback t.streamSenders
    { table := t, out := out, res := 0 }

end Round

/-! ## Receiving -/

/-- `Request`, as far as the engine looks at it. -/
structure Request where
  id : UInt32
  type : UInt32
  deriving Repr, DecidableEq

/-- What the engine hands on once a document is complete. -/
inductive EngineCall where
  /-- `request->processResponse(head)`. -/
  | processResponse (request : Request) (head : Ubj.Object)
  /-- `processIncomingRequest(head)`. -/
  | processIncomingRequest (head : Ubj.Object)

/-- The receiving half of `Engine`. -/
structure ReceiverTable where
  /-- `m_streamReceivers`. -/
  streamReceivers : List (UInt32 × UbjReceiver)
  /-- `m_requests`. -/
  requests : List (UInt32 × Request)
  /-- What was handed on. -/
  calls : List EngineCall
  /-- The receivers, as they were when their callback ran. -/
  reports : List UbjReceiver
  accesses : List Access

namespace ReceiverTable

def empty : ReceiverTable :=
  { streamReceivers := [], requests := [], calls := [], reports := [], accesses := [] }

/-- The pending request that a document answers. -/
def answered (t : ReceiverTable) (head : Ubj.Object) : Option Request :=
  match OrdMap.find? head (lit "requestId") with
  | some requestId => OrdMap.find? t.requests (UInt32.ofBitVec requestId.toInt)
  | none => none

/-- The callback that `Engine::createStreamReceiver` gives a receiver. -/
def onReceived (t : ReceiverTable) (r : UbjReceiver) : ReceiverTable :=
  let t := { t with reports := t.reports ++ [r] }
  if r.status = .completed then
    let head := r.sub.toObject
    match t.answered head with
    | some request =>
        { t with
          calls := t.calls ++ [.processResponse request head]
          requests := OrdMap.erase request.id t.requests }
    | none =>
        if (OrdMap.find? head (lit "requestType")).isSome then
          { t with calls := t.calls ++ [.processIncomingRequest head] }
        else t
  else t

/-- The callback is about the requests, and leaves the receivers alone. -/
theorem onReceived_eq (t : ReceiverTable) (r : UbjReceiver) :
    ∃ requests calls, t.onReceived r =
      { t with requests := requests, calls := calls, reports := t.reports ++ [r] } := by
  unfold onReceived
  dsimp only
  by_cases hstatus : r.status = .completed
  · rw [if_pos hstatus]
    cases answered { t with reports := t.reports ++ [r] } r.sub.toObject with
    | some request => exact ⟨_, _, rfl⟩
    | none =>
      dsimp only
      split
      · exact ⟨_, _, rfl⟩
      · exact ⟨_, _, rfl⟩
  · rw [if_neg hstatus]
    exact ⟨_, _, rfl⟩

/-- `Engine::createStreamReceiver`. -/
def createStreamReceiver (pkt : Packet) : Option UbjReceiver :=
  if pkt.head.streamType = Packet.Request then some (UbjReceiver.create pkt) else none

section

variable (read : Ubj.Value → Bytes → Bool × Ubj.Value) (behind : Nat → UInt8)

/-- The receiver of a packet: the one there is for its stream, or a new one. -/
def receiverFor (t : ReceiverTable) (pkt : Packet) : Option UbjReceiver :=
  match OrdMap.find? t.streamReceivers pkt.head.streamId with
  | some r => some r
  | none => createStreamReceiver pkt

/-- `receiver->process(pkt)`, and what the engine does with the outcome. -/
def processReceiver (t : ReceiverTable) (r : UbjReceiver) (pkt : Packet) : Bool × ReceiverTable :=
  let p := UbjReceiver.process read behind r pkt
  let t := { t with
    streamReceivers := OrdMap.insert pkt.head.streamId p.receiver t.streamReceivers
    accesses := t.accesses ++ p.accesses }
  let t := if p.invoked then t.onReceived p.receiver else t
  if p.ok = false ∨ p.receiver.status = .completed then
    (p.ok, { t with streamReceivers := OrdMap.erase p.receiver.id t.streamReceivers })
  else (p.ok, t)

/-- What `processReceiver` does to the receivers and logs. -/
theorem processReceiver_eq (t : ReceiverTable) (r : UbjReceiver) (pkt : Packet) :
    (t.processReceiver read behind r pkt).2.accesses
        = t.accesses ++ (UbjReceiver.process read behind r pkt).accesses
      ∧ (t.processReceiver read behind r pkt).2.streamReceivers =
        if (UbjReceiver.process read behind r pkt).ok = false
            ∨ (UbjReceiver.process read behind r pkt).receiver.status = .completed then
          OrdMap.erase (UbjReceiver.process read behind r pkt).receiver.id
            (OrdMap.insert pkt.head.streamId (UbjReceiver.process read behind r pkt).receiver
              t.streamReceivers)
        else
          OrdMap.insert pkt.head.streamId (UbjReceiver.process read behind r pkt).receiver
            t.streamReceivers := by
  unfold processReceiver
  generalize UbjReceiver.process read behind r pkt = p
  dsimp only
  obtain ⟨requests, calls, hcall⟩ := onReceived_eq { t with
    streamReceivers := OrdMap.insert pkt.head.streamId p.receiver t.streamReceivers
    accesses := t.accesses ++ p.accesses } p.receiver
  rw [hcall]
  by_cases hi : p.invoked = true
  · rw [if_pos hi]
    split <;> exact ⟨rfl, rfl⟩
  · rw [if_neg hi]
    split <;> exact ⟨rfl, rfl⟩

/-- `Engine::processIncomingPacket`. -/
def processIncomingPacket (t : ReceiverTable) (pkt : Packet) : Bool × ReceiverTable :=
  match t.receiverFor pkt with
  | none => (false, t)
  | some r => t.processReceiver read behind r pkt

end

end ReceiverTable

end Zway
