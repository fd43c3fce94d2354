import Zway.Lib.OrdMap
import Zway.Stream.Receiver
import Zway.Stream.Resource

/-!
# Incoming streams

`m_streamReceivers` of a client. Requests and resources arrive as streams, and the
receivers of both are in one map by stream id. A receiver leaves the map with the
packet that completes it, or that it turns down, and stays there otherwise: what
becomes of the connection does not concern the map.
-/

namespace Zway.Client

/-- What `Client::createStreamReceiver` may return. -/
inductive StreamReceiver where
  | request (r : UbjReceiver)
  | resource (r : ResourceReceiver)

namespace StreamReceiver

def id : StreamReceiver → UInt32
  | request r => r.id
  | resource r => r.id

def status : StreamReceiver → ReceiverStatus
  | request r => r.status
  | resource r => r.status

/-- A receiver after `process`. -/
structure Processed where
  ok : Bool
  receiver : StreamReceiver
  /-- Whether `invokeCallback` ran. -/
  invoked : Bool

section

variable (aes_encrypt : Bytes → Bytes → Bytes)
  (read : Ubj.Value → Bytes → Bool × Ubj.Value) (behind : Nat → UInt8)

/-- `StreamReceiver::process`. -/
def process (r : StreamReceiver) (pkt : Packet) : Processed :=
  match r with
  | request r =>
      let p := UbjReceiver.process read behind r pkt
      ⟨p.ok, .request p.receiver, p.invoked⟩
  | resource r =>
      let p := ResourceReceiver.process aes_encrypt r pkt
      ⟨p.ok, .resource p.receiver, p.invoked⟩

end

end StreamReceiver

/-- `m_streamReceivers`. -/
abbrev StreamReceivers := List (UInt32 × StreamReceiver)

namespace StreamReceivers

/-- What `Engine::processIncomingPacket` does to the map with the receiver of a packet. -/
def keep (t : StreamReceivers) (pkt : Packet) (p : StreamReceiver.Processed) : StreamReceivers :=
  let t := OrdMap.insert pkt.head.streamId p.receiver t
  if p.ok = false ∨ p.receiver.status = .completed then OrdMap.erase p.receiver.id t else t

end StreamReceivers

/-- `head[name].toInt()`. A field that is not there reads as null. -/
def intField (head : Ubj.Object) (name : Bytes) : UInt32 :=
  match OrdMap.find? head name with
  | some v => UInt32.ofBitVec v.toInt
  | none => 0

end Zway.Client
