import Zway.Client.Incoming
import Zway.Lib.Run

/-!
# Receiving messages

Pushes come in, and the resources that they list are transmitted in full and in order,
the streams interleaved in any way. What is kept besides the client is how far each stream
has come, and which resources have been completely received since which push.
-/

namespace Zway.Client

structure Receiving where
  incoming : Incoming
  /-- The pushes that have been processed. -/
  pushes : List Push
  /-- How many packets of a resource of a request have been transmitted. -/
  progress : UInt32 → UInt32 → Nat
  /-- The resources that have been completely received, each with the requests that listed it. -/
  received : List (UInt32 × UInt32)

inductive ReceivingEvent where
  | push (p : Push)
  /-- The next packet of a resource of a request. -/
  | packet (requestId id : UInt32)

namespace Receiving

def init : Receiving where
  incoming := ⟨.empty, []⟩
  pushes := []
  progress := fun _ _ => 0
  received := []

section

variable (aes_encrypt : Bytes → Bytes → Bytes) (content : UInt32 → UInt32 → Content)

/-- A packet comes in. -/
def receive (s : Receiving) (requestId id : UInt32) (pkt : Packet) : Receiving :=
  let p := s.incoming.processIncomingPacket aes_encrypt pkt
  { s with
    incoming := p.incoming
    progress := fun requestId' id' =>
      if requestId' = requestId ∧ id' = id then s.progress requestId id + 1
      else s.progress requestId' id'
    received :=
      if p.completed then
        (s.pushes.filter (id ∈ ·.resources)).map (fun p => (p.requestId, id)) ++ s.received
      else s.received }

def step (s : Receiving) : ReceivingEvent → Option Receiving
  | .push p =>
      if p.requestId ∉ s.pushes.map (·.requestId) ∧ p.resources ≠ [] ∧ p.text ≠ [] then
        some
          { s with
            incoming := { s.incoming with records := (s.incoming.records.processPush p).1 }
            pushes := s.pushes ++ [p] }
      else none
  | .packet requestId id =>
      match s.pushes.find? (·.requestId = requestId) with
      | some p =>
          if id ∈ p.resources then
            ((p.packets aes_encrypt id (content requestId id))[s.progress requestId id]?).map
              (s.receive aes_encrypt requestId id)
          else none
      | none => none

end

end Receiving

end Zway.Client
