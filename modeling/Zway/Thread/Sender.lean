import Zway.Stream.Engine
import Zway.Thread.Handler

/-!
# The handler threads there are

`Handler` as it is, for the events of the client and the actions of the store, and the
`Sender` of the client, which takes its packets from the stream senders of the engine.
Both may sleep on work that was left just before they began to wait.
-/

namespace Zway.Thread

/-! ## Handlers without a source of their own -/

/-- `Handler::getElements`. -/
def handlerVirtuals (T : Type) : HandlerVirtuals T Unit Unit Empty where
  start := ()
  getElements := fun _ sub queue => (.inr false, sub, queue)
  add := fun work => nomatch work
  Unfinished := fun _ => False

/-- There are no rounds, so the queue is as it was. -/
def handlerRounds (T : Type) : (handlerVirtuals T).Rounds where
  Seen := fun _ queue => queue = []
  Whole := fun _ _ _ => True
  start := rfl
  next := fun _ hgot => by cases hgot
  last := by
    intro round sub sub' queue queue' hseen _ hgot
    obtain ⟨-, -, rfl⟩ := Prod.mk.inj hgot |>.imp_right Prod.mk.inj
    exact ⟨hseen, fun h => h⟩

/-! ## The sender -/

/-- Where `Sender::getElements` is. -/
inductive SenderRound where
  | start
  /-- There are stream senders. -/
  | counted
  /-- In the loop of `Engine::processStreamSenders`, with the senders still to come. -/
  | round (senders : List Nat)

section

variable {δ : Type} (virtuals : SenderVirtuals δ) (posts : Nat → List (StreamSender δ))

/-- The callback that `Sender::getElements` gives the engine. -/
def pushBack (pkt : Packet) (queue : List Packet) : Bool × List Packet := (true, queue ++ [pkt])

/-- `Sender::getElements`. -/
def getElements : SenderRound → SenderTable δ → List Packet →
    (SenderRound ⊕ Bool) × SenderTable δ × List Packet
  | .start, table, queue =>
      (if table.streamSenders.isEmpty then .inr false else .inl .counted, table, queue)
  | .counted, table, queue => (.inl (.round table.streamSenders), table, queue)
  | .round (h :: senders), table, queue =>
      let turn := processStreamSender virtuals posts true pushBack h ⟨table, queue, 0⟩
      (.inl (.round (if turn.1 then senders else [])), turn.2.table, turn.2.out)
  | .round [], table, queue => (.inr (!queue.isEmpty), table, queue)

/-- A stream sender that is registered and not done. -/
def UnfinishedSender (table : SenderTable δ) : Prop :=
  ∃ h ∈ table.streamSenders, ∃ sender, table.objects[h]? = some sender
    ∧ sender.status ≠ .completed ∧ sender.status ≠ .error

/-- `Sender`. Others leave stream senders, with `Client::addStreamSender`. -/
def senderVirtuals : HandlerVirtuals Packet (SenderTable δ) SenderRound (StreamSender δ) where
  start := .start
  getElements := getElements virtuals posts
  add := fun sender table =>
    if sender.id = 0 then none else some (table.addStreamSender sender)
  Unfinished := UnfinishedSender

/-- A round does not end before its time: one that has made no packet leaves no stream sender that
is not done. -/
def RoundWhole (round : SenderRound) (table : SenderTable δ) (queue : List Packet) : Prop :=
  round = .round [] → queue = [] → ¬ UnfinishedSender table

/-- `getElements` looks at the queue again, unless there are no stream senders. -/
def senderRounds : (senderVirtuals virtuals posts).Rounds where
  Seen := fun round queue => round = .start → queue = []
  Whole := RoundWhole
  start := fun _ => rfl
  next := by
    intro round round' sub sub' queue queue' hseen hgot hstart
    subst hstart
    cases round with
    | start =>
      obtain ⟨hround, -⟩ := Prod.mk.inj hgot
      split at hround
      · cases hround
      · cases hround
    | counted => cases (Prod.mk.inj hgot).1
    | round senders =>
      cases senders with
      | nil => cases (Prod.mk.inj hgot).1
      | cons h senders => cases (Prod.mk.inj hgot).1
  last := by
    intro round sub sub' queue queue' hseen hwhole hgot
    cases round with
    | start =>
      obtain ⟨hround, hrest⟩ := Prod.mk.inj hgot
      obtain ⟨rfl, rfl⟩ := Prod.mk.inj hrest
      split at hround
      · rename_i hempty
        refine ⟨hseen rfl, ?_⟩
        rintro ⟨h, hmem, -⟩
        rw [List.isEmpty_iff.mp hempty] at hmem
        cases hmem
      · cases hround
    | counted => cases (Prod.mk.inj hgot).1
    | round senders =>
      cases senders with
      | nil =>
        obtain ⟨hround, hrest⟩ := Prod.mk.inj hgot
        obtain ⟨rfl, rfl⟩ := Prod.mk.inj hrest
        have hqueue : queue = [] := by simpa using hround
        exact ⟨hqueue, hwhole rfl hqueue⟩
      | cons h senders => cases (Prod.mk.inj hgot).1

end

/-- **No work is lost** in a run in which nobody leaves any between the look of the thread and its
wait, and no round ends before its time. -/
theorem work_of_undisturbed {T δ P : Type} [DecidableEq P] (virtuals : SenderVirtuals δ)
    (posts : Nat → List (StreamSender δ)) :
    (∀ (es : List (HandlerEvent T Empty P)) (s : Handler T Unit Unit P),
      Steps.Meets (Handler.step (handlerVirtuals T)) (Handler.Undisturbed (handlerRounds T))
        (.init ()) es →
      Steps.run (Handler.step (handlerVirtuals T)) (.init ()) es = some s →
      ¬ s.Stuck (handlerVirtuals T))
    ∧ ∀ (es : List (HandlerEvent Packet (StreamSender δ) P))
        (s : Handler Packet (SenderTable δ) SenderRound P),
      Steps.Meets (Handler.step (senderVirtuals virtuals posts))
        (Handler.Undisturbed (senderRounds virtuals posts)) (.init .empty) es →
      Steps.run (Handler.step (senderVirtuals virtuals posts)) (.init .empty) es = some s →
      ¬ s.Stuck (senderVirtuals virtuals posts) := by
  refine ⟨fun es s hmeets hrun => ?_, fun es s hmeets hrun => ?_⟩
  · exact Handler.not_stuck_of_undisturbed hmeets hrun
  · exact Handler.not_stuck_of_undisturbed hmeets hrun

/-- An element is posted and taken, and then the thread waits; the sender waits, and a stream sender
is added. -/
theorem work_of_undisturbed_taken :
    (∃ s, Steps.run (Handler.step (handlerVirtuals Nat)) (.init ())
        [.push () 5, .checkBusy (), .notify (), .front, .popFront, .front, .getElements,
          .clearBusy, .wait] = some s
      ∧ ¬ s.Stuck (handlerVirtuals Nat))
    ∧ ∃ s, Steps.run (Handler.step (senderVirtuals BufferSender.virtuals fun _ => []))
        (.init .empty) [.front, .getElements, .clearBusy, .wait,
          .add () (BufferSender.create 7 Packet.Request (.ofData [1])), .notify ()] = some s
      ∧ ¬ s.Stuck (senderVirtuals BufferSender.virtuals fun _ => []) := by
  obtain ⟨hhandler, hsender⟩ :=
    @work_of_undisturbed Nat _ Unit _ BufferSender.virtuals (fun _ => [])
  constructor
  · obtain ⟨s, hs⟩ : ∃ s, Steps.run (Handler.step (handlerVirtuals Nat))
        (.init () : Handler Nat Unit Unit Unit) [.push () 5, .checkBusy (), .notify (), .front,
          .popFront, .front, .getElements, .clearBusy, .wait] = some s := ⟨_, rfl⟩
    refine ⟨s, hs, hhandler _ _ ?_ hs⟩
    exact .cons (fun h => h) rfl <| .cons trivial rfl <| .cons trivial rfl <| .cons trivial rfl <|
      .cons trivial rfl <| .cons trivial rfl <| .cons (fun _ _ => trivial) rfl <|
      .cons trivial rfl <| .cons trivial rfl trivial
  · obtain ⟨s, hs⟩ : ∃ s, Steps.run (Handler.step (senderVirtuals BufferSender.virtuals fun _ => []))
        (.init .empty : Handler Packet (SenderTable MemoryBuffer) SenderRound Unit)
        [.front, .getElements, .clearBusy, .wait,
          .add () (BufferSender.create 7 Packet.Request (.ofData [1])), .notify ()] = some s :=
      ⟨_, rfl⟩
    refine ⟨s, hs, hsender _ _ ?_ hs⟩
    refine .cons trivial rfl <| .cons (fun round hround => ?_) rfl <| .cons trivial rfl <|
      .cons trivial rfl <| .cons (fun h => h) rfl <| .cons trivial rfl trivial
    obtain rfl := HandlerThread.getting.inj hround
    exact fun h => by cases h

/-- The thread sees an empty queue, and before it waits an element is posted. The sender sees no
stream senders, and before it waits one is added. -/
theorem stuck_disturbed :
    (∃ s, Steps.run (Handler.step (handlerVirtuals Nat)) (.init ())
        [.front, .getElements, .push () 5, .checkBusy (), .notify (), .clearBusy, .wait] = some s
      ∧ s.Stuck (handlerVirtuals Nat) ∧ s.posts () = .done)
    ∧ ∃ s, Steps.run (Handler.step (senderVirtuals BufferSender.virtuals fun _ => []))
        (.init .empty) [.front, .getElements,
          .add () (BufferSender.create 7 Packet.Request (.ofData [1])), .notify (), .clearBusy,
          .wait] = some s
      ∧ s.Stuck (senderVirtuals BufferSender.virtuals fun _ => []) ∧ s.posts () = .done := by
  refine ⟨⟨_, rfl, ⟨rfl, fun _ h => ?_, .inl ?_⟩, rfl⟩, ⟨_, rfl, ⟨rfl, fun _ h => ?_, .inr ?_⟩, rfl⟩⟩
  · exact h.elim (fun h => by cases h) (fun h => by cases h)
  · exact fun h => by cases h
  · exact h.elim (fun h => by cases h) (fun h => by cases h)
  · exact ⟨0, List.mem_singleton_self _, _, rfl, by decide, by decide⟩

end Zway.Thread
