import Mathlib.Logic.Function.Basic
import Zway.Lib.Run

/-!
# Handler threads

`Handler` is a queue and a thread that takes elements from it. The queue, the busy flag
and the condition variable have a mutex each, and what a thread does under one of them is
one step. The thread that finds nothing to do clears the flag and waits; a thread that
posts an element wakes it unless the flag is set.

What a class derived from `Handler` adds are `getElements` and other ways to leave work
for the thread. Nothing looks at the queue again when the thread begins to wait, so it
may sleep on work that is left in between. It does not if nobody leaves any between its look
and its wait, and no round ends before its time: `not_stuck_of_undisturbed`.
-/

namespace Zway.Thread

/-- What a class derived from `Handler<T>` adds: a state `σ`, the steps `ρ` of its `getElements`,
and work `α` that others leave in its state. -/
structure HandlerVirtuals (T σ ρ α : Type) where
  start : ρ
  /-- One step of `getElements`; it goes on, or returns. -/
  getElements : ρ → σ → List T → (ρ ⊕ Bool) × σ × List T
  /-- Leave work in the state, if it is accepted. -/
  add : α → σ → Option σ
  /-- There is work left in the state. -/
  Unfinished : σ → Prop

/-- What the rounds of `getElements` need, if the thread is not to miss anything. -/
structure HandlerVirtuals.Rounds {T σ ρ α : Type} (virtuals : HandlerVirtuals T σ ρ α) where
  /-- What a round takes for granted of the queue that the thread has seen empty. -/
  Seen : ρ → List T → Prop
  /-- The round does not end before its time. -/
  Whole : ρ → σ → List T → Prop
  start : Seen virtuals.start []
  next : ∀ {round round' : ρ} {sub sub' : σ} {queue queue' : List T}, Seen round queue →
    virtuals.getElements round sub queue = (.inl round', sub', queue') → Seen round' queue'
  /-- A round with no elements leaves nothing. -/
  last : ∀ {round : ρ} {sub sub' : σ} {queue queue' : List T}, Seen round queue →
    Whole round sub queue → virtuals.getElements round sub queue = (.inr false, sub', queue') →
    queue' = [] ∧ ¬ virtuals.Unfinished sub'

/-- Where the handler thread is. -/
inductive HandlerThread (ρ : Type) where
  /-- At the top of the loop of `Handler::run`. -/
  | top
  | processing
  /-- It has seen an empty queue, and is in `getElements`. -/
  | getting (round : ρ)
  /-- In `Handler::wait`, before it clears the flag. -/
  | leaving
  /-- Before it waits. -/
  | unlocked
  | waiting
  /-- Before it sets the flag again. -/
  | woken

/-- After a step of `getElements`. -/
def HandlerThread.got {ρ : Type} : ρ ⊕ Bool → HandlerThread ρ
  | .inl round => .getting round
  | .inr true => .top
  | .inr false => .leaving

theorem HandlerThread.got_eq_getting {ρ : Type} {next : ρ ⊕ Bool} {round : ρ}
    (h : HandlerThread.got next = .getting round) : next = .inl round := by
  rcases next with next | _ | _
  · exact congrArg Sum.inl (HandlerThread.getting.inj h)
  · cases h
  · cases h

/-- It is about to wait. -/
def HandlerThread.GaveUp {ρ : Type} : HandlerThread ρ → Prop
  | .leaving | .unlocked => True
  | _ => False

/-- It has looked at the queue, and does not wait yet. -/
def HandlerThread.Looked {ρ : Type} : HandlerThread ρ → Prop
  | .getting _ => True
  | thread => thread.GaveUp

/-- How far a call that leaves work for the thread has come. -/
inductive Post where
  | idle
  /-- In `Handler::post`, the element is in the queue. -/
  | pushed
  /-- It is about to notify. -/
  | notifying
  | done
  deriving Repr, DecidableEq

/-- It has left work, and may still notify. -/
def Post.UnderWay (post : Post) : Prop := post = .pushed ∨ post = .notifying

structure Handler (T σ ρ P : Type) where
  /-- `m_queue` -/
  queue : List T
  /-- The state of the derived class. -/
  sub : σ
  /-- `m_busy` -/
  busy : Bool
  thread : HandlerThread ρ
  posts : P → Post

/-- What may happen. -/
inductive HandlerEvent (T α P : Type) where
  /-- `post` puts an element in the queue. -/
  | push (p : P) (element : T)
  | checkBusy (p : P)
  | notify (p : P)
  | add (p : P) (work : α)
  /-- The thread looks at the front of the queue. -/
  | front
  | popFront
  | getElements
  | clearBusy
  | wait
  /-- The thread wakes without having been notified. -/
  | wake
  | setBusy

namespace Handler

variable {T σ ρ α P : Type}

def init (sub : σ) : Handler T σ ρ P where
  queue := []
  sub := sub
  busy := false
  thread := .top
  posts := fun _ => .idle

section

variable (virtuals : HandlerVirtuals T σ ρ α) [DecidableEq P]

/-- A call after a step. -/
def call (s : Handler T σ ρ P) (p : P) (post : Post) : Handler T σ ρ P :=
  { s with posts := Function.update s.posts p post }

/-- `Handler::notify`. Without a thread that waits it has no effect. -/
def notifyOne (s : Handler T σ ρ P) : Handler T σ ρ P :=
  match s.thread with
  | .waiting => { s with thread := .woken }
  | _ => s

/-- One step of one thread. -/
def step (s : Handler T σ ρ P) : HandlerEvent T α P → Option (Handler T σ ρ P)
  | .push p element =>
      if s.posts p = .idle then some { s.call p .pushed with queue := s.queue ++ [element] }
      else none
  | .checkBusy p =>
      if s.posts p = .pushed then some (s.call p (if s.busy then .done else .notifying)) else none
  | .notify p =>
      if s.posts p = .notifying then some (s.notifyOne.call p .done) else none
  | .add p work =>
      if s.posts p = .idle then
        match virtuals.add work s.sub with
        | some sub => some { s.call p .notifying with sub := sub }
        | none => some (s.call p .done)
      else none
  | .front =>
      match s.thread, s.queue with
      | .top, [] => some { s with thread := .getting virtuals.start }
      | .top, _ :: _ => some { s with thread := .processing }
      | _, _ => none
  | .popFront =>
      match s.thread with
      | .processing => some
          { s with
            queue := s.queue.tail
            thread := .top }
      | _ => none
  | .getElements =>
      match s.thread with
      | .getting round =>
          let got := virtuals.getElements round s.sub s.queue
          some
            { s with
              sub := got.2.1
              queue := got.2.2
              thread := .got got.1 }
      | _ => none
  | .clearBusy =>
      match s.thread with
      | .leaving => some { s with busy := false, thread := .unlocked }
      | _ => none
  | .wait =>
      match s.thread with
      | .unlocked => some { s with thread := .waiting }
      | _ => none
  | .wake =>
      match s.thread with
      | .waiting => some { s with thread := .woken }
      | _ => none
  | .setBusy =>
      match s.thread with
      | .woken => some { s with busy := true, thread := .top }
      | _ => none

/-! ## Work that is left -/

/-- There is something for the thread to do. -/
def Work (s : Handler T σ ρ P) : Prop := s.queue ≠ [] ∨ virtuals.Unfinished s.sub

/-- The thread is blocked, nobody is going to wake it, and there is something to do. -/
def Stuck (s : Handler T σ ρ P) : Prop :=
  s.thread = .waiting ∧ (∀ p, ¬ (s.posts p).UnderWay) ∧ s.Work virtuals

variable {virtuals} (rounds : virtuals.Rounds)

/-- **The order of events that the thread relies on**: nothing is posted between its look at the
queue and its wait, nothing else is left for it after it has given up, and no round ends before its
time. -/
def Undisturbed (s : Handler T σ ρ P) : HandlerEvent T α P → Prop
  | .push _ _ => ¬ s.thread.Looked
  | .add _ _ => ¬ s.thread.GaveUp
  | .getElements => ∀ round, s.thread = .getting round → rounds.Whole round s.sub s.queue
  | _ => True

/-- **The invariant**: a thread that has given up has nothing to do, and one that waits is going to
be woken if there is something to do. -/
structure Awake (s : Handler T σ ρ P) : Prop where
  busy : s.thread = .unlocked ∨ s.thread = .waiting → s.busy = false
  seen : ∀ round, s.thread = .getting round → rounds.Seen round s.queue
  idle : s.thread.GaveUp → ¬ s.Work virtuals
  watched : s.thread = .waiting → s.Work virtuals → ∃ p, (s.posts p).UnderWay

omit [DecidableEq P] in
theorem awake_init (sub : σ) : Awake rounds (init sub : Handler T σ ρ P) where
  busy := fun h => h.elim (fun h => by cases h) (fun h => by cases h)
  seen := fun _ h => by cases h
  idle := fun h => h.elim
  watched := fun h => by cases h

variable {rounds}

omit [DecidableEq P] in
/-- A thread that is at work. -/
theorem Awake.of_thread {s : Handler T σ ρ P} (hlooked : ¬ s.thread.Looked)
    (hwaiting : s.thread ≠ .waiting) : Awake rounds s where
  busy := fun h => h.elim (fun h => absurd (h ▸ trivial : s.thread.Looked) hlooked)
    (fun h => absurd h hwaiting)
  seen := fun _ h => absurd (h ▸ trivial : s.thread.Looked) hlooked
  idle := by
    intro h
    refine absurd ?_ hlooked
    cases hthread : s.thread with
    | leaving => trivial
    | unlocked => trivial
    | _ =>
      rw [hthread] at h
      exact h.elim
  watched := fun h => absurd h hwaiting

/-- A call that is under way with work that it has left. -/
theorem Awake.call {s : Handler T σ ρ P} (h : Awake rounds s) {p : P} {post : Post}
    (hpost : post.UnderWay) {queue : List T} {sub : σ}
    (hseen : ∀ round, s.thread = .getting round → rounds.Seen round queue)
    (hidle : s.thread.GaveUp → ¬ (queue ≠ [] ∨ virtuals.Unfinished sub)) :
    Awake rounds { s.call p post with queue := queue, sub := sub } where
  busy := h.busy
  seen := hseen
  idle := hidle
  watched := by
    intro _ _
    refine ⟨p, ?_⟩
    show (Function.update s.posts p post p).UnderWay
    rw [Function.update_self]
    exact hpost

/-- A call of someone who has left no work. -/
theorem Awake.refused {s : Handler T σ ρ P} (h : Awake rounds s) {p : P}
    (hp : ¬ (s.posts p).UnderWay) (post : Post) : Awake rounds (s.call p post) where
  busy := h.busy
  seen := h.seen
  idle := h.idle
  watched := by
    intro hwaiting hwork
    obtain ⟨q, hq⟩ := h.watched hwaiting hwork
    refine ⟨q, ?_⟩
    have hne : q ≠ p := by
      rintro rfl
      exact hp hq
    show (Function.update s.posts p post q).UnderWay
    rw [Function.update_of_ne hne]
    exact hq

omit [DecidableEq P] in
/-- A notified thread does not wait. -/
theorem notifyOne_cases (s : Handler T σ ρ P) :
    (s.thread = .waiting ∧ s.notifyOne = { s with thread := .woken })
      ∨ (s.thread ≠ .waiting ∧ s.notifyOne = s) := by
  unfold notifyOne
  cases s.thread with
  | waiting => exact .inl ⟨rfl, rfl⟩
  | _ => exact .inr ⟨fun h => (by cases h), rfl⟩

omit [DecidableEq P] in
/-- **A step of a round** goes on, finds something, or leaves nothing to do. -/
theorem Awake.got {s : Handler T σ ρ P} (h : Awake rounds s) {round : ρ}
    (hthread : s.thread = .getting round) (hwhole : rounds.Whole round s.sub s.queue)
    {got : ρ ⊕ Bool} {sub : σ} {queue : List T}
    (hgot : virtuals.getElements round s.sub s.queue = (got, sub, queue)) :
    Awake rounds
      { s with
        sub := sub
        queue := queue
        thread := .got got } := by
  have hseen := h.seen round hthread
  rcases got with round' | found
  · exact ⟨fun h => h.elim (fun h => by cases h) (fun h => by cases h),
      fun _ heq => HandlerThread.getting.inj heq ▸ rounds.next hseen hgot, fun h => h.elim,
      fun h => by cases h⟩
  · cases found with
    | true => exact .of_thread (fun h => h) (fun h => by cases h)
    | false =>
      obtain ⟨hqueue, hsub⟩ := rounds.last hseen hwhole hgot
      exact ⟨fun h => h.elim (fun h => by cases h) (fun h => by cases h), fun _ h => (by cases h),
        fun _ hwork => hwork.elim (fun hne => hne hqueue) hsub, fun h => by cases h⟩

/-- **Every step of an undisturbed run keeps it.** -/
theorem awake_step (s : Handler T σ ρ P) (e : HandlerEvent T α P) (s' : Handler T σ ρ P)
    (h : Awake rounds s) (hgood : Undisturbed rounds s e) (hstep : step virtuals s e = some s') :
    Awake rounds s' := by
  unfold step at hstep
  cases e with
  | push p element =>
    dsimp only at hstep
    split at hstep
    · obtain rfl := Option.some.inj hstep
      refine h.call (.inl rfl) (fun round hthread => ?_) (fun hgave => ?_)
      · exact absurd (hthread ▸ trivial : s.thread.Looked) hgood
      · refine absurd ?_ hgood
        cases hthread : s.thread with
        | leaving => trivial
        | unlocked => trivial
        | _ =>
          rw [hthread] at hgave
          exact hgave.elim
    · cases hstep
  | checkBusy p =>
    dsimp only at hstep
    split at hstep
    · obtain rfl := Option.some.inj hstep
      by_cases hwaiting : s.thread = .waiting
      · -- the flag is clear while the thread waits
        rw [h.busy (.inr hwaiting)]
        exact h.call (.inr rfl) h.seen h.idle
      · exact ⟨h.busy, h.seen, h.idle, fun hwaiting' => absurd hwaiting' hwaiting⟩
    · cases hstep
  | notify p =>
    dsimp only at hstep
    split at hstep
    · obtain rfl := Option.some.inj hstep
      rcases s.notifyOne_cases with ⟨-, hnotify⟩ | ⟨hwaiting, hnotify⟩
      · rw [hnotify]
        exact .of_thread (fun h => h) (fun h => by cases h)
      · rw [hnotify]
        exact ⟨h.busy, h.seen, h.idle, fun hwaiting' => absurd hwaiting' hwaiting⟩
    · cases hstep
  | add p work =>
    dsimp only at hstep
    split at hstep
    · rename_i hidle
      split at hstep
      · obtain rfl := Option.some.inj hstep
        exact h.call (.inr rfl) h.seen (fun hgave => absurd hgave hgood)
      · obtain rfl := Option.some.inj hstep
        refine h.refused (fun hpost => ?_) _
        rw [hidle] at hpost
        exact hpost.elim (fun hp => by cases hp) (fun hp => by cases hp)
    · cases hstep
  | front =>
    dsimp only at hstep
    split at hstep
    · rename_i hthread hqueue
      obtain rfl := Option.some.inj hstep
      refine ⟨fun h => h.elim (fun h => by cases h) (fun h => by cases h), fun round heq => ?_,
        fun h => h.elim, fun h => by cases h⟩
      rw [← HandlerThread.getting.inj heq]
      exact hqueue ▸ rounds.start
    · obtain rfl := Option.some.inj hstep
      exact .of_thread (fun h => h) (fun h => by cases h)
    · cases hstep
  | popFront =>
    dsimp only at hstep
    split at hstep
    · obtain rfl := Option.some.inj hstep
      exact .of_thread (fun h => h) (fun h => by cases h)
    · cases hstep
  | getElements =>
    dsimp only at hstep
    split at hstep
    · rename_i round hthread
      obtain rfl := Option.some.inj hstep
      exact h.got hthread (hgood round hthread) rfl
    · cases hstep
  | clearBusy =>
    dsimp only at hstep
    split at hstep
    · rename_i hthread
      obtain rfl := Option.some.inj hstep
      exact ⟨fun _ => rfl, fun _ h => (by cases h), fun _ => h.idle (hthread ▸ trivial),
        fun h => by cases h⟩
    · cases hstep
  | wait =>
    dsimp only at hstep
    split at hstep
    · rename_i hthread
      obtain rfl := Option.some.inj hstep
      exact ⟨fun _ => h.busy (.inl hthread), fun _ h => (by cases h), fun h => h.elim,
        fun _ hwork => absurd hwork (h.idle (hthread ▸ trivial))⟩
    · cases hstep
  | wake =>
    dsimp only at hstep
    split at hstep
    · obtain rfl := Option.some.inj hstep
      exact .of_thread (fun h => h) (fun h => by cases h)
    · cases hstep
  | setBusy =>
    dsimp only at hstep
    split at hstep
    · obtain rfl := Option.some.inj hstep
      exact .of_thread (fun h => h) (fun h => by cases h)
    · cases hstep

/-- **The thread never sleeps on work** in a run in which it is not disturbed. -/
theorem not_stuck_of_undisturbed {sub : σ} {es : List (HandlerEvent T α P)} {s : Handler T σ ρ P}
    (hmeets : Steps.Meets (step virtuals) (Undisturbed rounds) (init sub) es)
    (hrun : Steps.run (step virtuals) (init sub) es = some s) : ¬ Stuck virtuals s := by
  have h := Steps.run_invariant_of_meets awake_step (awake_init rounds sub) hmeets hrun
  rintro ⟨hwaiting, hposts, hwork⟩
  obtain ⟨p, hp⟩ := h.watched hwaiting hwork
  exact hposts p hp

end

end Handler

end Zway.Thread
