import Mathlib.Logic.Function.Basic
import Zway.Lib.Run

/-!
# Suspending, resuming and canceling a thread

The loop of a handler thread looks at `m_canceled` and at `m_suspended`, each under its
own mutex, and then waits on one of two conditions: in `waitResume` until somebody
resumes it, in `Handler::wait` until there is work. Nothing looks at the flags again
between a look and a wait, and `resume` notifies only a thread that it finds suspended.
So a thread can wait for a notification that came before: `neverStuck_iff`.
-/

namespace Zway.Thread

/-- Where the thread is. -/
inductive ControlledThread where
  /-- Before `doRun` sets `m_running`. -/
  | created
  /-- At the top of the loop of `run`, before `canceled`. -/
  | top
  /-- Before `suspended`. -/
  | checking
  /-- In `waitResume`, before it waits. -/
  | entering
  | waiting
  /-- With an element, or in `getElements`. -/
  | turn
  /-- In `Handler::wait`, before it waits. -/
  | leaving
  | resting
  /-- `run` has returned. -/
  | finishing
  | ended
  deriving Repr, DecidableEq

/-- `doRun` has set `m_running`, and has not cleared it. -/
def ControlledThread.runs : ControlledThread → Bool
  | .created | .ended => false
  | _ => true

/-- It waits for one of the two conditions. -/
def ControlledThread.waits : ControlledThread → Bool
  | .waiting | .resting => true
  | _ => false

/-- How far a call of another thread has come. `canceling` says whether `resume` was called by
`cancel`. -/
inductive ControlCall where
  | idle
  /-- In `suspend`, of a thread that runs. -/
  | setting
  /-- In `resume`, before `running`. -/
  | resuming (canceling : Bool)
  /-- Before `suspended`. -/
  | seeing (canceling : Bool)
  /-- Of a thread that is suspended. -/
  | clearing (canceling : Bool)
  | notifying (canceling : Bool)
  /-- About to call `Handler::notify`. -/
  | knocking
  deriving Repr, DecidableEq

/-- The end of `resume`. -/
def ControlCall.resumed (canceling : Bool) : ControlCall := if canceling then .knocking else .idle

/-- The call is going to notify a thread in `waitResume`. -/
def ControlCall.Resumes (suspended : Bool) : ControlCall → Prop
  | .clearing _ | .notifying _ => True
  | .resuming _ | .seeing _ => suspended = true
  | _ => False

/-- The call is going to notify a thread in `Handler::wait`. -/
def ControlCall.Knocks : ControlCall → Prop
  | .setting | .knocking => True
  | .resuming canceling | .seeing canceling | .clearing canceling | .notifying canceling =>
      canceling = true
  | .idle => False

theorem ControlCall.Resumes.mono {suspended suspended' : Bool}
    (h : suspended = true → suspended' = true) :
    ∀ {call : ControlCall}, call.Resumes suspended → call.Resumes suspended'
  | .clearing _, _ | .notifying _, _ => trivial
  | .resuming _, hsuspended | .seeing _, hsuspended => h hsuspended

theorem ControlCall.knocks_resumed {canceling : Bool} (h : canceling = true) :
    (resumed canceling).Knocks := by
  rw [h]
  trivial

/-- A thread, and the calls of others that control it. -/
structure Controlled (P : Type) where
  /-- `m_running` -/
  running : Bool
  /-- `m_suspended` -/
  suspended : Bool
  /-- `m_canceled` -/
  canceled : Bool
  thread : ControlledThread
  calls : P → ControlCall

/-- What may happen. -/
inductive ControlEvent (P : Type) where
  | suspend (p : P)
  | setSuspended (p : P)
  | resume (p : P)
  | cancel (p : P)
  | checkRunning (p : P)
  | checkSuspended (p : P)
  | clearSuspended (p : P)
  | notifyResume (p : P)
  /-- `Handler::notify`. -/
  | notify (p : P)
  /-- The thread sets `m_running`. -/
  | begin
  | seeCanceled
  | seeSuspended
  | waitResume
  /-- It wakes without having been notified. -/
  | wakeResume
  /-- It has done what there was, and looks for more, or waits. -/
  | work (more : Bool)
  | wait
  /-- There is work, or it wakes without having been notified. -/
  | wake
  /-- It clears `m_running`. -/
  | finish

namespace Controlled

variable {P : Type}

/-- After `Thread::start`. The flag is kept from before if it is not set. -/
def started (suspended : Bool) : Controlled P where
  running := false
  suspended := suspended
  canceled := false
  thread := .created
  calls := fun _ => .idle

/-- `m_waitResumeCondition.notify_one()`. -/
def notifiedResume (s : Controlled P) : Controlled P :=
  match s.thread with
  | .waiting => { s with thread := .top }
  | _ => s

/-- `m_waitCondition.notify_one()`. -/
def notified (s : Controlled P) : Controlled P :=
  match s.thread with
  | .resting => { s with thread := .top }
  | _ => s

section

variable [DecidableEq P]

/-- A call after a step. -/
def call (s : Controlled P) (p : P) (c : ControlCall) : Controlled P :=
  { s with calls := Function.update s.calls p c }

/-- One step of one thread. -/
def step (s : Controlled P) : ControlEvent P → Option (Controlled P)
  | .suspend p =>
      if s.calls p = .idle then some (s.call p (if s.running then .setting else .knocking)) else none
  | .setSuspended p =>
      if s.calls p = .setting then some { s.call p .knocking with suspended := true } else none
  | .resume p => if s.calls p = .idle then some (s.call p (.resuming false)) else none
  | .cancel p =>
      if s.calls p = .idle then some { s.call p (.resuming true) with canceled := true } else none
  | .checkRunning p =>
      match s.calls p with
      | .resuming canceling =>
          some (s.call p (if s.running then .seeing canceling else .resumed canceling))
      | _ => none
  | .checkSuspended p =>
      match s.calls p with
      | .seeing canceling =>
          some (s.call p (if s.suspended then .clearing canceling else .resumed canceling))
      | _ => none
  | .clearSuspended p =>
      match s.calls p with
      | .clearing canceling => some { s.call p (.notifying canceling) with suspended := false }
      | _ => none
  | .notifyResume p =>
      match s.calls p with
      | .notifying canceling => some (s.notifiedResume.call p (.resumed canceling))
      | _ => none
  | .notify p => if s.calls p = .knocking then some (s.notified.call p .idle) else none
  | .begin =>
      if s.thread = .created then some { s with running := true, thread := .top } else none
  | .seeCanceled =>
      if s.thread = .top then
        some { s with thread := if s.canceled then .finishing else .checking }
      else none
  | .seeSuspended =>
      if s.thread = .checking then
        some { s with thread := if s.suspended then .entering else .turn }
      else none
  | .waitResume => if s.thread = .entering then some { s with thread := .waiting } else none
  | .wakeResume => if s.thread = .waiting then some { s with thread := .top } else none
  | .work more =>
      if s.thread = .turn then some { s with thread := if more then .top else .leaving } else none
  | .wait => if s.thread = .leaving then some { s with thread := .resting } else none
  | .wake => if s.thread = .resting then some { s with thread := .top } else none
  | .finish =>
      if s.thread = .finishing then some { s with running := false, thread := .ended } else none

end

/-! ## Waiting in vain -/

/-- There is a reason not to wait in `waitResume`. -/
def Released (s : Controlled P) : Prop := s.suspended = false ∨ s.canceled = true

/-- Somebody is going to notify a thread in `waitResume`. -/
def Resumes (s : Controlled P) : Prop := ∃ p, (s.calls p).Resumes s.suspended

/-- Somebody is going to notify a thread in `Handler::wait`. -/
def Knocks (s : Controlled P) : Prop := ∃ p, (s.calls p).Knocks

/-- **The thread waits, though it was resumed or canceled, and nobody is going to notify it.** -/
def Stuck (s : Controlled P) : Prop :=
  (s.thread = .waiting ∧ s.Released ∧ ¬ s.Resumes)
    ∨ (s.thread = .resting ∧ s.canceled = true ∧ ¬ s.Knocks)

/-- The thread begins to wait only where there is no reason against it, or where somebody is going
to notify it. -/
def Watched (s : Controlled P) : ControlEvent P → Prop
  | .waitResume => s.Released → s.Resumes
  | .wait => s.canceled = true → s.Knocks
  | _ => True

/-- A thread that waits in vain is going to be notified. -/
structure Answered (s : Controlled P) : Prop where
  running : s.running = s.thread.runs
  resumes : s.thread = .waiting → s.Released → s.Resumes
  knocks : s.thread = .resting → s.canceled = true → s.Knocks

theorem answered_started (suspended : Bool) : Answered (started suspended : Controlled P) where
  running := rfl
  resumes := fun h => by cases h
  knocks := fun h => by cases h

theorem Answered.not_stuck {s : Controlled P} (h : Answered s) : ¬ s.Stuck := by
  rintro (⟨hwaiting, hreleased, hnobody⟩ | ⟨hresting, hcanceled, hnobody⟩)
  · exact hnobody (h.resumes hwaiting hreleased)
  · exact hnobody (h.knocks hresting hcanceled)

/-- A thread that waits runs. -/
theorem Answered.running_of_thread {s : Controlled P} (h : Answered s)
    (hthread : s.thread = .waiting ∨ s.thread = .resting) : s.running = true := by
  rw [h.running]
  rcases hthread with hthread | hthread
  · rw [hthread]
    rfl
  · rw [hthread]
    rfl

/-- A thread that goes on from a place where it runs, to one where it runs and does not wait. -/
theorem Answered.goes {s s' : Controlled P} (h : Answered s) {before : ControlledThread}
    (hbefore : s.thread = before) (hruns : before.runs = true) (hrunning : s'.running = s.running)
    (hgoes : s'.thread.runs = true ∧ s'.thread.waits = false) : Answered s' where
  running := by
    rw [hrunning, h.running, hbefore, hruns, hgoes.1]
  resumes := by
    intro hwaiting
    rw [hwaiting] at hgoes
    cases hgoes.2
  knocks := by
    intro hresting
    rw [hresting] at hgoes
    cases hgoes.2

variable [DecidableEq P]

theorem call_self (s : Controlled P) (p : P) (c : ControlCall) : (s.call p c).calls p = c :=
  Function.update_self ..

theorem call_of_ne (s : Controlled P) {p q : P} (c : ControlCall) (h : q ≠ p) :
    (s.call p c).calls q = s.calls q := Function.update_of_ne h ..

/-- **A call goes on**, and the thread stays. Either the call is still going to notify the thread, or
it was not, and the reason not to wait is not new. -/
theorem Answered.call {s : Controlled P} (h : Answered s) {p : P} {c : ControlCall}
    {suspended canceled : Bool}
    (hresumes : s.thread = .waiting → suspended = false ∨ canceled = true →
      c.Resumes suspended ∨ s.Released ∧ ¬ (s.calls p).Resumes s.suspended
        ∧ (s.suspended = true → suspended = true))
    (hknocks : s.thread = .resting → canceled = true →
      c.Knocks ∨ s.canceled = true ∧ ¬ (s.calls p).Knocks) :
    Answered { s.call p c with suspended := suspended, canceled := canceled } where
  running := h.running
  resumes := by
    intro hwaiting hreleased
    rcases hresumes hwaiting hreleased with hp | ⟨hbefore, hp, hsuspended⟩
    · refine ⟨p, ?_⟩
      show ((s.call p c).calls p).Resumes suspended
      rw [call_self]
      exact hp
    · obtain ⟨q, hq⟩ := h.resumes hwaiting hbefore
      have hne : q ≠ p := by
        rintro rfl
        exact hp hq
      refine ⟨q, ?_⟩
      show ((s.call p c).calls q).Resumes suspended
      rw [s.call_of_ne c hne]
      exact hq.mono hsuspended
  knocks := by
    intro hresting hcanceled
    rcases hknocks hresting hcanceled with hp | ⟨hbefore, hp⟩
    · refine ⟨p, ?_⟩
      show ((s.call p c).calls p).Knocks
      rw [call_self]
      exact hp
    · obtain ⟨q, hq⟩ := h.knocks hresting hbefore
      have hne : q ≠ p := by
        rintro rfl
        exact hp hq
      refine ⟨q, ?_⟩
      show ((s.call p c).calls q).Knocks
      rw [s.call_of_ne c hne]
      exact hq

omit [DecidableEq P] in
theorem notifiedResume_cases (s : Controlled P) :
    (s.thread = .waiting ∧ s.notifiedResume = { s with thread := .top })
      ∨ (s.thread ≠ .waiting ∧ s.notifiedResume = s) := by
  unfold notifiedResume
  cases s.thread with
  | waiting => exact .inl ⟨rfl, rfl⟩
  | _ => exact .inr ⟨fun h => (by cases h), rfl⟩

omit [DecidableEq P] in
theorem notified_cases (s : Controlled P) :
    (s.thread = .resting ∧ s.notified = { s with thread := .top })
      ∨ (s.thread ≠ .resting ∧ s.notified = s) := by
  unfold notified
  cases s.thread with
  | resting => exact .inl ⟨rfl, rfl⟩
  | _ => exact .inr ⟨fun h => (by cases h), rfl⟩

/-- A call that has not begun, begins. -/
theorem Answered.call_idle {s : Controlled P} (h : Answered s) {p : P} (hp : s.calls p = .idle)
    (c : ControlCall) : Answered (s.call p c) := by
  refine h.call (fun _ hreleased => .inr ⟨hreleased, ?_, id⟩) (fun _ hcanceled => .inr ⟨hcanceled, ?_⟩)
  · rw [hp]
    exact id
  · rw [hp]
    exact id

/-! ## Steps -/

/-- What a step does: a call goes on, or the thread does. -/
inductive Moved (s : Controlled P) : ControlEvent P → Controlled P → Prop
  /-- A call begins. -/
  | calls {e : ControlEvent P} {p : P} {c : ControlCall} (hp : s.calls p = .idle) :
      Moved s e (s.call p c)
  | cancels {p : P} (hp : s.calls p = .idle) :
      Moved s (.cancel p) { s.call p (.resuming true) with canceled := true }
  | sets {p : P} (hp : s.calls p = .setting) :
      Moved s (.setSuspended p) { s.call p .knocking with suspended := true }
  | seesRunning {p : P} {canceling : Bool} (hp : s.calls p = .resuming canceling) :
      Moved s (.checkRunning p)
        (s.call p (if s.running then .seeing canceling else .resumed canceling))
  | seesSuspended {p : P} {canceling : Bool} (hp : s.calls p = .seeing canceling) :
      Moved s (.checkSuspended p)
        (s.call p (if s.suspended then .clearing canceling else .resumed canceling))
  | clears {p : P} {canceling : Bool} (hp : s.calls p = .clearing canceling) :
      Moved s (.clearSuspended p) { s.call p (.notifying canceling) with suspended := false }
  | notifiesResume {p : P} {canceling : Bool} (hp : s.calls p = .notifying canceling) :
      Moved s (.notifyResume p) (s.notifiedResume.call p (.resumed canceling))
  | notifies {p : P} (hp : s.calls p = .knocking) : Moved s (.notify p) (s.notified.call p .idle)
  /-- The thread goes on to a place where it does not wait. -/
  | goes {e : ControlEvent P} {before after : ControlledThread} (hthread : s.thread = before)
      (hbefore : before.runs = true) (hafter : after.runs = true ∧ after.waits = false) :
      Moved s e { s with thread := after }
  | waits (hthread : s.thread = .entering) : Moved s .waitResume { s with thread := .waiting }
  | rests (hthread : s.thread = .leaving) : Moved s .wait { s with thread := .resting }
  /-- The thread begins, or has ended. -/
  | turns {e : ControlEvent P} {running : Bool} {thread : ControlledThread}
      (hruns : running = thread.runs) (hwaits : thread.waits = false) :
      Moved s e { s with running := running, thread := thread }

/-- **The steps of a thread and of those who control it.** -/
theorem moved_of_step {s s' : Controlled P} {e : ControlEvent P} (h : step s e = some s') :
    s.Moved e s' := by
  unfold step at h
  cases e with
  | suspend p | resume p =>
    obtain ⟨hp, he⟩ := Option.ite_none_right_eq_some.mp h
    exact Option.some.inj he ▸ .calls hp
  | cancel p =>
    obtain ⟨hp, he⟩ := Option.ite_none_right_eq_some.mp h
    exact Option.some.inj he ▸ .cancels hp
  | setSuspended p =>
    obtain ⟨hp, he⟩ := Option.ite_none_right_eq_some.mp h
    exact Option.some.inj he ▸ .sets hp
  | checkRunning p =>
    dsimp only at h
    split at h
    · rename_i canceling hp
      exact Option.some.inj h ▸ .seesRunning hp
    · cases h
  | checkSuspended p =>
    dsimp only at h
    split at h
    · rename_i canceling hp
      exact Option.some.inj h ▸ .seesSuspended hp
    · cases h
  | clearSuspended p =>
    dsimp only at h
    split at h
    · rename_i canceling hp
      exact Option.some.inj h ▸ .clears hp
    · cases h
  | notifyResume p =>
    dsimp only at h
    split at h
    · rename_i canceling hp
      exact Option.some.inj h ▸ .notifiesResume hp
    · cases h
  | notify p =>
    obtain ⟨hp, he⟩ := Option.ite_none_right_eq_some.mp h
    exact Option.some.inj he ▸ .notifies hp
  | begin | finish =>
    obtain ⟨-, he⟩ := Option.ite_none_right_eq_some.mp h
    exact Option.some.inj he ▸ .turns rfl rfl
  | seeCanceled | seeSuspended | work more =>
    obtain ⟨hthread, he⟩ := Option.ite_none_right_eq_some.mp h
    refine Option.some.inj he ▸ .goes hthread rfl ?_
    split <;> exact ⟨rfl, rfl⟩
  | wakeResume | wake =>
    obtain ⟨hthread, he⟩ := Option.ite_none_right_eq_some.mp h
    exact Option.some.inj he ▸ .goes hthread rfl ⟨rfl, rfl⟩
  | waitResume =>
    obtain ⟨hthread, he⟩ := Option.ite_none_right_eq_some.mp h
    exact Option.some.inj he ▸ .waits hthread
  | wait =>
    obtain ⟨hthread, he⟩ := Option.ite_none_right_eq_some.mp h
    exact Option.some.inj he ▸ .rests hthread

omit [DecidableEq P] in
/-- A call that is canceling goes on to knock, and another one was not going to. -/
theorem knocks_or {s : Controlled P} {p : P} (canceling : Bool) {c : ControlCall}
    (hp : (s.calls p).Knocks → canceling = true) (hc : canceling = true → c.Knocks)
    (hcanceled : s.canceled = true) :
    c.Knocks ∨ s.canceled = true ∧ ¬ (s.calls p).Knocks := by
  cases canceling with
  | true => exact .inl (hc rfl)
  | false => exact .inr ⟨hcanceled, fun hknocks => Bool.false_ne_true (hp hknocks)⟩

/-- **Every step that is watched keeps it.** -/
theorem answered_step (s : Controlled P) (e : ControlEvent P) (s' : Controlled P)
    (h : Answered s) (hgood : Watched s e) (hstep : step s e = some s') : Answered s' := by
  cases moved_of_step hstep with
  | calls hp => exact h.call_idle hp _
  | cancels hp =>
    refine h.call (fun _ _ => ?_) (fun _ _ => .inl rfl)
    by_cases hsuspended : s.suspended = true
    · exact .inl hsuspended
    · refine .inr ⟨.inl (Bool.eq_false_iff.mpr hsuspended), ?_, id⟩
      rw [hp]
      exact id
  | sets hp =>
    -- the flag is set, so only a canceled thread is released
    refine h.call (fun _ hreleased => .inr ⟨.inr ?_, ?_, fun _ => rfl⟩) (fun _ _ => .inl trivial)
    · exact hreleased.resolve_left (fun hfalse => by cases hfalse)
    · rw [hp]
      exact id
  | @seesRunning p canceling hp =>
    refine h.call (fun hwaiting hreleased => ?_) (fun hresting hcanceled => ?_)
    · -- a thread that waits is running, so the call goes on to look at the flag
      rw [h.running_of_thread (.inl hwaiting), hp]
      cases hsuspended : s.suspended with
      | true => exact .inl rfl
      | false => exact .inr ⟨.inl hsuspended, Bool.false_ne_true, id⟩
    · rw [h.running_of_thread (.inr hresting)]
      exact knocks_or canceling (fun hknocks => by rw [hp] at hknocks; exact hknocks) id hcanceled
  | @seesSuspended p canceling hp =>
    refine h.call (fun hwaiting hreleased => ?_) (fun hresting hcanceled => ?_)
    · rw [hp]
      cases hsuspended : s.suspended with
      | true => exact .inl trivial
      | false => exact .inr ⟨.inl hsuspended, Bool.false_ne_true, id⟩
    · refine knocks_or canceling (fun hknocks => by rw [hp] at hknocks; exact hknocks)
        (fun hc => ?_) hcanceled
      split
      · exact hc
      · exact ControlCall.knocks_resumed hc
  | @clears p canceling hp =>
    refine h.call (fun _ _ => .inl trivial) (fun _ hcanceled => ?_)
    exact knocks_or canceling (fun hknocks => by rw [hp] at hknocks; exact hknocks) id hcanceled
  | @notifiesResume p canceling hp =>
    rcases s.notifiedResume_cases with ⟨hwaiting, hnotify⟩ | ⟨hwaiting, hnotify⟩
    · rw [hnotify]
      exact h.goes hwaiting rfl rfl ⟨rfl, rfl⟩
    · -- nobody waits to be resumed
      rw [hnotify]
      refine h.call (fun hwaiting' => absurd hwaiting' hwaiting) (fun _ hcanceled => ?_)
      exact knocks_or canceling (fun hknocks => by rw [hp] at hknocks; exact hknocks)
        ControlCall.knocks_resumed hcanceled
  | notifies hp =>
    rcases s.notified_cases with ⟨hresting, hnotify⟩ | ⟨hresting, hnotify⟩
    · rw [hnotify]
      exact h.goes hresting rfl rfl ⟨rfl, rfl⟩
    · rw [hnotify]
      refine h.call (fun _ hreleased => .inr ⟨hreleased, ?_, id⟩)
        (fun hresting' => absurd hresting' hresting)
      rw [hp]
      exact id
  | goes hthread hbefore hafter => exact h.goes hthread hbefore rfl hafter
  | waits hthread =>
    -- what is watched is what is asked for
    refine ⟨?_, fun _ => hgood, fun h => (by cases h)⟩
    rw [h.running, hthread]
    rfl
  | rests hthread =>
    refine ⟨?_, fun h => (by cases h), fun _ => hgood⟩
    rw [h.running, hthread]
    rfl
  | @turns _ _ thread hruns hwaits =>
    refine ⟨hruns, fun (hwaiting : thread = .waiting) => ?_, fun (hresting : thread = .resting) => ?_⟩
    · rw [hwaiting] at hwaits
      cases hwaits
    · rw [hresting] at hwaits
      cases hwaits

/-- **A step that is not watched leaves the thread stuck.** -/
theorem stuck_of_unwatched (s : Controlled P) (e : ControlEvent P) (s' : Controlled P)
    (hbad : ¬ Watched s e) (hstep : step s e = some s') : s'.Stuck := by
  unfold step at hstep
  cases e with
  | waitResume =>
    obtain ⟨hreleased, hnobody⟩ := Classical.not_imp.mp hbad
    obtain ⟨-, he⟩ := Option.ite_none_right_eq_some.mp hstep
    obtain rfl := Option.some.inj he
    exact .inl ⟨rfl, hreleased, hnobody⟩
  | wait =>
    obtain ⟨hcanceled, hnobody⟩ := Classical.not_imp.mp hbad
    obtain ⟨-, he⟩ := Option.ite_none_right_eq_some.mp hstep
    obtain rfl := Option.some.inj he
    exact .inr ⟨rfl, hcanceled, hnobody⟩
  | _ => exact absurd trivial hbad

/-- **The thread is never stuck exactly if** it begins to wait only where there is no reason against
it, or where somebody is going to notify it. -/
theorem neverStuck_iff {suspended : Bool} {es : List (ControlEvent P)} {s : Controlled P}
    (hrun : Steps.run step (started suspended) es = some s) :
    (∀ es₁ s₁, es₁ <+: es → Steps.run step (started suspended) es₁ = some s₁ → ¬ s₁.Stuck)
      ↔ Steps.Meets step Watched (started suspended) es := by
  constructor
  · intro h
    exact Steps.meets_of_prefixes stuck_of_unwatched hrun h
  · rintro hmeets es₁ s₁ ⟨es₂, rfl⟩ hrun₁
    exact (Steps.run_invariant_of_meets answered_step (answered_started suspended)
      hmeets.of_append hrun₁).not_stuck

/-- The thread waits for work, and then it is canceled. -/
theorem neverStuck_iff_canceled :
    ∃ s, Steps.run step (started false) [.begin, .seeCanceled, .seeSuspended, .work false, .wait,
        .cancel (), .checkRunning (), .checkSuspended (), .notify (), .seeCanceled, .finish] = some s
      ∧ s.thread = .ended
      ∧ ∀ es₁ s₁, es₁ <+: [.begin, .seeCanceled, .seeSuspended, .work false, .wait,
          .cancel (), .checkRunning (), .checkSuspended (), .notify (), .seeCanceled, .finish] →
        Steps.run step (started false) es₁ = some s₁ → ¬ s₁.Stuck := by
  refine ⟨_, rfl, rfl, (neverStuck_iff rfl).mpr ?_⟩
  refine .cons trivial rfl <| .cons trivial rfl <| .cons trivial rfl <| .cons trivial rfl ?_
  refine .cons (fun hcanceled => by cases hcanceled) rfl ?_
  refine .cons trivial rfl <| .cons trivial rfl <| .cons trivial rfl <| .cons trivial rfl ?_
  exact .cons trivial rfl <| .cons trivial rfl trivial

/-- The thread is canceled before it waits for work. It is suspended, and resumed before it waits
for that. -/
theorem stuck_notified :
    (∃ s, Steps.run step (started false) [.begin, .seeCanceled, .seeSuspended, .work false,
        .cancel (), .checkRunning (), .checkSuspended (), .notify (), .wait] = some s
      ∧ s.Stuck ∧ s.calls () = .idle)
    ∧ ∃ s, Steps.run step (started true) [.begin, .seeCanceled, .seeSuspended, .resume (),
        .checkRunning (), .checkSuspended (), .clearSuspended (), .notifyResume (), .waitResume]
          = some s
      ∧ s.Stuck ∧ s.calls () = .idle := by
  refine ⟨⟨_, rfl, .inr ⟨rfl, rfl, ?_⟩, rfl⟩, ⟨_, rfl, .inl ⟨rfl, .inl rfl, ?_⟩, rfl⟩⟩
  · rintro ⟨p, hp⟩
    exact hp
  · rintro ⟨p, hp⟩
    exact hp

end Controlled

end Zway.Thread
