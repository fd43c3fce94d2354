import Zway.Lib.Run

/-!
# Waiting for an action

`Store::processAction` hands an action to the handler thread and waits for it. The
handler thread executes the action, which calls back and notifies; `Action::notify` holds
the mutex of the wait while it notifies, and then sets the flag that `Action::wait` looks
at before it waits. The caller is released if the action notifies at all, and if the flag
is still not set by the time the caller waits: `released_of_signals`.
-/

namespace Zway.Ubj.Store

/-! ## What an action does -/

/-- The classes derived from `Action`. -/
inductive ActionKind where
  | beginTransaction
  | endTransaction
  | query
  | count
  | insert
  | update
  | remove
  | readBlob
  | writeBlob
  deriving Repr, DecidableEq

/-- What `sqlite3_step` returns. -/
inductive StepResult where
  | row
  | done
  | other
  deriving Repr, DecidableEq

/-- What an action meets with in SQLite. -/
structure Attempt where
  /-- `prepareStmt` succeeds. -/
  prepared : Bool
  step : StepResult
  /-- The first column of the row. -/
  column : UInt64
  lastInsertRowid : UInt64
  changes : UInt64
  /-- `openBlob` succeeds. -/
  opened : Bool
  deriving Repr

/-- What an action does that others may notice. -/
inductive Op where
  | callback (error : Bool) (value : Option UInt64)
  /-- The statement is finalized. -/
  | finish
  /-- The blob is closed. -/
  | close
  | endTransaction
  | notify
  deriving Repr, DecidableEq

/-- A call of `execute`, which returns `result`. -/
structure Execution where
  ops : List Op
  result : Bool
  deriving Repr

/-- An action that steps its statement once. Without a callback it says nothing about a statement
that cannot be prepared. -/
def executeStmt (callback : Bool) (attempt : Attempt) (expected : StepResult)
    (value failure : Option UInt64) (after : List Op) : Execution :=
  if ¬ attempt.prepared then
    if callback then ⟨[.callback true failure, .notify], false⟩ else ⟨[], false⟩
  else if attempt.step = expected then
    ⟨.finish :: (if callback then .callback false value :: after else []) ++ [.notify], true⟩
  else ⟨.finish :: (if callback then [.callback true failure] else []) ++ [.notify], false⟩

/-- An action that opens a blob. -/
def executeBlob (callback : Bool) (attempt : Attempt) : Execution :=
  if attempt.opened then
    ⟨(if callback then [.callback false none] else []) ++ [.close, .notify], true⟩
  else ⟨(if callback then [.callback true none] else []) ++ [.notify], false⟩

def BeginTransaction.execute (callback : Bool) (attempt : Attempt) : Execution :=
  executeStmt callback attempt .done none none [.endTransaction]

def EndTransaction.execute (callback : Bool) (attempt : Attempt) : Execution :=
  executeStmt callback attempt .done none none []

/-- `QueryAction::execute`. The callback steps the statement. -/
def QueryAction.execute (callback : Bool) (attempt : Attempt) : Execution :=
  if ¬ attempt.prepared then
    if callback then ⟨[.callback true none, .notify], false⟩ else ⟨[], false⟩
  else ⟨(if callback then [.callback false none] else []) ++ [.finish, .notify], true⟩

def CountAction.execute (callback : Bool) (attempt : Attempt) : Execution :=
  executeStmt callback attempt .row (some attempt.column) (some 0) []

def InsertAction.execute (callback : Bool) (attempt : Attempt) : Execution :=
  executeStmt callback attempt .done (some attempt.lastInsertRowid) none []

def UpdateAction.execute (callback : Bool) (attempt : Attempt) : Execution :=
  executeStmt callback attempt .done (some attempt.changes) (some 0) []

def RemoveAction.execute (callback : Bool) (attempt : Attempt) : Execution :=
  executeStmt callback attempt .done (some attempt.changes) (some 0) []

def ReadBlobAction.execute (callback : Bool) (attempt : Attempt) : Execution :=
  executeBlob callback attempt

def WriteBlobAction.execute (callback : Bool) (attempt : Attempt) : Execution :=
  executeBlob callback attempt

/-- `Action::execute`. -/
def execute : ActionKind → (callback : Bool) → Attempt → Execution
  | .beginTransaction => BeginTransaction.execute
  | .endTransaction => EndTransaction.execute
  | .query => QueryAction.execute
  | .count => CountAction.execute
  | .insert => InsertAction.execute
  | .update => UpdateAction.execute
  | .remove => RemoveAction.execute
  | .readBlob => ReadBlobAction.execute
  | .writeBlob => WriteBlobAction.execute

/-- The statement can be prepared, there is none, or there is a callback. -/
def Signals (kind : ActionKind) (callback : Bool) (attempt : Attempt) : Prop :=
  kind = .readBlob ∨ kind = .writeBlob ∨ attempt.prepared = true ∨ callback = true

theorem notify_mem_executeStmt (callback : Bool) (attempt : Attempt) (expected : StepResult)
    (value failure : Option UInt64) (after : List Op) :
    .notify ∈ (executeStmt callback attempt expected value failure after).ops
      ↔ attempt.prepared = true ∨ callback = true := by
  unfold executeStmt
  cases hprepared : attempt.prepared with
  | false =>
    cases callback with
    | false => simp
    | true => simp
  | true =>
    by_cases hstep : attempt.step = expected
    · simp [hstep]
    · simp [hstep]

theorem notify_mem_executeBlob (callback : Bool) (attempt : Attempt) :
    .notify ∈ (executeBlob callback attempt).ops := by
  unfold executeBlob
  cases attempt.opened with
  | false => simp
  | true => simp

theorem notify_mem_query (callback : Bool) (attempt : Attempt) :
    .notify ∈ (QueryAction.execute callback attempt).ops
      ↔ attempt.prepared = true ∨ callback = true := by
  unfold QueryAction.execute
  cases attempt.prepared with
  | false =>
    cases callback with
    | false => simp
    | true => simp
  | true => simp

/-- **Which actions notify.** -/
theorem notify_mem_execute_iff (kind : ActionKind) (callback : Bool) (attempt : Attempt) :
    .notify ∈ (execute kind callback attempt).ops ↔ Signals kind callback attempt := by
  cases kind with
  | readBlob => exact iff_of_true (notify_mem_executeBlob callback attempt) (.inl rfl)
  | writeBlob => exact iff_of_true (notify_mem_executeBlob callback attempt) (.inr (.inl rfl))
  | query => exact (notify_mem_query callback attempt).trans (by simp [Signals])
  | _ => exact (notify_mem_executeStmt callback attempt _ _ _ _).trans (by simp [Signals])

/-! ## The caller and the handler thread -/

/-- Where the caller is in `Action::wait`. -/
inductive Caller where
  | posted
  /-- It has seen that the action is not done. -/
  | checked
  | waiting
  /-- It has to get the mutex back. -/
  | woken
  | returned
  deriving Repr, DecidableEq

/-- An action that one thread executes and another waits for. -/
structure Waiting where
  /-- `m_done` -/
  done : Bool
  caller : Caller
  /-- What `execute` is still going to do. -/
  ops : List Op
  /-- The handler thread is in `notify`, and holds the mutex of the wait. -/
  notifying : Bool
  deriving Repr

inductive WaitEvent where
  /-- The caller looks at `m_done`. -/
  | check
  | wait
  /-- The caller wakes without having been notified. -/
  | wake
  | relock
  /-- The next thing that `execute` does. -/
  | execute
  | setDone
  deriving Repr, DecidableEq

namespace Waiting

/-- The action has been posted. -/
def init (ops : List Op) : Waiting := ⟨false, .posted, ops, false⟩

/-- `m_waitCondition.notify_one()` -/
def notifyOne : Caller → Caller
  | .waiting => .woken
  | caller => caller

/-- One step of one thread. -/
def step (s : Waiting) : WaitEvent → Option Waiting
  | .check =>
      if s.caller = .posted then
        some { s with caller := if s.done then .returned else .checked }
      else none
  | .wait =>
      if s.caller = .checked ∧ s.notifying = false then some { s with caller := .waiting } else none
  | .wake => if s.caller = .waiting then some { s with caller := .woken } else none
  | .relock =>
      if s.caller = .woken ∧ s.notifying = false then some { s with caller := .returned } else none
  | .execute =>
      match s.notifying, s.ops with
      | false, .notify :: ops =>
          some
            { s with
              caller := notifyOne s.caller
              ops := ops
              notifying := true }
      | false, _ :: ops => some { s with ops := ops }
      | _, _ => none
  | .setDone => if s.notifying then some { s with done := true, notifying := false } else none

/-- `execute` has returned. -/
def Finished (s : Waiting) : Prop := s.ops = [] ∧ s.notifying = false

/-- The action is not done when the caller begins to wait. -/
def InTime (s : Waiting) (e : WaitEvent) : Prop := e = .wait → s.done = false

/-- While the action has not notified it is going to, and a caller waits only then. -/
structure Pending (s : Waiting) : Prop where
  notifies : s.done = false → s.notifying = false → .notify ∈ s.ops
  waiting : s.caller = .waiting → s.done = false ∧ s.notifying = false

theorem pending_init {ops : List Op} (h : .notify ∈ ops) : Pending (init ops) where
  notifies := fun _ _ => h
  waiting := fun hwaiting => by cases hwaiting

/-- A step of the caller after which it does not wait. -/
theorem Pending.caller {s : Waiting} (h : Pending s) {caller : Caller} (hne : caller ≠ .waiting) :
    Pending { s with caller := caller } where
  notifies := h.notifies
  waiting := fun hwaiting => absurd hwaiting hne

theorem notifyOne_ne (caller : Caller) : notifyOne caller ≠ .waiting := by
  cases caller with
  | _ => exact fun h => by cases h

/-- **Every step in time keeps it.** -/
theorem pending_step (s : Waiting) (e : WaitEvent) (s' : Waiting) (h : Pending s)
    (hgood : InTime s e) (hstep : step s e = some s') : Pending s' := by
  unfold step at hstep
  cases e with
  | check =>
    dsimp only at hstep
    split at hstep
    · obtain rfl := Option.some.inj hstep
      refine h.caller ?_
      split
      · exact fun h => by cases h
      · exact fun h => by cases h
    · cases hstep
  | wait =>
    dsimp only at hstep
    split at hstep
    · rename_i hfree
      obtain rfl := Option.some.inj hstep
      exact ⟨h.notifies, fun _ => ⟨hgood rfl, hfree.2⟩⟩
    · cases hstep
  | wake =>
    dsimp only at hstep
    split at hstep
    · obtain rfl := Option.some.inj hstep
      exact h.caller (fun h => by cases h)
    · cases hstep
  | relock =>
    dsimp only at hstep
    split at hstep
    · obtain rfl := Option.some.inj hstep
      exact h.caller (fun h => by cases h)
    · cases hstep
  | execute =>
    dsimp only at hstep
    split at hstep
    · obtain rfl := Option.some.inj hstep
      exact ⟨fun _ hfree => (by cases hfree), fun hwaiting => absurd hwaiting (notifyOne_ne _)⟩
    · rename_i op ops hne hfree hops
      obtain rfl := Option.some.inj hstep
      refine ⟨fun hdone hfree' => ?_, h.waiting⟩
      have hmem := h.notifies hdone hfree'
      rw [hops] at hmem
      refine (List.mem_cons.mp hmem).resolve_left (fun heq => ?_)
      exact hne heq.symm
    · cases hstep
  | setDone =>
    dsimp only at hstep
    split at hstep
    · rename_i hnotifying
      obtain rfl := Option.some.inj hstep
      refine ⟨fun hdone => (by cases hdone), fun hwaiting => ?_⟩
      rw [(h.waiting hwaiting).2] at hnotifying
      cases hnotifying
    · cases hstep

/-- **The caller is released** in every run in which it waits in time, if the statement can be
prepared or there is a callback. -/
theorem released_of_signals (kind : ActionKind) (callback : Bool) (attempt : Attempt)
    (hsignals : Signals kind callback attempt) (es : List WaitEvent) (s : Waiting)
    (hmeets : Steps.Meets step InTime (init (execute kind callback attempt).ops) es)
    (hrun : Steps.run step (init (execute kind callback attempt).ops) es = some s) :
    ¬ (s.Finished ∧ s.caller = .waiting) := by
  have hnotify := (notify_mem_execute_iff kind callback attempt).mpr hsignals
  have h := Steps.run_invariant_of_meets pending_step (pending_init hnotify) hmeets hrun
  rintro ⟨⟨hops, -⟩, hwaiting⟩
  obtain ⟨hdone, hfree⟩ := h.waiting hwaiting
  have hmem := h.notifies hdone hfree
  rw [hops] at hmem
  cases hmem

/-- The caller waits before the action is executed. -/
theorem released_of_signals_query :
    ∃ s, Steps.run step (init (execute .query false ⟨true, .done, 0, 0, 0, false⟩).ops)
        ([.check] ++ [.wait, .execute, .execute, .setDone]) = some s
      ∧ ¬ (s.Finished ∧ s.caller = .waiting) := by
  obtain ⟨s, hs⟩ : ∃ s, Steps.run step
      (init (execute .query false ⟨true, .done, 0, 0, 0, false⟩).ops)
      ([.check] ++ [.wait, .execute, .execute, .setDone]) = some s := ⟨_, rfl⟩
  refine ⟨s, hs, released_of_signals .query false ⟨true, .done, 0, 0, 0, false⟩
    (.inr (.inr (.inl rfl))) _ _ (Steps.Meets.append ?_ ?_) hs⟩
  · exact Steps.meets_of_forall (by simp [InTime])
  · intro s hs
    obtain rfl := Option.some.inj hs
    exact ⟨fun _ => rfl, fun _ _ => Steps.meets_of_forall (by simp [InTime])⟩

/-- A statement that cannot be prepared; and one that is executed after the caller has seen that the
action is not done. -/
theorem not_released :
    (∃ s, Steps.run step (init (execute .query false ⟨false, .other, 0, 0, 0, false⟩).ops)
        [.check, .wait] = some s
      ∧ s.Finished ∧ s.caller = .waiting)
    ∧ ∃ s, Steps.run step (init (execute .query false ⟨true, .done, 0, 0, 0, false⟩).ops)
        [.check, .execute, .execute, .setDone, .wait] = some s
      ∧ s.Finished ∧ s.caller = .waiting :=
  ⟨⟨_, rfl, ⟨rfl, rfl⟩, rfl⟩, ⟨_, rfl, ⟨rfl, rfl⟩, rfl⟩⟩

end Waiting

end Zway.Ubj.Store
