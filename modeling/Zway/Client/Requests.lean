import Mathlib.Logic.Function.Basic
import Zway.Lib.Bytes
import Zway.Lib.OrdMap
import Zway.Lib.Run

/-!
# Pending requests

`m_requests` of the engine, and everything that happens to it: `postRequest`, which any
thread may call, the sender thread, and the thread of the client, which takes in
responses and looks for requests whose time is over. What one thread does under a lock
is one step.

A posting is one call of `postRequest`. Postings are told apart although the objects
they post, or the ids of these, may be the same.
-/

namespace Zway.Client

/-- `Request::Type`. -/
inductive RequestType where
  | dispatch
  | createAccount
  | login
  | logout
  | config
  | addContact
  | createAddCode
  | findContact
  | acceptContact
  | rejectContact
  | contactStatus
  | push
  | pull
  deriving Repr, DecidableEq

/-- What the engine looks at in a `Request`. -/
structure Request where
  type : RequestType
  id : UInt32
  timeout : UInt32
  deriving Repr, DecidableEq

/-- `Request::checkTimeout`, with `m_time`. -/
def Request.checkTimeout (request : Request) (start time : Nat) : Bool :=
  decide (0 < request.timeout.toNat ∧ 0 < start ∧ start + request.timeout.toNat ≤ time)

/-- How far a call of `Engine::postRequest` has come. -/
inductive Call where
  | idle
  /-- After `requestPending`. -/
  | checked
  /-- After `Request::start`. -/
  | started
  /-- After `addStreamSender`. -/
  | registered
  /-- It has returned `true`. -/
  | posted
  /-- It has returned `false`. -/
  | refused
  deriving Repr, DecidableEq

/-- Where the thread of the client is. -/
inductive ClientStep (P : Type) where
  | idle
  /-- The request of a response has been found. -/
  | found (p : P)
  /-- It has processed the response. -/
  | processed (p : P)
  /-- In `Engine::process`: the requests that have been reported, and those still to be. -/
  | sweeping (done todo : List P)
  deriving Repr, DecidableEq

/-- The requests whose entries the thread is going to erase. -/
def ClientStep.handled {P : Type} : ClientStep P → List P
  | idle => []
  | found p => [p]
  | processed p => [p]
  | sweeping done todo => done ++ todo

/-- The requests among them that have had their outcome. -/
def ClientStep.ended {P : Type} : ClientStep P → List P
  | processed p => [p]
  | sweeping done _ => done
  | _ => []

theorem ClientStep.mem_handled {P : Type} {c : ClientStep P} {p : P} (h : p ∈ c.ended) :
    p ∈ c.handled := by
  cases c with
  | idle => cases h
  | found q => cases h
  | processed q => exact h
  | sweeping done todo => exact List.mem_append_left _ h

structure Pending (P : Type) where
  /-- `m_requests` -/
  requests : List (UInt32 × P)
  calls : P → Call
  /-- `m_time` -/
  time : P → Nat
  /-- How many packets of a request are still to be sent, once its sender is registered. -/
  unsent : P → Option Nat
  client : ClientStep P
  /-- How often `processResponse` was called. -/
  processed : P → Nat
  /-- How often a timeout was reported. -/
  reported : P → Nat
  /-- The request was pending, or would have been, when `finish` was called. -/
  finished : P → Bool
  /-- The answer of the peer has been taken in. -/
  answered : P → Bool

/-- What may happen. -/
inductive PendingEvent (P : Type) where
  | check (p : P)
  | start (p : P) (time : Nat) (ok : Bool)
  | register (p : P) (packets : Nat)
  | insert (p : P)
  /-- The sender thread sends a packet. -/
  | send (p : P)
  /-- A response to a request that the peer has received. -/
  | answer (p : P)
  /-- A response with any id. -/
  | response (requestId : UInt32)
  | process
  | erase
  | collect (time : Nat)
  | report
  | eraseAll
  | finish
  | cancelSenders
  deriving Repr, DecidableEq

namespace Pending

variable {P : Type}

def init : Pending P where
  requests := []
  calls := fun _ => .idle
  time := fun _ => 0
  unsent := fun _ => none
  client := .idle
  processed := fun _ => 0
  reported := fun _ => 0
  finished := fun _ => false
  answered := fun _ => false

section

-- the request of each posting
variable (request : P → Request)

/-- `Engine::requestPending`. -/
def requestPending (s : Pending P) (type : RequestType) (id : UInt32) : Bool :=
  if id ≠ 0 then
    s.requests.any (fun it => (request it.2).type = type ∧ (request it.2).id = id)
  else s.requests.any (fun it => (request it.2).type = type)

/-- What `Engine::createStreamReceiver` does first with a complete response. -/
def lookup (s : Pending P) (requestId : UInt32) : Pending P :=
  match OrdMap.find? s.requests requestId with
  | some p => { s with client := .found p }
  | none => s

variable [DecidableEq P]

def call (s : Pending P) (p : P) (c : Call) : Pending P :=
  { s with calls := Function.update s.calls p c }

/-- One step of one thread. -/
def step (s : Pending P) : PendingEvent P → Option (Pending P)
  | .check p =>
      if s.calls p = .idle then
        some (s.call p (if s.requestPending request (request p).type (request p).id then .refused
          else .checked))
      else none
  | .start p time ok =>
      if s.calls p = .checked then
        if ok then some { s.call p .started with time := Function.update s.time p time }
        else some (s.call p .refused)
      else none
  | .register p packets =>
      if s.calls p = .started then
        if (request p).id = 0 then some (s.call p .refused)
        else some
          { s.call p .registered with
            unsent := Function.update s.unsent p (some (packets + 1)) }
      else none
  | .insert p =>
      if s.calls p = .registered then
        some { s.call p .posted with requests := OrdMap.insert (request p).id p s.requests }
      else none
  | .send p =>
      match s.unsent p with
      | some (n + 1) => some { s with unsent := Function.update s.unsent p (some n) }
      | _ => none
  | .answer p =>
      if s.client = .idle ∧ s.unsent p = some 0 then
        some ({ s with answered := Function.update s.answered p true }.lookup (request p).id)
      else none
  | .response requestId => if s.client = .idle then some (s.lookup requestId) else none
  | .process =>
      match s.client with
      | .found p => some
          { s with
            client := .processed p
            processed := Function.update s.processed p (s.processed p + 1) }
      | _ => none
  | .erase =>
      match s.client with
      | .processed p => some
          { s with
            client := .idle
            requests := OrdMap.erase (request p).id s.requests }
      | _ => none
  | .collect time =>
      if s.client = .idle then
        some
          { s with
            client := .sweeping [] ((s.requests.map (·.2)).filter (fun p =>
              (request p).checkTimeout (s.time p) time)) }
      else none
  | .report =>
      match s.client with
      | .sweeping done (p :: todo) => some
          { s with
            client := .sweeping (done ++ [p]) todo
            reported := Function.update s.reported p (s.reported p + 1) }
      | _ => none
  | .eraseAll =>
      match s.client with
      | .sweeping done [] => some
          { s with
            client := .idle
            requests := done.foldl (fun m p => OrdMap.erase (request p).id m) s.requests }
      | _ => none
  | .finish => some
      { s with
        requests := []
        finished := fun p => s.finished p || decide (s.calls p = .posted) }
  | .cancelSenders => some
      { s with unsent := fun p => if s.unsent p = some 0 then some 0 else none }

/-! ## What a step can do -/

/-- Every step there is, with what it needs. -/
inductive Taken (s : Pending P) : PendingEvent P → Pending P → Prop
  | refuse {e : PendingEvent P} {p : P}
      (h : s.calls p = .idle ∨ s.calls p = .checked ∨ s.calls p = .started)
      (he : ∀ q, e ≠ .insert q) : Taken s e (s.call p .refused)
  | check {p : P} (h : s.calls p = .idle) : Taken s (.check p) (s.call p .checked)
  | start {p : P} {time : Nat} {ok : Bool} (h : s.calls p = .checked) :
      Taken s (.start p time ok)
        { s.call p .started with time := Function.update s.time p time }
  | register {p : P} {packets : Nat} (h : s.calls p = .started) :
      Taken s (.register p packets)
        { s.call p .registered with
          unsent := Function.update s.unsent p (some (packets + 1)) }
  | insert {p : P} (h : s.calls p = .registered) :
      Taken s (.insert p)
        { s.call p .posted with requests := OrdMap.insert (request p).id p s.requests }
  | send {p : P} {n : Nat} (h : s.unsent p = some (n + 1)) :
      Taken s (.send p) { s with unsent := Function.update s.unsent p (some n) }
  | answer {p : P} (h : s.client = .idle) (hsent : s.unsent p = some 0) :
      Taken s (.answer p)
        ({ s with answered := Function.update s.answered p true }.lookup (request p).id)
  | response {requestId : UInt32} (h : s.client = .idle) :
      Taken s (.response requestId) (s.lookup requestId)
  | process {p : P} (h : s.client = .found p) :
      Taken s .process
        { s with
          client := .processed p
          processed := Function.update s.processed p (s.processed p + 1) }
  | erase {p : P} (h : s.client = .processed p) :
      Taken s .erase
        { s with
          client := .idle
          requests := OrdMap.erase (request p).id s.requests }
  | collect {time : Nat} (h : s.client = .idle) :
      Taken s (.collect time)
        { s with
          client := .sweeping [] ((s.requests.map (·.2)).filter (fun p =>
            (request p).checkTimeout (s.time p) time)) }
  | report {done todo : List P} {p : P} (h : s.client = .sweeping done (p :: todo)) :
      Taken s .report
        { s with
          client := .sweeping (done ++ [p]) todo
          reported := Function.update s.reported p (s.reported p + 1) }
  | eraseAll {done : List P} (h : s.client = .sweeping done []) :
      Taken s .eraseAll
        { s with
          client := .idle
          requests := done.foldl (fun m p => OrdMap.erase (request p).id m) s.requests }
  | finish :
      Taken s .finish
        { s with
          requests := []
          finished := fun p => s.finished p || decide (s.calls p = .posted) }
  | cancelSenders :
      Taken s .cancelSenders
        { s with unsent := fun p => if s.unsent p = some 0 then some 0 else none }

theorem taken_of_step {s s' : Pending P} {e : PendingEvent P} (hstep : step request s e = some s') :
    Taken request s e s' := by
  unfold step at hstep
  cases e with
  | check p =>
    dsimp only at hstep
    split at hstep
    · rename_i hcall
      split at hstep
      · obtain rfl := Option.some.inj hstep
        exact .refuse (.inl hcall) (fun q hq => (by cases hq))
      · obtain rfl := Option.some.inj hstep
        exact .check hcall
    · cases hstep
  | start p time ok =>
    dsimp only at hstep
    split at hstep
    · rename_i hcall
      split at hstep
      · obtain rfl := Option.some.inj hstep
        exact .start hcall
      · obtain rfl := Option.some.inj hstep
        exact .refuse (.inr (.inl hcall)) (fun q hq => (by cases hq))
    · cases hstep
  | register p packets =>
    dsimp only at hstep
    split at hstep
    · rename_i hcall
      split at hstep
      · obtain rfl := Option.some.inj hstep
        exact .refuse (.inr (.inr hcall)) (fun q hq => (by cases hq))
      · obtain rfl := Option.some.inj hstep
        exact .register hcall
    · cases hstep
  | insert p =>
    dsimp only at hstep
    split at hstep
    · rename_i hcall
      obtain rfl := Option.some.inj hstep
      exact .insert hcall
    · cases hstep
  | send p =>
    dsimp only at hstep
    split at hstep
    · rename_i n hunsent
      obtain rfl := Option.some.inj hstep
      exact .send hunsent
    · cases hstep
  | answer p =>
    dsimp only at hstep
    split at hstep
    · rename_i h
      obtain rfl := Option.some.inj hstep
      exact .answer h.1 h.2
    · cases hstep
  | response requestId =>
    dsimp only at hstep
    split at hstep
    · rename_i hidle
      obtain rfl := Option.some.inj hstep
      exact .response hidle
    · cases hstep
  | process =>
    dsimp only at hstep
    split at hstep
    · rename_i p hclient
      obtain rfl := Option.some.inj hstep
      exact .process hclient
    · cases hstep
  | erase =>
    dsimp only at hstep
    split at hstep
    · rename_i p hclient
      obtain rfl := Option.some.inj hstep
      exact .erase hclient
    · cases hstep
  | collect time =>
    dsimp only at hstep
    split at hstep
    · rename_i hidle
      obtain rfl := Option.some.inj hstep
      exact .collect hidle
    · cases hstep
  | report =>
    dsimp only at hstep
    split at hstep
    · rename_i done p todo hclient
      obtain rfl := Option.some.inj hstep
      exact .report hclient
    · cases hstep
  | eraseAll =>
    dsimp only at hstep
    split at hstep
    · rename_i done hclient
      obtain rfl := Option.some.inj hstep
      exact .eraseAll hclient
    · cases hstep
  | finish =>
    obtain rfl := Option.some.inj hstep
    exact .finish
  | cancelSenders =>
    obtain rfl := Option.some.inj hstep
    exact .cancelSenders

omit [DecidableEq P] in
/-- A response finds a request or changes nothing. -/
theorem lookup_cases (s : Pending P) (requestId : UInt32) :
    (∃ p, OrdMap.find? s.requests requestId = some p
        ∧ s.lookup requestId = { s with client := .found p })
      ∨ (OrdMap.find? s.requests requestId = none ∧ s.lookup requestId = s) := by
  unfold lookup
  cases OrdMap.find? s.requests requestId with
  | none => exact .inr ⟨rfl, rfl⟩
  | some p => exact .inl ⟨p, rfl, rfl⟩

/-! ## The end of a sweep -/

omit [DecidableEq P] in
theorem find?_foldl_erase (m : List (UInt32 × P)) (done : List P) (id : UInt32) :
    OrdMap.find? (done.foldl (fun m p => OrdMap.erase (request p).id m) m) id
      = if id ∈ done.map (fun p => (request p).id) then none else OrdMap.find? m id := by
  induction done generalizing m with
  | nil => rfl
  | cons p done ih =>
    rw [List.foldl_cons, ih, List.map_cons]
    by_cases hmem : id ∈ done.map (fun p => (request p).id)
    · rw [if_pos hmem, if_pos (List.mem_cons_of_mem _ hmem)]
    · rw [if_neg hmem]
      by_cases hid : id = (request p).id
      · rw [if_pos (hid ▸ List.mem_cons_self ..), hid, OrdMap.find?_erase_self]
      · have hnot : id ∉ (request p).id :: done.map (fun p => (request p).id) := by
          intro hmem'
          exact (List.mem_cons.mp hmem').elim hid hmem
        rw [if_neg hnot, OrdMap.find?_erase_of_ne _ hid]

omit [DecidableEq P] in
theorem sorted_foldl_erase {m : List (UInt32 × P)} (h : OrdMap.Sorted m) (done : List P) :
    OrdMap.Sorted (done.foldl (fun m p => OrdMap.erase (request p).id m) m) := by
  induction done generalizing m with
  | nil => exact h
  | cons p done ih => exact ih (h.erase _)

end

end Pending

end Zway.Client
