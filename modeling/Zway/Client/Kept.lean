import Zway.Client.Outcomes

/-!
# No request is lost

`Engine::postRequest` looks for a request of the same type and id, while `m_requests` has
one request for every id. So an entry may be overwritten by that of another request, or
erased in its place, unless ids are not used again too early: `Vacant`. As long as they
are not, a request stays in the table until it has its outcome: `kept_of_vacant`. And a
response is not lost if it does not come before the request is in the table, which it may
as the sender is registered first: `delivered_of_entered`.
-/

namespace Zway.Client.Pending

variable {P : Type} [DecidableEq P] {request : P → Request}

/-- Counting one more is no less anywhere. -/
theorem le_update_succ (f : P → Nat) (p q : P) : f q ≤ Function.update f p (f p + 1) q := by
  by_cases h : q = p
  · rw [h, Function.update_self]
    exact Nat.le_succ _
  · rw [Function.update_of_ne h]

/-! ## Conditions on a step -/

/-- No request is entered under an id that another one has, in the table or in the hands of the
thread that is going to erase it. -/
def Vacant (request : P → Request) (s : Pending P) : PendingEvent P → Prop
  | .insert p => OrdMap.find? s.requests (request p).id = none
      ∧ ∀ q ∈ s.client.handled, (request q).id ≠ (request p).id
  | _ => True

/-- No answer is taken in between the registration of the sender of a request and the insertion of
the request. -/
def Entered (s : Pending P) : PendingEvent P → Prop
  | .answer p => s.calls p ≠ .registered
  | _ => True

/-! ## What holds after a run -/

/-- The request is in the table, or has had its outcome, or `finish` was called. -/
def Stays (request : P → Request) (s : Pending P) (p : P) : Prop :=
  OrdMap.find? s.requests (request p).id = some p ∨ 0 < s.processed p ∨ 0 < s.reported p
    ∨ s.finished p = true

/-- **No pending request is dropped.** -/
def Kept (request : P → Request) (s : Pending P) : Prop :=
  ∀ p, s.calls p = .posted → Stays request s p

/-- The table while ids are not used again too early. -/
structure Unshared (request : P → Request) (s : Pending P) : Prop where
  outcomes : Outcomes request s
  kept : Kept request s
  /-- Nobody else has the entry that is going to be erased. -/
  handled : ∀ p ∈ s.client.handled, OrdMap.find? s.requests (request p).id = some p
    ∨ OrdMap.find? s.requests (request p).id = none
  /-- What is going to be erased has had its outcome. -/
  ended : ∀ p ∈ s.client.ended, 0 < s.processed p ∨ 0 < s.reported p

omit [DecidableEq P] in
theorem unshared_init : Unshared request (init : Pending P) where
  outcomes := outcomes_init
  kept := fun _ h => by cases h
  handled := fun _ h => by cases h
  ended := fun _ h => by cases h

/-- A step of a posting that does not end it. -/
theorem Unshared.call {s : Pending P} (h : Unshared request s) {p : P}
    (hp : s.calls p ≠ .posted) (c : Call) (hc : c ≠ .posted) : Unshared request (s.call p c) where
  outcomes := h.outcomes.call hp c
  kept := by
    intro q hq
    have hne : q ≠ p := by
      rintro rfl
      exact hc ((Function.update_self ..).symm.trans hq)
    exact h.kept q ((Function.update_of_ne hne ..).symm.trans hq)
  handled := h.handled
  ended := h.ended

theorem Unshared.insert {s : Pending P} (h : Unshared request s) {p : P}
    (hp : s.calls p ≠ .posted) (hvacant : Vacant request s (.insert p)) :
    Unshared request
      { s.call p .posted with requests := OrdMap.insert (request p).id p s.requests } where
  outcomes := h.outcomes.insert hp
  kept := by
    intro q hq
    by_cases hqp : q = p
    · rw [hqp]
      exact .inl (OrdMap.find?_insert_self ..)
    · have hold := h.kept q ((Function.update_of_ne hqp ..).symm.trans hq)
      refine hold.imp (fun hfind => ?_) id
      have hid : (request q).id ≠ (request p).id := by
        intro heq
        rw [heq, hvacant.1] at hfind
        cases hfind
      exact (OrdMap.find?_insert_of_ne _ _ hid).trans hfind
  handled := by
    intro q hq
    have hid := hvacant.2 q hq
    rw [OrdMap.find?_insert_of_ne _ _ hid]
    exact h.handled q hq
  ended := h.ended

omit [DecidableEq P] in
theorem Unshared.lookup {s : Pending P} (h : Unshared request s) (hidle : s.client = .idle)
    (requestId : UInt32) : Unshared request (s.lookup requestId) := by
  rcases lookup_cases s requestId with ⟨p, hfind, hlookup⟩ | ⟨-, hlookup⟩
  · have hentry := h.outcomes.entry requestId p hfind
    have hnext := h.outcomes.lookup hidle requestId
    rw [hlookup] at hnext ⊢
    exact {
      outcomes := hnext
      kept := h.kept
      handled := by
        intro q hq
        obtain rfl : q = p := List.mem_singleton.mp hq
        rw [hentry.1]
        exact .inl hfind
      ended := fun q hq => by cases hq }
  · rw [hlookup]
    exact h

omit [DecidableEq P] in
/-- The thread erases entries whose requests are over. -/
theorem Unshared.forget {s : Pending P} (h : Unshared request s) {requests : List (UInt32 × P)}
    (hnext : Outcomes request { s with client := .idle, requests := requests })
    (hrequests : ∀ id, (∃ p ∈ s.client.ended, (request p).id = id)
      ∨ OrdMap.find? requests id = OrdMap.find? s.requests id) :
    Unshared request { s with client := .idle, requests := requests } where
  outcomes := hnext
  kept := by
    intro q hq
    rcases h.kept q hq with hfind | hout
    · rcases hrequests (request q).id with ⟨p, hp, hid⟩ | hsame
      · -- the entry is erased; it was that of the request itself
        have hself : q = p := by
          rcases h.handled p (ClientStep.mem_handled hp) with hentry | hentry
          · rw [hid, hfind] at hentry
            exact Option.some.inj hentry
          · rw [hid, hfind] at hentry
            cases hentry
        rw [hself]
        exact .inr ((h.ended p hp).imp id .inl)
      · exact .inl (hsame.trans hfind)
    · exact .inr hout
  handled := fun p hp => by cases hp
  ended := fun p hp => by cases hp

/-- **Every step that meets the condition keeps it.** -/
theorem unshared_step (s : Pending P) (e : PendingEvent P) (s' : Pending P)
    (h : Unshared request s) (hvacant : Vacant request s e) (hstep : step request s e = some s') :
    Unshared request s' := by
  have hnext := outcomes_step s e s' h.outcomes hstep
  cases taken_of_step request hstep with
  | refuse hcall _ =>
    refine h.call ?_ _ (by decide)
    rcases hcall with hcall | hcall | hcall <;> rw [hcall] <;> decide
  | check hcall => exact h.call (by rw [hcall]; decide) _ (by decide)
  | start hcall =>
    have hcalled := h.call (by rw [hcall]; decide) .started (by decide)
    exact ⟨hnext, hcalled.kept, hcalled.handled, hcalled.ended⟩
  | register hcall =>
    have hcalled := h.call (by rw [hcall]; decide) .registered (by decide)
    exact ⟨hnext, hcalled.kept, hcalled.handled, hcalled.ended⟩
  | insert hcall => exact h.insert (by rw [hcall]; decide) hvacant
  | send _ => exact ⟨hnext, h.kept, h.handled, h.ended⟩
  | @answer p hidle _ =>
    have hanswered : Unshared request { s with answered := Function.update s.answered p true } :=
      ⟨⟨h.outcomes.sorted, h.outcomes.entry, h.outcomes.fresh, h.outcomes.once,
        h.outcomes.pending, h.outcomes.todo⟩, h.kept, h.handled, h.ended⟩
    exact hanswered.lookup hidle _
  | response hidle => exact h.lookup hidle _
  | @process p hclient =>
    refine ⟨hnext, fun q hq => ?_, fun q hq => ?_, fun q hq => ?_⟩
    · rcases h.kept q hq with hfind | hout | hout
      · exact .inl hfind
      · exact .inr (.inl (Nat.lt_of_lt_of_le hout (le_update_succ s.processed p q)))
      · exact .inr (.inr hout)
    · exact h.handled q (by rw [hclient]; exact hq)
    · obtain rfl : q = p := List.mem_singleton.mp hq
      refine .inl ?_
      show 0 < Function.update s.processed q (s.processed q + 1) q
      rw [Function.update_self]
      exact Nat.succ_pos _
  | @erase p hclient =>
    refine h.forget hnext (fun id => ?_)
    rw [hclient]
    by_cases hid : id = (request p).id
    · exact .inl ⟨p, List.mem_singleton.mpr rfl, hid.symm⟩
    · exact .inr (OrdMap.find?_erase_of_ne _ hid)
  | @collect time hidle =>
    refine ⟨hnext, h.kept, fun q hq => ?_, fun q hq => by cases hq⟩
    obtain ⟨r, hr, rfl⟩ := List.mem_map.mp (List.mem_filter.mp hq).1
    have hfind := OrdMap.find?_of_mem h.outcomes.sorted hr
    refine .inl ?_
    rw [(h.outcomes.entry _ _ hfind).1]
    exact hfind
  | @report done todo p hclient =>
    refine ⟨hnext, fun q hq => ?_, fun q hq => ?_, fun q hq => ?_⟩
    · rcases h.kept q hq with hfind | hout | hout | hout
      · exact .inl hfind
      · exact .inr (.inl hout)
      · exact .inr (.inr (.inl (Nat.lt_of_lt_of_le hout (le_update_succ s.reported p q))))
      · exact .inr (.inr (.inr hout))
    · refine h.handled q ?_
      rw [hclient]
      show q ∈ done ++ p :: todo
      rw [← List.singleton_append, ← List.append_assoc]
      exact hq
    · rcases List.mem_append.mp hq with hq | hq
      · have hold := h.ended q (by rw [hclient]; exact hq)
        exact hold.imp id (fun hout => Nat.lt_of_lt_of_le hout (le_update_succ s.reported p q))
      · obtain rfl : q = p := List.mem_singleton.mp hq
        refine .inr ?_
        show 0 < Function.update s.reported q (s.reported q + 1) q
        rw [Function.update_self]
        exact Nat.succ_pos _
  | @eraseAll done hclient =>
    refine h.forget hnext (fun id => ?_)
    rw [hclient, find?_foldl_erase]
    by_cases hmem : id ∈ done.map (fun p => (request p).id)
    · obtain ⟨p, hp, hid⟩ := List.mem_map.mp hmem
      exact .inl ⟨p, hp, hid⟩
    · rw [if_neg hmem]
      exact .inr rfl
  | finish =>
    refine ⟨hnext, fun q hq => ?_, fun q hq => .inr rfl, h.ended⟩
    refine .inr (.inr (.inr ?_))
    show (s.finished q || decide (s.calls q = .posted)) = true
    rw [decide_eq_true hq, Bool.or_true]
  | cancelSenders => exact ⟨hnext, h.kept, h.handled, h.ended⟩

/-- **Requests are kept** in every run in which no id is used again too early. -/
theorem kept_of_vacant (request : P → Request) (es : List (PendingEvent P)) (s : Pending P)
    (hmeets : Steps.Meets (step request) (Vacant request) init es)
    (hrun : Steps.run (step request) init es = some s) : Kept request s :=
  (Steps.run_invariant_of_meets unshared_step unshared_init hmeets hrun).kept

/-- Two requests of different types with one id. -/
def sameId (p : Bool) : Request := ⟨if p then .push else .login, 5, 10⟩

/-- A request that is posted, sent and answered. -/
theorem kept_of_vacant_answered :
    Kept (fun _ : Unit => ⟨.login, 5, 10⟩) ((Steps.run (step fun _ : Unit => ⟨.login, 5, 10⟩) init
      [.check (), .start () 1 true, .register () 0, .insert (), .send (), .answer ()]).getD init) := by
  refine kept_of_vacant (fun _ => ⟨.login, 5, 10⟩)
    [.check (), .start () 1 true, .register () 0, .insert (), .send (), .answer ()] _ ?_ rfl
  refine ⟨trivial, fun _ h => ?_⟩
  obtain rfl := Option.some.inj h
  refine ⟨trivial, fun _ h => ?_⟩
  obtain rfl := Option.some.inj h
  refine ⟨trivial, fun _ h => ?_⟩
  obtain rfl := Option.some.inj h
  refine ⟨⟨rfl, fun _ hq => by cases hq⟩, fun _ h => ?_⟩
  obtain rfl := Option.some.inj h
  refine ⟨trivial, fun _ h => ?_⟩
  obtain rfl := Option.some.inj h
  exact ⟨trivial, fun _ _ => trivial⟩

/-- The second one takes the place of the first. -/
theorem not_kept_sameId :
    ∃ s, Steps.run (step sameId) init
        [.check false, .start false 1 true, .register false 0, .insert false,
          .check true, .start true 1 true, .register true 0, .insert true] = some s
      ∧ ¬ Kept sameId s := by
  refine ⟨_, rfl, fun h => ?_⟩
  rcases h false rfl with hfind | hout | hout | hout
  · cases hfind
  · cases hout
  · cases hout
  · cases hout

/-! ## Responses -/

/-- **No answer is lost.** If the answer to a request that was posted has been taken in, it is
processed, or about to be, unless the request was given up before. -/
def Delivered (s : Pending P) : Prop :=
  ∀ p, s.calls p = .posted → s.answered p = true → s.reported p = 0 → s.finished p = false →
    s.client = .found p ∨ 0 < s.processed p

/-- Streams and answers while ids are not used again too early and requests are entered before they
are answered. -/
structure Answers (request : P → Request) (s : Pending P) : Prop where
  unshared : Unshared request s
  /-- A stream that is sent, or is to be, has been registered. -/
  registered : ∀ p n, s.unsent p = some n → s.calls p = .registered ∨ s.calls p = .posted
  answered : ∀ p, s.answered p = true →
    s.client = .found p ∨ 0 < s.processed p ∨ 0 < s.reported p ∨ s.finished p = true

omit [DecidableEq P] in
theorem answers_init : Answers request (init : Pending P) where
  unshared := unshared_init
  registered := fun _ _ h => by cases h
  answered := fun _ h => by cases h

/-- A step of a posting before the sender is registered. -/
theorem Answers.registered_call {s : Pending P} (h : Answers request s) {p : P}
    (hp : s.calls p ≠ .registered ∧ s.calls p ≠ .posted) (c : Call) {q : P} {n : Nat}
    (hq : s.unsent q = some n) :
    (s.call p c).calls q = .registered ∨ (s.call p c).calls q = .posted := by
  have hold := h.registered q n hq
  have hne : q ≠ p := by
    rintro rfl
    exact hold.elim hp.1 hp.2
  show Function.update s.calls p c q = _ ∨ Function.update s.calls p c q = _
  rw [Function.update_of_ne hne]
  exact hold

omit [DecidableEq P] in
/-- A response that is taken in while the thread has nothing else to do. -/
theorem Answers.lookup {s : Pending P} (h : Answers request s) (hidle : s.client = .idle)
    (requestId : UInt32) : Answers request (s.lookup requestId) := by
  have hunshared := h.unshared.lookup hidle requestId
  rcases lookup_cases s requestId with ⟨p, -, hlookup⟩ | ⟨-, hlookup⟩
  · rw [hlookup] at hunshared ⊢
    refine ⟨hunshared, h.registered, fun q hq => ?_⟩
    rcases h.answered q hq with hfound | hout
    · rw [hidle] at hfound
      cases hfound
    · exact .inr hout
  · rw [hlookup]
    exact h

omit [DecidableEq P] in
/-- Those that have an outcome keep it. -/
theorem Answers.mono {s s' : Pending P} (h : Answers request s) (hunshared : Unshared request s')
    (hunsent : s'.unsent = s.unsent) (hcalls : s'.calls = s.calls)
    (hanswered : s'.answered = s.answered) (hfound : ∀ p, s.client = .found p → 0 < s'.processed p)
    (hprocessed : ∀ p, s.processed p ≤ s'.processed p)
    (hreported : ∀ p, s.reported p ≤ s'.reported p)
    (hfinished : ∀ p, s.finished p = true → s'.finished p = true) : Answers request s' where
  unshared := hunshared
  registered := by
    rw [hunsent, hcalls]
    exact h.registered
  answered := by
    intro q hq
    rw [hanswered] at hq
    rcases h.answered q hq with hclient | hout | hout | hout
    · exact .inr (.inl (hfound q hclient))
    · exact .inr (.inl (Nat.lt_of_lt_of_le hout (hprocessed q)))
    · exact .inr (.inr (.inl (Nat.lt_of_lt_of_le hout (hreported q))))
    · exact .inr (.inr (.inr (hfinished q hout)))

/-- **Every step that meets both conditions keeps it.** -/
theorem answers_step (s : Pending P) (e : PendingEvent P) (s' : Pending P)
    (h : Answers request s) (hgood : Vacant request s e ∧ Entered s e)
    (hstep : step request s e = some s') : Answers request s' := by
  have hunshared := unshared_step s e s' h.unshared hgood.1 hstep
  cases taken_of_step request hstep with
  | @refuse _ p hcall _ =>
    have hnot : s.calls p ≠ .registered ∧ s.calls p ≠ .posted := by
      rcases hcall with hcall | hcall | hcall <;> rw [hcall] <;> decide
    exact ⟨hunshared, fun q n hq => h.registered_call hnot _ hq, h.answered⟩
  | @check p hcall =>
    have hnot : s.calls p ≠ .registered ∧ s.calls p ≠ .posted := by rw [hcall]; decide
    exact ⟨hunshared, fun q n hq => h.registered_call hnot _ hq, h.answered⟩
  | @start p time ok hcall =>
    have hnot : s.calls p ≠ .registered ∧ s.calls p ≠ .posted := by rw [hcall]; decide
    exact ⟨hunshared, fun q n hq => h.registered_call hnot _ hq, h.answered⟩
  | @register p packets hcall =>
    have hnot : s.calls p ≠ .registered ∧ s.calls p ≠ .posted := by rw [hcall]; decide
    refine ⟨hunshared, fun q n hq => ?_, h.answered⟩
    by_cases hqp : q = p
    · rw [hqp]
      exact .inl (Function.update_self ..)
    · exact h.registered_call hnot _ ((Function.update_of_ne hqp ..).symm.trans hq)
  | @insert p hcall =>
    refine ⟨hunshared, fun q n hq => ?_, h.answered⟩
    by_cases hqp : q = p
    · rw [hqp]
      exact .inr (Function.update_self ..)
    · show Function.update s.calls p .posted q = _ ∨ Function.update s.calls p .posted q = _
      rw [Function.update_of_ne hqp]
      exact h.registered q n hq
  | @send p n hunsent =>
    refine ⟨hunshared, fun q m hq => ?_, h.answered⟩
    by_cases hqp : q = p
    · rw [hqp]
      exact h.registered p _ hunsent
    · exact h.registered q m ((Function.update_of_ne hqp ..).symm.trans hq)
  | @answer p hidle hsent =>
    have hposted : s.calls p = .posted := (h.registered p 0 hsent).resolve_left hgood.2
    have hkept := h.unshared.kept p hposted
    rcases lookup_cases { s with answered := Function.update s.answered p true }
      (request p).id with ⟨r, hfind, hlookup⟩ | ⟨hnone, hlookup⟩
    · rw [hlookup] at hunshared ⊢
      refine ⟨hunshared, h.registered, fun q hq => ?_⟩
      by_cases hqp : q = p
      · rw [hqp]
        rcases hkept with hentry | hout
        · obtain rfl : r = p := Option.some.inj (hfind.symm.trans hentry)
          exact .inl rfl
        · exact .inr hout
      · rcases h.answered q ((Function.update_of_ne hqp ..).symm.trans hq) with hfound | hout
        · rw [hidle] at hfound
          cases hfound
        · exact .inr hout
    · rw [hlookup] at hunshared ⊢
      refine ⟨hunshared, h.registered, fun q hq => ?_⟩
      by_cases hqp : q = p
      · rw [hqp]
        rcases hkept with hentry | hout
        · cases hnone.symm.trans hentry
        · exact .inr hout
      · exact h.answered q ((Function.update_of_ne hqp ..).symm.trans hq)
  | response hidle => exact h.lookup hidle _
  | @process p hclient =>
    refine h.mono hunshared rfl rfl rfl (fun q hq => ?_) (le_update_succ s.processed p)
      (fun _ => Nat.le_refl _) (fun _ hq => hq)
    obtain rfl : p = q := by
      rw [hclient] at hq
      exact ClientStep.found.inj hq
    show 0 < Function.update s.processed p (s.processed p + 1) p
    rw [Function.update_self]
    exact Nat.succ_pos _
  | @erase p hclient =>
    exact h.mono hunshared rfl rfl rfl (fun q hq => by rw [hclient] at hq; cases hq)
      (fun _ => Nat.le_refl _) (fun _ => Nat.le_refl _) (fun _ hq => hq)
  | @collect time hidle =>
    exact h.mono hunshared rfl rfl rfl (fun q hq => by rw [hidle] at hq; cases hq)
      (fun _ => Nat.le_refl _) (fun _ => Nat.le_refl _) (fun _ hq => hq)
  | @report done todo p hclient =>
    exact h.mono hunshared rfl rfl rfl (fun q hq => by rw [hclient] at hq; cases hq)
      (fun _ => Nat.le_refl _) (le_update_succ s.reported p) (fun _ hq => hq)
  | @eraseAll done hclient =>
    exact h.mono hunshared rfl rfl rfl (fun q hq => by rw [hclient] at hq; cases hq)
      (fun _ => Nat.le_refl _) (fun _ => Nat.le_refl _) (fun _ hq => hq)
  | finish =>
    refine ⟨hunshared, h.registered, fun q hq => ?_⟩
    refine (h.answered q hq).imp id (Or.imp id (Or.imp id (fun hout => ?_)))
    show (s.finished q || _) = true
    rw [hout, Bool.true_or]
  | cancelSenders =>
    refine ⟨hunshared, fun q n hq => ?_, h.answered⟩
    have hsent : s.unsent q = some 0 := by
      by_contra hne
      exact absurd ((if_neg hne).symm.trans hq) (by simp)
    exact h.registered q 0 hsent

/-- **Responses are delivered** in every run in which no id is used again too early and no response
overtakes the insertion of its request. -/
theorem delivered_of_entered (request : P → Request) (es : List (PendingEvent P)) (s : Pending P)
    (hmeets : Steps.Meets (step request) (fun s e => Vacant request s e ∧ Entered s e) init es)
    (hrun : Steps.run (step request) init es = some s) : Delivered s := by
  have h := Steps.run_invariant_of_meets answers_step answers_init hmeets hrun
  intro p _ hanswered hreported hfinished
  rcases h.answered p hanswered with hfound | hout | hout | hout
  · exact .inl hfound
  · exact .inr hout
  · rw [hreported] at hout
    cases hout
  · rw [hfinished] at hout
    cases hout

theorem delivered_of_entered_answered :
    Delivered ((Steps.run (step fun _ : Unit => ⟨.login, 5, 10⟩) init
      [.check (), .start () 1 true, .register () 0, .send (), .insert (), .answer ()]).getD init) := by
  refine delivered_of_entered (fun _ => ⟨.login, 5, 10⟩)
    [.check (), .start () 1 true, .register () 0, .send (), .insert (), .answer ()] _ ?_ rfl
  refine ⟨⟨trivial, trivial⟩, fun _ h => ?_⟩
  obtain rfl := Option.some.inj h
  refine ⟨⟨trivial, trivial⟩, fun _ h => ?_⟩
  obtain rfl := Option.some.inj h
  refine ⟨⟨trivial, trivial⟩, fun _ h => ?_⟩
  obtain rfl := Option.some.inj h
  refine ⟨⟨trivial, trivial⟩, fun _ h => ?_⟩
  obtain rfl := Option.some.inj h
  refine ⟨⟨⟨rfl, fun _ hq => by cases hq⟩, trivial⟩, fun _ h => ?_⟩
  obtain rfl := Option.some.inj h
  refine ⟨⟨trivial, fun h => ?_⟩, fun _ _ => trivial⟩
  cases h

/-- The answer comes before the request is in the table, and `postRequest` returns `true`. -/
theorem not_delivered_early :
    ∃ s, Steps.run (step fun _ : Unit => ⟨.login, 5, 10⟩) init
        [.check (), .start () 1 true, .register () 0, .send (), .answer (), .insert ()] = some s
      ∧ ¬ Delivered s := by
  refine ⟨_, rfl, fun h => ?_⟩
  rcases h () rfl rfl rfl rfl with hfound | hout
  · cases hfound
  · cases hout

end Zway.Client.Pending
