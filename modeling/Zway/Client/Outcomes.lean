import Zway.Client.Requests

/-!
# One outcome for every request

A request that was posted has its response processed or its timeout reported, and not
both, and not twice: `outcome_once`. The entry of a request is in the table without an
outcome, or the thread that gave it its outcome is about to erase it, and that thread is
the only one that gives any. Other threads may post what they like in the meantime.
-/

namespace Zway.Client.Pending

variable {P : Type} [DecidableEq P] {request : P → Request}

/-- How many outcomes a posting has had. -/
def outcomes (s : Pending P) (p : P) : Nat := s.processed p + s.reported p

/-- The table, and what has become of the requests in it. -/
structure Outcomes (request : P → Request) (s : Pending P) : Prop where
  sorted : OrdMap.Sorted s.requests
  /-- A request is entered under its id, by the last step of its posting. -/
  entry : ∀ id p, OrdMap.find? s.requests id = some p →
    (request p).id = id ∧ s.calls p = .posted
  /-- What has not been posted has no outcome. -/
  fresh : ∀ p, s.calls p ≠ .posted → s.outcomes p = 0
  once : ∀ p, s.outcomes p ≤ 1
  /-- An entry that nobody is about to erase is that of a request without an outcome. -/
  pending : ∀ id p, OrdMap.find? s.requests id = some p → p ∉ s.client.ended → s.outcomes p = 0
  /-- The thread gives an outcome to requests that have none. -/
  todo : match s.client with
    | .found p => s.outcomes p = 0 ∧ s.calls p = .posted
    | .sweeping _ todo => todo.Nodup ∧ ∀ p ∈ todo, s.outcomes p = 0 ∧ s.calls p = .posted
    | _ => True

omit [DecidableEq P] in
theorem outcomes_init : Outcomes request (init : Pending P) where
  sorted := List.Pairwise.nil
  entry := fun _ _ h => by cases h
  fresh := fun _ _ => rfl
  once := fun _ => Nat.zero_le 1
  pending := fun _ _ h => by cases h
  todo := trivial

/-- A step of a posting that does not end it. -/
theorem Outcomes.call {s : Pending P} (h : Outcomes request s) {p : P}
    (hp : s.calls p ≠ .posted) (c : Call) : Outcomes request (s.call p c) where
  sorted := h.sorted
  entry := by
    intro id q hq
    obtain ⟨hid, hposted⟩ := h.entry id q hq
    refine ⟨hid, ?_⟩
    have hne : q ≠ p := by
      rintro rfl
      exact hp hposted
    exact (Function.update_of_ne hne ..).trans hposted
  fresh := by
    intro q hq
    by_cases hqp : q = p
    · rw [hqp]
      exact h.fresh p hp
    · refine h.fresh q (fun hposted => hq ?_)
      exact (Function.update_of_ne hqp ..).trans hposted
  once := h.once
  pending := h.pending
  todo := by
    have htodo := h.todo
    have hkeep : ∀ q, s.calls q = .posted → (s.call p c).calls q = .posted := by
      intro q hq
      have hne : q ≠ p := by
        rintro rfl
        exact hp hq
      exact (Function.update_of_ne hne ..).trans hq
    unfold Pending.call
    dsimp only
    cases hclient : s.client with
    | idle => trivial
    | found q =>
      rw [hclient] at htodo
      exact ⟨htodo.1, hkeep q htodo.2⟩
    | processed q => trivial
    | sweeping done todo =>
      rw [hclient] at htodo
      exact ⟨htodo.1, fun q hq => ⟨(htodo.2 q hq).1, hkeep q (htodo.2 q hq).2⟩⟩

/-- The last step of a posting. -/
theorem Outcomes.insert {s : Pending P} (h : Outcomes request s) {p : P}
    (hp : s.calls p ≠ .posted) :
    Outcomes request
      { s.call p .posted with requests := OrdMap.insert (request p).id p s.requests } where
  sorted := h.sorted.insert ..
  entry := by
    intro id q hq
    by_cases hid : id = (request p).id
    · rw [hid, OrdMap.find?_insert_self] at hq
      obtain rfl : p = q := Option.some.inj hq
      exact ⟨hid.symm, Function.update_self ..⟩
    · rw [OrdMap.find?_insert_of_ne _ _ hid] at hq
      exact (h.call hp .posted).entry id q hq
  fresh := (h.call hp .posted).fresh
  once := h.once
  pending := by
    intro id q hq hover
    by_cases hid : id = (request p).id
    · rw [hid, OrdMap.find?_insert_self] at hq
      obtain rfl : p = q := Option.some.inj hq
      exact h.fresh p hp
    · rw [OrdMap.find?_insert_of_ne _ _ hid] at hq
      exact h.pending id q hq hover
  todo := (h.call hp .posted).todo

omit [DecidableEq P] in
/-- A response finds its request, or none. -/
theorem Outcomes.lookup {s : Pending P} (h : Outcomes request s) (hidle : s.client = .idle)
    (requestId : UInt32) : Outcomes request (s.lookup requestId) := by
  unfold Pending.lookup
  cases hfind : OrdMap.find? s.requests requestId with
  | none => exact h
  | some p =>
    have hover : p ∉ s.client.ended := by
      rw [hidle]
      exact List.not_mem_nil
    exact {
      sorted := h.sorted
      entry := h.entry
      fresh := h.fresh
      once := h.once
      pending := fun id q hq _ => h.pending id q hq (by rw [hidle]; exact List.not_mem_nil)
      todo := ⟨h.pending requestId p hfind hover, (h.entry requestId p hfind).2⟩ }

omit [DecidableEq P] in
/-- The requests of a sorted table are different ones. -/
theorem Outcomes.nodup {s : Pending P} (h : Outcomes request s) : (s.requests.map (·.2)).Nodup := by
  refine List.Pairwise.map _ (fun a b hab => ?_) (List.Pairwise.and_mem.mp h.sorted)
  obtain ⟨ha, hb, hlt⟩ := hab
  have hida := (h.entry a.1 a.2 (OrdMap.find?_of_mem h.sorted ha)).1
  have hidb := (h.entry b.1 b.2 (OrdMap.find?_of_mem h.sorted hb)).1
  intro heq
  have hkey : a.1 = b.1 := by rw [← hida, ← hidb, heq]
  rw [hkey] at hlt
  exact irrefl b.1 hlt

/-- The outcome of a request that has none. -/
theorem Outcomes.processed {s : Pending P} (h : Outcomes request s) {p : P}
    (hclient : s.client = .found p) :
    Outcomes request
      { s with
        client := .processed p
        processed := Function.update s.processed p (s.processed p + 1) } := by
  have htodo := h.todo
  rw [hclient] at htodo
  have hother : ∀ q, q ≠ p → outcomes
      { s with
        client := .processed p
        processed := Function.update s.processed p (s.processed p + 1) } q = s.outcomes q := by
    intro q hq
    unfold outcomes
    dsimp only
    rw [Function.update_of_ne hq]
  have hself : outcomes
      { s with
        client := .processed p
        processed := Function.update s.processed p (s.processed p + 1) } p = 1 := by
    have hzero := htodo.1
    unfold outcomes at hzero ⊢
    dsimp only
    rw [Function.update_self]
    omega
  exact {
    sorted := h.sorted
    entry := h.entry
    fresh := by
      intro q hq
      have hne : q ≠ p := by
        rintro rfl
        exact hq htodo.2
      rw [hother q hne]
      exact h.fresh q hq
    once := by
      intro q
      by_cases hq : q = p
      · rw [hq, hself]
      · rw [hother q hq]
        exact h.once q
    pending := by
      intro id q hfind hover
      have hne : q ≠ p := fun hq => hover (List.mem_singleton.mpr hq)
      rw [hother q hne]
      refine h.pending id q hfind ?_
      rw [hclient]
      exact List.not_mem_nil
    todo := trivial }

theorem Outcomes.reported {s : Pending P} (h : Outcomes request s) {done todo : List P} {p : P}
    (hclient : s.client = .sweeping done (p :: todo)) :
    Outcomes request
      { s with
        client := .sweeping (done ++ [p]) todo
        reported := Function.update s.reported p (s.reported p + 1) } := by
  have htodo := h.todo
  rw [hclient] at htodo
  obtain ⟨hnodup, hopen⟩ := htodo
  obtain ⟨hzero, hposted⟩ := hopen p (List.mem_cons_self ..)
  obtain ⟨hnotMem, hnodup⟩ := List.nodup_cons.mp hnodup
  have hother : ∀ q, q ≠ p → outcomes
      { s with
        client := .sweeping (done ++ [p]) todo
        reported := Function.update s.reported p (s.reported p + 1) } q = s.outcomes q := by
    intro q hq
    unfold outcomes
    dsimp only
    rw [Function.update_of_ne hq]
  have hself : outcomes
      { s with
        client := .sweeping (done ++ [p]) todo
        reported := Function.update s.reported p (s.reported p + 1) } p = 1 := by
    unfold outcomes at hzero ⊢
    dsimp only
    rw [Function.update_self]
    omega
  exact {
    sorted := h.sorted
    entry := h.entry
    fresh := by
      intro q hq
      have hne : q ≠ p := by
        rintro rfl
        exact hq hposted
      rw [hother q hne]
      exact h.fresh q hq
    once := by
      intro q
      by_cases hq : q = p
      · rw [hq, hself]
      · rw [hother q hq]
        exact h.once q
    pending := by
      intro id q hfind hover
      have hne : q ≠ p := fun hq => hover (List.mem_append_right _ (List.mem_singleton.mpr hq))
      rw [hother q hne]
      refine h.pending id q hfind ?_
      rw [hclient]
      exact fun hdone => hover (List.mem_append_left _ hdone)
    todo := by
      refine ⟨hnodup, fun q hq => ?_⟩
      have hne : q ≠ p := by
        rintro rfl
        exact hnotMem hq
      rw [hother q hne]
      exact hopen q (List.mem_cons_of_mem _ hq) }

omit [DecidableEq P] in
/-- The thread forgets what it was doing, after erasing the entries of those that are over. -/
theorem Outcomes.forget {s : Pending P} (h : Outcomes request s) {requests : List (UInt32 × P)}
    (hsorted : OrdMap.Sorted requests)
    (hrequests : ∀ id p, OrdMap.find? requests id = some p →
      OrdMap.find? s.requests id = some p ∧ p ∉ s.client.ended) :
    Outcomes request { s with client := .idle, requests := requests } where
  sorted := hsorted
  entry := fun id p hp => h.entry id p (hrequests id p hp).1
  fresh := h.fresh
  once := h.once
  pending := fun id p hp _ => h.pending id p (hrequests id p hp).1 (hrequests id p hp).2
  todo := trivial

omit [DecidableEq P] in
theorem Outcomes.erased {s : Pending P} (h : Outcomes request s) {p : P}
    (hclient : s.client = .processed p) :
    Outcomes request
      { s with client := .idle, requests := OrdMap.erase (request p).id s.requests } := by
  refine h.forget (h.sorted.erase _) (fun id q hq => ?_)
  by_cases hid : id = (request p).id
  · rw [hid, OrdMap.find?_erase_self] at hq
    cases hq
  · rw [OrdMap.find?_erase_of_ne _ hid] at hq
    refine ⟨hq, ?_⟩
    rw [hclient]
    intro hover
    obtain rfl : q = p := List.mem_singleton.mp hover
    exact hid (h.entry id q hq).1.symm

omit [DecidableEq P] in
theorem Outcomes.erasedAll {s : Pending P} (h : Outcomes request s) {done : List P}
    (hclient : s.client = .sweeping done []) :
    Outcomes request
      { s with
        client := .idle
        requests := done.foldl (fun m p => OrdMap.erase (request p).id m) s.requests } := by
  refine h.forget (sorted_foldl_erase _ h.sorted done) (fun id q hq => ?_)
  rw [find?_foldl_erase] at hq
  by_cases hmem : id ∈ done.map (fun p => (request p).id)
  · rw [if_pos hmem] at hq
    cases hq
  · rw [if_neg hmem] at hq
    refine ⟨hq, ?_⟩
    rw [hclient]
    intro hover
    refine hmem ?_
    rw [← (h.entry id q hq).1]
    exact List.mem_map_of_mem hover

omit [DecidableEq P] in
theorem Outcomes.collected {s : Pending P} (h : Outcomes request s) (hidle : s.client = .idle)
    (expired : P → Bool) :
    Outcomes request
      { s with client := .sweeping [] ((s.requests.map (·.2)).filter expired) } where
  sorted := h.sorted
  entry := h.entry
  fresh := h.fresh
  once := h.once
  pending := fun id q hq _ => h.pending id q hq (by rw [hidle]; exact List.not_mem_nil)
  todo := by
    refine ⟨h.nodup.filter _, fun q hq => ?_⟩
    obtain ⟨r, hr, rfl⟩ := List.mem_map.mp (List.mem_filter.mp hq).1
    have hfind := OrdMap.find?_of_mem h.sorted hr
    refine ⟨h.pending _ _ hfind ?_, (h.entry _ _ hfind).2⟩
    rw [hidle]
    exact List.not_mem_nil

/-- **Every step keeps it.** -/
theorem outcomes_step (s : Pending P) (e : PendingEvent P) (s' : Pending P)
    (h : Outcomes request s) (hstep : step request s e = some s') : Outcomes request s' := by
  cases taken_of_step request hstep with
  | refuse hcall _ =>
    refine h.call ?_ _
    rcases hcall with hcall | hcall | hcall <;> rw [hcall] <;> decide
  | check hcall => exact h.call (by rw [hcall]; decide) _
  | start hcall =>
    have hnext := h.call (by rw [hcall]; decide) .started
    exact ⟨hnext.sorted, hnext.entry, hnext.fresh, hnext.once, hnext.pending, hnext.todo⟩
  | register hcall =>
    have hnext := h.call (by rw [hcall]; decide) .registered
    exact ⟨hnext.sorted, hnext.entry, hnext.fresh, hnext.once, hnext.pending, hnext.todo⟩
  | insert hcall => exact h.insert (by rw [hcall]; decide)
  | send _ => exact ⟨h.sorted, h.entry, h.fresh, h.once, h.pending, h.todo⟩
  | @answer p hidle _ =>
    have hnext : Outcomes request { s with answered := Function.update s.answered p true } :=
      ⟨h.sorted, h.entry, h.fresh, h.once, h.pending, h.todo⟩
    exact hnext.lookup hidle _
  | response hidle => exact h.lookup hidle _
  | @process p hclient => exact h.processed hclient
  | @erase p hclient => exact h.erased hclient
  | @collect time hidle => exact h.collected hidle _
  | @report done todo p hclient => exact h.reported hclient
  | @eraseAll done hclient => exact h.erasedAll hclient
  | finish =>
    exact {
      sorted := List.Pairwise.nil
      entry := fun _ _ hq => (by cases hq)
      fresh := h.fresh
      once := h.once
      pending := fun _ _ hq => (by cases hq)
      todo := h.todo }
  | cancelSenders => exact ⟨h.sorted, h.entry, h.fresh, h.once, h.pending, h.todo⟩

/-- **At most one outcome.** After any run, every posting has had its response processed at most
once or its timeout reported at most once, and not both. -/
theorem outcome_once (request : P → Request) (es : List (PendingEvent P)) :
    ∀ s, Steps.run (step request) init es = some s → ∀ p, s.calls p = .posted →
      s.processed p ≤ 1 ∧ s.reported p ≤ 1 ∧ ¬ (0 < s.processed p ∧ 0 < s.reported p) := by
  intro s hrun p _
  have h := Steps.run_invariant outcomes_step outcomes_init hrun
  have honce := h.once p
  unfold outcomes at honce
  omega

/-- A response, and another one for the same request. -/
def answeredTwice : List (PendingEvent Unit) :=
  [.check (), .start () 1 true, .register () 0, .insert (), .response 5, .process, .erase,
    .response 5, .collect 100, .eraseAll]

theorem outcome_once_answeredTwice :
    ((Steps.run (step fun _ => ⟨.login, 5, 10⟩) init answeredTwice).getD init).processed () ≤ 1
      ∧ ((Steps.run (step fun _ => ⟨.login, 5, 10⟩) init answeredTwice).getD init).reported () ≤ 1
      ∧ ¬ (0 < ((Steps.run (step fun _ => ⟨.login, 5, 10⟩) init answeredTwice).getD init).processed ()
        ∧ 0 < ((Steps.run (step fun _ => ⟨.login, 5, 10⟩) init answeredTwice).getD init).reported ()) :=
  outcome_once (fun _ => ⟨.login, 5, 10⟩) answeredTwice _ rfl () rfl

end Zway.Client.Pending
