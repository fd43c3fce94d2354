import Zway.Client.Retransmission

/-!
# Pushes that come again

The server may repeat a push. Each table guards itself: a row is added when there is none
with its id. So what a handling has left out the next one adds, wherever it stopped, and
the resources that came in meanwhile stay as they are: `Lags.step`. But the last resource
takes the row of the request with it, and then the guard of `requests` says nothing any
more: the row is added again, and nothing will remove it.
-/

namespace Zway.Client

/-! ## What a handling adds -/

namespace Push

variable (p : Push)

def request : RequestRow := ⟨p.requestId, p.key, p.salt⟩

def message : MessageRow :=
  ⟨p.requestId, if p.resources.length ≠ 0 then .incoming else .received⟩

def addRequest (rows : List RequestRow) : List RequestRow :=
  if p.resources ≠ [] ∧ ∀ row ∈ rows, row.id ≠ p.requestId then rows ++ [p.request] else rows

def addResource (rows : List ResourceRow) (id : UInt32) : List ResourceRow :=
  if rows.countP (·.id = id) = 0 then rows ++ [⟨id, p.requestId, .unknown, none⟩] else rows

def addResources (rows : List ResourceRow) (ids : List UInt32) : List ResourceRow :=
  ids.foldl p.addResource rows

def addMessage (rows : List MessageRow) : List MessageRow :=
  if p.text ≠ [] ∧ ∀ row ∈ rows, row.id ≠ p.requestId then rows ++ [p.message] else rows

variable {p}

theorem countP_eq_zero_iff {α : Type} {rows : List α} {f : α → UInt32} {id : UInt32} :
    rows.countP (f · = id) = 0 ↔ ∀ row ∈ rows, f row ≠ id := by
  rw [List.countP_eq_zero]
  refine forall_congr' (fun row => forall_congr' (fun _ => ?_))
  rw [decide_eq_true_iff]

/-- The rows of the resources that were not there. -/
theorem addResources_eq : ∀ (ids : List UInt32) (rows : List ResourceRow),
    ∃ added, p.addResources rows ids = rows ++ added
      ∧ (∀ row ∈ added, row.request = p.requestId ∧ row.status = .unknown
          ∧ row.id ∈ ids ∧ ∀ row' ∈ rows, row'.id ≠ row.id)
      ∧ ∀ id ∈ ids, ∃ row ∈ rows ++ added, row.id = id
  | [], rows => ⟨[], (List.append_nil rows).symm, fun _ h => (by cases h), fun _ h => (by cases h)⟩
  | id :: ids, rows => by
      obtain ⟨added, heq, hadded, hids⟩ := addResources_eq ids (p.addResource rows id)
      by_cases hcount : rows.countP (·.id = id) = 0
      · have hfirst : p.addResource rows id = rows ++ [⟨id, p.requestId, .unknown, none⟩] := if_pos hcount
        rw [hfirst] at heq hadded hids
        refine ⟨⟨id, p.requestId, .unknown, none⟩ :: added, ?_, ?_, ?_⟩
        · change p.addResources (p.addResource rows id) ids = _
          rw [hfirst, heq, List.append_assoc]
          rfl
        · intro row hrow
          rcases List.mem_cons.mp hrow with rfl | hrow
          · exact ⟨rfl, rfl, List.mem_cons_self .., countP_eq_zero_iff.mp hcount⟩
          · obtain ⟨hrequest, hstatus, hid, hfresh⟩ := hadded row hrow
            exact ⟨hrequest, hstatus, List.mem_cons_of_mem _ hid,
              fun row' hrow' => hfresh row' (List.mem_append_left _ hrow')⟩
        · intro id' hid'
          rw [List.append_assoc] at hids
          rcases List.mem_cons.mp hid' with rfl | hid'
          · exact ⟨_, List.mem_append_right _ (List.mem_cons_self ..), rfl⟩
          · exact hids id' hid'
      · have hfirst : p.addResource rows id = rows := if_neg hcount
        rw [hfirst] at heq hadded hids
        refine ⟨added, ?_, ?_, ?_⟩
        · change p.addResources (p.addResource rows id) ids = _
          rw [hfirst, heq]
        · intro row hrow
          obtain ⟨hrequest, hstatus, hid, hfresh⟩ := hadded row hrow
          exact ⟨hrequest, hstatus, List.mem_cons_of_mem _ hid, hfresh⟩
        · intro id' hid'
          rcases List.mem_cons.mp hid' with rfl | hid'
          · obtain ⟨row, hrow, hid⟩ := List.countP_pos_iff.mp (Nat.pos_of_ne_zero hcount)
            exact ⟨row, List.mem_append_left _ hrow, of_decide_eq_true hid⟩
          · exact hids id' hid'

/-- Resources that are there stay alone. -/
theorem addResources_self : ∀ {ids : List UInt32} {rows : List ResourceRow},
    (∀ id ∈ ids, ∃ row ∈ rows, row.id = id) → p.addResources rows ids = rows
  | [], _, _ => rfl
  | id :: ids, rows, h => by
      have hfirst : p.addResource rows id = rows := by
        refine if_neg (fun hcount => ?_)
        obtain ⟨row, hrow, hid⟩ := h id (List.mem_cons_self ..)
        exact countP_eq_zero_iff.mp hcount row hrow hid
      change p.addResources (p.addResource rows id) ids = _
      rw [hfirst]
      exact addResources_self (fun id' hid' => h id' (List.mem_cons_of_mem _ hid'))

theorem addResources_append (rows : List ResourceRow) (ids ids' : List UInt32) :
    p.addResources rows (ids ++ ids') = p.addResources (p.addResources rows ids) ids' :=
  List.foldl_append

/-- A handling adds what one before it has left out. -/
theorem addResources_take (rows : List ResourceRow) (ids : List UInt32) (k : Nat) :
    p.addResources (p.addResources rows (ids.take k)) ids = p.addResources rows ids := by
  obtain ⟨added, heq, -, hids⟩ := @addResources_eq p (ids.take k) rows
  have hself : p.addResources (p.addResources rows (ids.take k)) (ids.take k)
      = p.addResources rows (ids.take k) := by
    rw [heq]
    exact addResources_self hids
  calc p.addResources (p.addResources rows (ids.take k)) ids
      = p.addResources (p.addResources (p.addResources rows (ids.take k)) (ids.take k)) (ids.drop k) := by
        rw [← addResources_append _ (ids.take k) (ids.drop k), List.take_append_drop]
    _ = p.addResources rows ids := by
        rw [hself, ← addResources_append, List.take_append_drop]

/-- What happens to rows that are there does not touch what is added. -/
theorem addResources_map {g : ResourceRow → ResourceRow} (hid : ∀ row, (g row).id = row.id) :
    ∀ {ids : List UInt32} {rows : List ResourceRow},
    (∀ row : ResourceRow, (∀ row' ∈ rows, row'.id ≠ row.id) → g row = row) →
    p.addResources (rows.map g) ids = (p.addResources rows ids).map g
  | [], _, _ => rfl
  | id :: ids, rows, hg => by
      have hcount : (rows.map g).countP (·.id = id) = rows.countP (·.id = id) := by
        rw [List.countP_map]
        refine List.countP_congr (fun row _ => ?_)
        simp only [Function.comp_apply, hid]
      have hfirst : p.addResource (rows.map g) id = (p.addResource rows id).map g := by
        unfold addResource
        rw [hcount]
        by_cases hzero : rows.countP (·.id = id) = 0
        · rw [if_pos hzero, if_pos hzero, List.map_append, List.map_singleton]
          rw [hg ⟨id, p.requestId, .unknown, none⟩ (countP_eq_zero_iff.mp hzero)]
        · rw [if_neg hzero, if_neg hzero]
      change p.addResources (p.addResource (rows.map g) id) ids = (p.addResources (p.addResource rows id) ids).map g
      rw [hfirst]
      refine addResources_map hid (fun row hrow => hg row (fun row' hrow' => hrow row' ?_))
      unfold addResource
      split
      · exact List.mem_append_left _ hrow'
      · exact hrow'

/-- The request of another push goes. -/
theorem addRequest_filter {rows : List RequestRow} {id : UInt32} (hne : id ≠ p.requestId) :
    p.addRequest (rows.filter (·.id ≠ id)) = (p.addRequest rows).filter (·.id ≠ id) := by
  have hguard : (p.resources ≠ [] ∧ ∀ row ∈ rows.filter (·.id ≠ id), row.id ≠ p.requestId)
      ↔ p.resources ≠ [] ∧ ∀ row ∈ rows, row.id ≠ p.requestId := by
    refine and_congr_right (fun _ => ⟨fun h row hrow hid => ?_, fun h row hrow => ?_⟩)
    · refine h row (List.mem_filter.mpr ⟨hrow, decide_eq_true (fun hid' => ?_)⟩) hid
      exact hne (hid'.symm.trans hid)
    · exact h row (List.mem_filter.mp hrow).1
  unfold addRequest
  by_cases h : p.resources ≠ [] ∧ ∀ row ∈ rows, row.id ≠ p.requestId
  · have hnew : [p.request].filter (·.id ≠ id) = [p.request] := by
      refine List.filter_eq_self.mpr (fun row hrow => ?_)
      obtain rfl := List.mem_singleton.mp hrow
      exact decide_eq_true hne.symm
    rw [if_pos (hguard.mpr h), if_pos h, List.filter_append, hnew]
  · rw [if_neg (fun hc => h (hguard.mp hc)), if_neg h]

/-- What is found before is found after it. -/
theorem find?_addRequest {rows : List RequestRow} {id : UInt32} {row : RequestRow}
    (h : rows.find? (·.id = id) = some row) : (p.addRequest rows).find? (·.id = id) = some row := by
  unfold addRequest
  split
  · rw [List.find?_append, h]
    rfl
  · exact h

/-- The message of another push is updated. -/
theorem addMessage_map {rows : List MessageRow} {id : UInt32} (hne : id ≠ p.requestId)
    (status : MessageStatus) :
    p.addMessage (rows.map (fun row => if row.id = id then { row with status := status } else row))
      = (p.addMessage rows).map (fun row => if row.id = id then { row with status := status } else row) := by
  have hid : ∀ row : MessageRow,
      (if row.id = id then { row with status := status } else row).id = row.id := by
    intro row
    split
    · rfl
    · rfl
  have hguard : (p.text ≠ [] ∧ ∀ row ∈ rows.map
        (fun row => if row.id = id then { row with status := status } else row), row.id ≠ p.requestId)
      ↔ p.text ≠ [] ∧ ∀ row ∈ rows, row.id ≠ p.requestId := by
    rw [List.forall_mem_map]
    simp only [hid]
  unfold addMessage
  by_cases h : p.text ≠ [] ∧ ∀ row ∈ rows, row.id ≠ p.requestId
  · have hmessage : p.message.id ≠ id := fun he => hne he.symm
    rw [if_pos (hguard.mpr h), if_pos h, List.map_append, List.map_singleton, if_neg hmessage]
  · rw [if_neg (fun hc => h (hguard.mp hc)), if_neg h]

end Push

namespace Records

/-- The tables that a handling writes have the same rows. -/
structure SameRows (s s' : Records) : Prop where
  requests : s.requests = s'.requests
  resources : s.resources = s'.resources
  messages : s.messages = s'.messages

theorem foldl_insertResource_eq (p : Push) : ∀ (ids : List UInt32) (s : Records),
    ids.foldl (insertResource p.requestId) s = { s with resources := p.addResources s.resources ids }
  | [], _ => rfl
  | id :: ids, s => by
      have hfirst : insertResource p.requestId s id
          = { s with resources := p.addResource s.resources id } := by
        unfold insertResource Push.addResource
        split
        · rfl
        · rfl
      rw [List.foldl_cons, hfirst, foldl_insertResource_eq]
      rfl

theorem processMessage_messages (s : Records) (p : Push) :
    (s.processMessage p p.resources.length).messages = p.addMessage s.messages := by
  unfold processMessage Push.addMessage
  by_cases htext : p.text = []
  · rw [htext]
    simp
  · have hempty : p.text.isEmpty = false := List.isEmpty_eq_false_iff.mpr htext
    rw [hempty, if_neg (by decide)]
    dsimp only
    by_cases hcount : s.messages.countP (·.id = p.requestId) = 0
    · have hguard : p.text ≠ [] ∧ ∀ row ∈ s.messages, row.id ≠ p.requestId :=
        ⟨htext, Push.countP_eq_zero_iff.mp hcount⟩
      rw [if_pos hcount, if_pos hguard]
      by_cases hzero : p.resources.length = 0
      · rw [if_pos hzero]
        rfl
      · rw [if_neg hzero]
        rfl
    · have hguard : ¬ (p.text ≠ [] ∧ ∀ row ∈ s.messages, row.id ≠ p.requestId) :=
        fun h => hcount (Push.countP_eq_zero_iff.mpr h.2)
      rw [if_neg hcount, if_neg hguard]
      split
      · rfl
      · rfl

theorem processMessage_others (s : Records) (p : Push) (numResources : Nat) :
    (s.processMessage p numResources).requests = s.requests
      ∧ (s.processMessage p numResources).resources = s.resources := by
  unfold processMessage
  dsimp only
  split
  · exact ⟨rfl, rfl⟩
  · split
    · split
      · exact ⟨rfl, rfl⟩
      · exact ⟨rfl, rfl⟩
    · split
      · exact ⟨rfl, rfl⟩
      · exact ⟨rfl, rfl⟩

/-- **What a handling leaves in the tables.** -/
theorem processPush_rows (s : Records) (p : Push) :
    (s.processPush p).1.requests = p.addRequest s.requests
      ∧ (s.processPush p).1.resources = p.addResources s.resources p.resources
      ∧ (s.processPush p).1.messages = p.addMessage s.messages := by
  unfold processPush
  dsimp only
  rw [processMessage_messages, (processMessage_others _ p _).1, (processMessage_others _ p _).2]
  by_cases hempty : p.resources = []
  · have haddRequest : p.addRequest s.requests = s.requests := if_neg (fun h => h.1 hempty)
    rw [haddRequest, hempty]
    exact ⟨rfl, rfl, rfl⟩
  · have hlength : p.resources.length ≠ 0 := fun h => hempty (List.length_eq_zero_iff.mp h)
    rw [if_pos hlength, foldl_insertResource_eq]
    unfold Push.addRequest
    by_cases hcount : s.requests.countP (·.id = p.requestId) = 0
    · rw [if_pos hcount, if_pos ⟨hempty, Push.countP_eq_zero_iff.mp hcount⟩]
      exact ⟨rfl, rfl, rfl⟩
    · rw [if_neg hcount, if_neg (fun h => hcount (Push.countP_eq_zero_iff.mpr h.2))]
      exact ⟨rfl, rfl, rfl⟩

/-! ## A handling that stops -/

/-- The insert of the request, with `n` inserts left that succeed. -/
def insertRequest (n : Nat) (s : Records) (p : Push) : Option Nat × Records :=
  if s.requests.countP (·.id = p.requestId) = 0 then
    match n with
    | 0 => (none, s)
    | n + 1 => (some n, { s with requests := s.requests ++ [⟨p.requestId, p.key, p.salt⟩] })
  else (some n, s)

/-- The inserts of the resources. -/
def insertResources (requestId : UInt32) : Nat → Records → List UInt32 → Option Nat × Records
  | n, s, [] => (some n, s)
  | n, s, id :: ids =>
      if s.resources.countP (·.id = id) = 0 then
        match n with
        | 0 => (none, s)
        | n + 1 => insertResources requestId n (insertResource requestId s id) ids
      else insertResources requestId n s ids

/-- The insert of the message. Nobody looks at the result of `processMessage`. -/
def insertMessage (n : Nat) (s : Records) (p : Push) : Records :=
  if p.text ≠ [] ∧ s.messages.countP (·.id = p.requestId) = 0 ∧ n = 0 then s
  else s.processMessage p p.resources.length

/-- `Client::processPush`, up to its call of `processMessage`. -/
def insertRows (n : Nat) (s : Records) (p : Push) : Option Nat × Records :=
  if p.resources.length ≠ 0 then
    match s.insertRequest n p with
    | (none, s) => (none, s)
    | (some n, s) => insertResources p.requestId n s p.resources
  else (some n, s)

/-- `Client::processPush`, where `n` inserts succeed and the next one fails. -/
def processPushStopped (n : Nat) (s : Records) (p : Push) : Records :=
  match s.insertRows n p with
  | (none, s) => s
  | (some n, s) => s.insertMessage n p

theorem insertResources_spec (p : Push) : ∀ (ids : List UInt32) (n : Nat) (s : Records),
    ∃ k, (insertResources p.requestId n s ids).2
        = { s with resources := p.addResources s.resources (ids.take k) }
      ∧ ((insertResources p.requestId n s ids).1 ≠ none → k = ids.length)
  | [], _, _ => ⟨0, rfl, fun _ => rfl⟩
  | id :: ids, n, s => by
      unfold insertResources
      by_cases hcount : s.resources.countP (·.id = id) = 0
      · rw [if_pos hcount]
        cases n with
        | zero => exact ⟨0, rfl, fun h => absurd rfl h⟩
        | succ n =>
          obtain ⟨k, heq, hlength⟩ := insertResources_spec p ids n (insertResource p.requestId s id)
          have hfirst := foldl_insertResource_eq p [id] s
          refine ⟨k + 1, ?_, fun h => congrArg (· + 1) (hlength h)⟩
          rw [List.foldl_cons, List.foldl_nil] at hfirst
          rw [heq, hfirst]
          rfl
      · obtain ⟨k, heq, hlength⟩ := insertResources_spec p ids n s
        have hfirst : p.addResource s.resources id = s.resources := if_neg hcount
        rw [if_neg hcount]
        refine ⟨k + 1, ?_, fun h => congrArg (· + 1) (hlength h)⟩
        rw [heq, List.take_succ_cons]
        change _ = { s with
          resources := p.addResources (p.addResource s.resources id) (ids.take k) }
        rw [hfirst]

theorem insertResources_enough (requestId : UInt32) : ∀ (ids : List UInt32) (n : Nat) (s : Records),
    ∃ m, insertResources requestId (n + ids.length) s ids
        = (some m, ids.foldl (insertResource requestId) s) ∧ n ≤ m
  | [], n, _ => ⟨n, rfl, Nat.le_refl n⟩
  | id :: ids, n, s => by
      rw [List.length_cons, ← Nat.add_assoc]
      unfold insertResources
      by_cases hcount : s.resources.countP (·.id = id) = 0
      · obtain ⟨m, heq, hm⟩ := insertResources_enough requestId ids n (insertResource requestId s id)
        refine ⟨m, ?_, hm⟩
        rw [if_pos hcount]
        exact heq
      · have hfirst : insertResource requestId s id = s := if_neg hcount
        obtain ⟨m, heq, hm⟩ := insertResources_enough requestId ids (n + 1) s
        refine ⟨m, ?_, Nat.le_of_succ_le hm⟩
        rw [if_neg hcount, List.foldl_cons, hfirst, Nat.add_right_comm, heq]

theorem insertRows_enough (n : Nat) (s : Records) (p : Push) :
    ∃ m s', insertRows (n + p.resources.length + 2) s p = (some m, s') ∧ 0 < m
      ∧ (s.processPush p).1 = s'.processMessage p p.resources.length := by
  unfold insertRows processPush
  by_cases hempty : p.resources.length = 0
  · dsimp only
    rw [if_neg (fun hne => hne hempty), if_neg (fun hne => hne hempty)]
    exact ⟨_, s, rfl, Nat.succ_pos _, rfl⟩
  · unfold insertRequest
    dsimp only
    rw [if_pos hempty, if_pos hempty]
    by_cases hcount : s.requests.countP (·.id = p.requestId) = 0
    · obtain ⟨m, heq, hm⟩ := insertResources_enough p.requestId p.resources (n + 1)
        { s with requests := s.requests ++ [⟨p.requestId, p.key, p.salt⟩] }
      rw [if_pos hcount, if_pos hcount]
      dsimp only
      rw [Nat.add_right_comm n _ 1, heq]
      exact ⟨m, _, rfl, Nat.lt_of_lt_of_le (Nat.succ_pos n) hm, rfl⟩
    · obtain ⟨m, heq, hm⟩ := insertResources_enough p.requestId p.resources (n + 2) s
      rw [if_neg hcount, if_neg hcount]
      dsimp only
      rw [Nat.add_right_comm n _ 2, heq]
      exact ⟨m, _, rfl, Nat.lt_of_lt_of_le (Nat.succ_pos _) hm, rfl⟩

/-- A handling with enough inserts does not stop. -/
theorem processPushStopped_enough {n : Nat} (s : Records) (p : Push) (h : p.resources.length + 2 ≤ n) :
    s.processPushStopped n p = (s.processPush p).1 := by
  obtain ⟨n, rfl⟩ : ∃ m, n = m + p.resources.length + 2 := ⟨n - (p.resources.length + 2), by omega⟩
  obtain ⟨m, s', hrows, hm, heq⟩ := insertRows_enough n s p
  unfold processPushStopped insertMessage
  rw [hrows, heq]
  exact if_neg (fun hc => Nat.ne_of_gt hm hc.2.2)

theorem insertRows_spec (n : Nat) (s : Records) (p : Push) :
    ∃ k, (s.insertRows n p).2.resources = p.addResources s.resources (p.resources.take k)
      ∧ ((s.insertRows n p).2.requests = s.requests
        ∨ (s.insertRows n p).2.requests = p.addRequest s.requests)
      ∧ (s.insertRows n p).2.messages = s.messages
      ∧ ((s.insertRows n p).1 ≠ none → k = p.resources.length) := by
  unfold insertRows
  by_cases hempty : p.resources.length = 0
  · rw [if_neg (fun hne => hne hempty)]
    exact ⟨0, rfl, .inl rfl, rfl, fun _ => hempty.symm⟩
  · have hne : p.resources ≠ [] := fun h => hempty (List.length_eq_zero_iff.mpr h)
    rw [if_pos hempty]
    unfold insertRequest
    by_cases hcount : s.requests.countP (·.id = p.requestId) = 0
    · rw [if_pos hcount]
      cases n with
      | zero => exact ⟨0, rfl, .inl rfl, rfl, fun h => absurd rfl h⟩
      | succ n =>
        have hadd : p.addRequest s.requests = s.requests ++ [p.request] :=
          if_pos ⟨hne, Push.countP_eq_zero_iff.mp hcount⟩
        obtain ⟨k, heq, hlength⟩ := insertResources_spec p p.resources n
          { s with requests := s.requests ++ [⟨p.requestId, p.key, p.salt⟩] }
        dsimp only
        rw [heq]
        exact ⟨k, rfl, .inr hadd.symm, rfl, hlength⟩
    · obtain ⟨k, heq, hlength⟩ := insertResources_spec p p.resources n s
      rw [if_neg hcount]
      dsimp only
      rw [heq]
      exact ⟨k, rfl, .inl rfl, rfl, hlength⟩

/-- **What a handling that stops leaves in the tables.** The message comes last. -/
theorem processPushStopped_rows (n : Nat) (s : Records) (p : Push) :
    ((s.processPushStopped n p).requests = s.requests
        ∨ (s.processPushStopped n p).requests = p.addRequest s.requests)
      ∧ ∃ k, (s.processPushStopped n p).resources = p.addResources s.resources (p.resources.take k)
        ∧ ((s.processPushStopped n p).messages = s.messages
          ∨ (s.processPushStopped n p).messages = p.addMessage s.messages ∧ k = p.resources.length) := by
  obtain ⟨k, hresources, hrequests, hmessages, hlength⟩ := insertRows_spec n s p
  unfold processPushStopped
  cases hrows : s.insertRows n p with
  | mk left s' =>
    rw [hrows] at hresources hrequests hmessages hlength
    cases left with
    | none => exact ⟨hrequests, k, hresources, .inl hmessages⟩
    | some m =>
      dsimp only at hresources hrequests hmessages ⊢
      unfold insertMessage
      split
      · exact ⟨hrequests, k, hresources, .inl hmessages⟩
      · obtain ⟨hkept, hkept'⟩ := processMessage_others s' p p.resources.length
        rw [hkept, hkept', processMessage_messages, hmessages]
        exact ⟨hrequests, k, hresources, .inr ⟨rfl, hlength (fun h => by cases h)⟩⟩

/-! ## Two runs

`t` is a state of a run in which the push was handled once, and `s` the state at the same
place of a run in which the handling may have stopped. -/

/-- The resources of a push are in the table, and have been received. -/
structure AllReceived (s : Records) (p : Push) : Prop where
  some : ∃ row ∈ s.resources, row.request = p.requestId
  received : ∀ row ∈ s.resources, row.request = p.requestId → row.status = .received
  listed : ∀ id ∈ p.resources, ∃ row ∈ s.resources, row.id = id

def otherRequests (s : Records) (p : Push) : List RequestRow := s.requests.filter (·.id ≠ p.requestId)

/-- What `s` lacks is what another handling adds, as long as the request is in the table of `t`. -/
structure Lags (p : Push) (s t : Records) : Prop where
  resources : t.resources = p.addResources s.resources p.resources
  own : ∀ row ∈ t.resources, ∀ row' ∈ t.resources, row.id = row'.id →
    row.request = p.requestId → row'.request = p.requestId
  listed : ∀ row ∈ t.resources, row.request = p.requestId → row.id ∈ p.resources
  requests : s.requests = s.otherRequests p ∨ s.requests = s.otherRequests p ++ [p.request]
  others : t.otherRequests p = s.otherRequests p
  /-- The message comes after the resources. -/
  messages : t.resources = s.resources ∨ ∀ row ∈ s.messages, row.id ≠ p.requestId
  pending : ¬ t.AllReceived p →
    t.requests = p.addRequest s.requests ∧ t.messages = p.addMessage s.messages
  done : t.AllReceived p → ∀ row ∈ t.requests, row.id ≠ p.requestId

/-- No row is there for a push. -/
structure Unhandled (s : Records) (p : Push) : Prop where
  requests : ∀ row ∈ s.requests, row.id ≠ p.requestId
  resources : ∀ row ∈ s.resources, row.request ≠ p.requestId
  messages : ∀ row ∈ s.messages, row.id ≠ p.requestId

variable {p : Push} {s t : Records}

theorem addRequest_addRequest (rows : List RequestRow) :
    p.addRequest (p.addRequest rows) = p.addRequest rows := by
  unfold Push.addRequest
  by_cases h : p.resources ≠ [] ∧ ∀ row ∈ rows, row.id ≠ p.requestId
  · rw [if_pos h, if_neg]
    intro hc
    exact hc.2 p.request (List.mem_append_right _ (List.mem_singleton.mpr rfl)) rfl
  · rw [if_neg h, if_neg h]

theorem addMessage_addMessage (rows : List MessageRow) :
    p.addMessage (p.addMessage rows) = p.addMessage rows := by
  unfold Push.addMessage
  by_cases h : p.text ≠ [] ∧ ∀ row ∈ rows, row.id ≠ p.requestId
  · rw [if_pos h, if_neg]
    intro hc
    exact hc.2 p.message (List.mem_append_right _ (List.mem_singleton.mpr rfl)) rfl
  · rw [if_neg h, if_neg h]

theorem Lags.subset (h : Lags p s t) : ∀ row ∈ s.resources, row ∈ t.resources := by
  obtain ⟨added, heq, -, -⟩ := @Push.addResources_eq p p.resources s.resources
  intro row hrow
  rw [h.resources, heq]
  exact List.mem_append_left _ hrow

/-- A row that only the one run has is new. -/
theorem Lags.mem (h : Lags p s t) {row : ResourceRow} (hrow : row ∈ t.resources) :
    row ∈ s.resources ∨ row.request = p.requestId ∧ row.status = .unknown
      ∧ ∀ row' ∈ s.resources, row'.id ≠ row.id := by
  obtain ⟨added, heq, hadded, -⟩ := @Push.addResources_eq p p.resources s.resources
  rw [h.resources, heq] at hrow
  rcases List.mem_append.mp hrow with hold | hnew
  · exact .inl hold
  · obtain ⟨hrequest, hstatus, -, hfresh⟩ := hadded row hnew
    exact .inr ⟨hrequest, hstatus, hfresh⟩

theorem Lags.find? (h : Lags p s t) {P : ResourceRow → Bool} {row : ResourceRow}
    (hrow : s.resources.find? P = Option.some row) : t.resources.find? P = Option.some row := by
  obtain ⟨added, heq, -, -⟩ := @Push.addResources_eq p p.resources s.resources
  rw [h.resources, heq, List.find?_append, hrow]
  rfl

/-- A request that `s` has is found in `t`, if a resource of it is missing. -/
theorem Lags.request (h : Lags p s t) {id : UInt32} {row : RequestRow}
    (hrow : s.request id = Option.some row) (hpending : id = p.requestId → ¬ t.AllReceived p) :
    t.request id = Option.some row := by
  unfold Records.request at hrow ⊢
  by_cases hall : t.AllReceived p
  · have hne : id ≠ p.requestId := fun hid => hpending hid hall
    have hother : ∀ rows : List RequestRow, (rows.filter (·.id ≠ p.requestId)).find? (·.id = id)
        = rows.find? (·.id = id) := by
      intro rows
      rw [List.find?_filter]
      refine congrArg (List.find? · rows) (funext (fun row => ?_))
      by_cases hid : row.id = id
      · simp [hid, hne]
      · simp [hid]
    rw [← hother, show t.requests.filter (·.id ≠ p.requestId) = _ from h.others]
    exact (hother s.requests).trans hrow
  · rw [(h.pending hall).1]
    exact Push.find?_addRequest hrow

/-- **A push is handled,** and the handling may stop. -/
theorem lags_processPush (h : s.Unhandled p) (n : Nat) :
    Lags p (s.processPushStopped n p) (s.processPush p).1 := by
  obtain ⟨hrequests, k, hresources, hmessages⟩ := processPushStopped_rows n s p
  obtain ⟨hrequests', hresources', hmessages'⟩ := processPush_rows s p
  obtain ⟨added, heq, hadded, -⟩ := @Push.addResources_eq p p.resources s.resources
  have hothers : s.requests.filter (·.id ≠ p.requestId) = s.requests :=
    List.filter_eq_self.mpr (fun row hrow => decide_eq_true (h.requests row hrow))
  have hothers' : (p.addRequest s.requests).filter (·.id ≠ p.requestId) = s.requests := by
    unfold Push.addRequest
    split
    · rw [List.filter_append, hothers, List.filter_eq_nil_iff.mpr, List.append_nil]
      intro row hrow hid
      obtain rfl := List.mem_singleton.mp hrow
      exact of_decide_eq_true hid rfl
    · exact hothers
  have hother : (s.processPushStopped n p).otherRequests p = s.requests := by
    unfold otherRequests
    rcases hrequests with hold | hnew
    · rw [hold, hothers]
    · rw [hnew, hothers']
  have hown : ∀ row ∈ (s.processPush p).1.resources, row.request = p.requestId →
      row ∈ added := by
    rw [hresources', heq]
    intro row hrow hrequest
    exact (List.mem_append.mp hrow).resolve_left (fun hold => h.resources row hold hrequest)
  refine ⟨?_, ?_, ?_, ?_, ?_, ?_, ?_, ?_⟩
  · rw [hresources', hresources, Push.addResources_take]
  · intro row hrow row' hrow' hid hrequest
    obtain ⟨-, -, -, hfresh⟩ := hadded row (hown row hrow hrequest)
    rw [hresources', heq] at hrow'
    rcases List.mem_append.mp hrow' with hold | hnew
    · exact absurd hid.symm (hfresh row' hold)
    · exact (hadded row' hnew).1
  · intro row hrow hrequest
    exact (hadded row (hown row hrow hrequest)).2.2.1
  · rw [hother]
    rcases hrequests with hold | hnew
    · exact .inl hold
    · rw [hnew]
      unfold Push.addRequest
      split
      · exact .inr rfl
      · exact .inl rfl
  · rw [hother, otherRequests, hrequests', hothers']
  · rcases hmessages with hold | ⟨-, hk⟩
    · rw [hold]
      exact .inr h.messages
    · rw [hresources', hresources, hk, List.take_length]
      exact .inl rfl
  · intro _
    rw [hrequests', hmessages']
    refine ⟨?_, ?_⟩
    · rcases hrequests with hold | hnew
      · rw [hold]
      · rw [hnew, addRequest_addRequest]
    · rcases hmessages with hold | ⟨hnew, -⟩
      · rw [hold]
      · rw [hnew, addMessage_addMessage]
  · intro hall
    obtain ⟨row, hrow, hrequest⟩ := hall.some
    have hstatus := hall.received row hrow hrequest
    rw [(hadded row (hown row hrow hrequest)).2.1] at hstatus
    cases hstatus

/-! ## A reception -/

/-- The rows of a resource change in both runs. -/
theorem Lags.map (h : Lags p s t) {s' t' : Records} {g : ResourceRow → ResourceRow}
    (hid : ∀ row, (g row).id = row.id) (hrequest : ∀ row, (g row).request = row.request)
    (hold : ∀ row : ResourceRow, (∀ row' ∈ s.resources, row'.id ≠ row.id) → g row = row)
    (hs : s' = { s with resources := s.resources.map g, events := s'.events })
    (ht : t' = { t with resources := t.resources.map g, events := t'.events })
    (hall : t'.AllReceived p ↔ t.AllReceived p) : Lags p s' t' where
  resources := by
    rw [hs, ht, h.resources]
    exact (Push.addResources_map hid hold).symm
  own := by
    rw [ht]
    refine List.forall_mem_map.mpr (fun row hrow => List.forall_mem_map.mpr (fun row' hrow' => ?_))
    rw [hid, hid, hrequest, hrequest]
    exact h.own row hrow row' hrow'
  listed := by
    rw [ht]
    refine List.forall_mem_map.mpr (fun row hrow => ?_)
    rw [hid, hrequest]
    exact h.listed row hrow
  requests := by
    rw [hs]
    exact h.requests
  others := by
    rw [hs, ht]
    exact h.others
  messages := by
    rw [hs, ht]
    refine h.messages.imp_left (fun heq => ?_)
    exact congrArg (List.map g) heq
  pending := by
    intro hn
    rw [hs, ht]
    exact h.pending (fun hc => hn (hall.mpr hc))
  done := by
    intro ha
    rw [ht]
    exact h.done (hall.mp ha)

/-- Rows of other requests do not count. -/
theorem allReceived_map {t' : Records} {g : ResourceRow → ResourceRow}
    (hid : ∀ row, (g row).id = row.id) (hrequest : ∀ row, (g row).request = row.request)
    (hown : ∀ row ∈ t.resources, row.request = p.requestId → g row = row)
    (ht : t'.resources = t.resources.map g) : t'.AllReceived p ↔ t.AllReceived p := by
  constructor
  · rintro ⟨⟨row, hrow, hrowRequest⟩, hreceived, hlisted⟩
    rw [ht] at hrow hreceived hlisted
    refine ⟨?_, ?_, ?_⟩
    · obtain ⟨row', hrow', rfl⟩ := List.mem_map.mp hrow
      exact ⟨row', hrow', (hrequest row').symm.trans hrowRequest⟩
    · intro row' hrow' hrowRequest'
      rw [← hown row' hrow' hrowRequest']
      exact hreceived _ (List.mem_map.mpr ⟨row', hrow', rfl⟩) ((hrequest row').trans hrowRequest')
    · intro id hlistedId
      obtain ⟨row', hrow', hrowId⟩ := hlisted id hlistedId
      obtain ⟨row₀, hrow₀, rfl⟩ := List.mem_map.mp hrow'
      exact ⟨row₀, hrow₀, (hid row₀).symm.trans hrowId⟩
  · rintro ⟨⟨row, hrow, hrowRequest⟩, hreceived, hlisted⟩
    refine ⟨?_, ?_, ?_⟩
    · rw [ht]
      exact ⟨g row, List.mem_map.mpr ⟨row, hrow, rfl⟩, (hrequest row).trans hrowRequest⟩
    · rw [ht]
      refine List.forall_mem_map.mpr (fun row' hrow' hrowRequest' => ?_)
      rw [hrequest] at hrowRequest'
      rw [hown row' hrow' hrowRequest']
      exact hreceived row' hrow' hrowRequest'
    · rw [ht]
      intro id hlistedId
      obtain ⟨row', hrow', hrowId⟩ := hlisted id hlistedId
      exact ⟨g row', List.mem_map.mpr ⟨row', hrow', rfl⟩, (hid row').trans hrowId⟩

/-- What a packet of a resource needs for a receiver, and what it does. -/
theorem createResourceReceiver_some {pkt : Packet} {r : IncomingReceiver} :
    (s.createResourceReceiver pkt).2 = Option.some r
      ↔ ∃ row, s.resources.find? (fun row => row.id = pkt.head.streamId ∧ row.status = .unknown)
          = Option.some row
        ∧ s.request row.request = Option.some r.request
        ∧ ResourceReceiver.create pkt (Option.some r.request.key)
            (resourceSalt (Option.some r.request.salt) pkt.head.streamId) = Option.some r.receiver := by
  unfold createResourceReceiver
  dsimp only
  cases hrow : s.resources.find? (fun row => row.id = pkt.head.streamId ∧ row.status = .unknown) with
  | none => exact ⟨fun h => (by cases h), fun ⟨_, h, _⟩ => by cases h⟩
  | some row =>
    obtain ⟨hmem, hid, -⟩ := Records.find_unknown hrow
    obtain ⟨row', hfind⟩ := exists_resource (mem_updateResource.mpr ⟨row, hmem, rfl⟩)
      ((id_updated row pkt.head.streamId .incoming).trans hid)
    dsimp only
    cases hrequest : s.request row.request with
    | none =>
      refine ⟨fun h => (by cases h), ?_⟩
      rintro ⟨row₁, hrow₁, h, -⟩
      obtain rfl := Option.some.inj hrow₁
      cases hrequest.symm.trans h
    | some request =>
      dsimp only
      cases hcreate : ResourceReceiver.create pkt (Option.some request.key)
          (resourceSalt (Option.some request.salt) pkt.head.streamId) with
      | none =>
        refine ⟨fun h => (by cases h), ?_⟩
        rintro ⟨row₁, hrow₁, h, hcreate₁⟩
        obtain rfl := Option.some.inj hrow₁
        obtain rfl := Option.some.inj (hrequest.symm.trans h)
        cases hcreate.symm.trans hcreate₁
      | some receiver =>
        dsimp only
        rw [hfind]
        dsimp only
        constructor
        · intro h
          obtain rfl := Option.some.inj h
          exact ⟨row, rfl, hrequest, hcreate⟩
        · rintro ⟨row₁, hrow₁, h, hcreate₁⟩
          obtain rfl := Option.some.inj hrow₁
          obtain rfl := Option.some.inj (hrequest.symm.trans h)
          obtain rfl := Option.some.inj (hcreate.symm.trans hcreate₁)
          rfl

theorem createResourceReceiver_records {pkt : Packet} {r : IncomingReceiver}
    (h : (s.createResourceReceiver pkt).2 = Option.some r) :
    (s.createResourceReceiver pkt).1 =
      { s.updateResource pkt.head.streamId .incoming with
        events := (s.createResourceReceiver pkt).1.events } := by
  unfold createResourceReceiver at h ⊢
  dsimp only at h ⊢
  split at h
  · cases h
  · split at h
    · cases h
    · split at h
      · cases h
      · split at h
        · cases h
        · rfl

/-- **The first packet of a resource** makes the same receiver in both runs. -/
theorem Lags.createResourceReceiver (h : Lags p s t) {pkt : Packet} {r : IncomingReceiver}
    (hr : (s.createResourceReceiver pkt).2 = Option.some r) :
    (t.createResourceReceiver pkt).2 = Option.some r
      ∧ Lags p (s.createResourceReceiver pkt).1 (t.createResourceReceiver pkt).1
      ∧ r.receiver.id = pkt.head.streamId
      ∧ ∃ row ∈ (s.createResourceReceiver pkt).1.resources, row.id = pkt.head.streamId
        ∧ (row.request = p.requestId ↔ r.request.id = p.requestId) := by
  obtain ⟨row, hrow, hrequest, hcreate⟩ := createResourceReceiver_some.mp hr
  obtain ⟨hmem, hid, hunknown⟩ := Records.find_unknown hrow
  have hrequestId : r.request.id = row.request := by
    simpa using List.find?_some hrequest
  -- a row that waits for its first packet has not been received
  have hpending : row.request = p.requestId → ¬ t.AllReceived p := by
    intro hp hall
    cases (hall.received row (h.subset row hmem) hp).symm.trans hunknown
  have hr' : (t.createResourceReceiver pkt).2 = Option.some r :=
    createResourceReceiver_some.mpr ⟨row, h.find? hrow, h.request hrequest hpending, hcreate⟩
  have hs := createResourceReceiver_records hr
  have ht := createResourceReceiver_records hr'
  refine ⟨hr', ?_, ?_, ?_⟩
  · refine h.map (fun row => id_updated row pkt.head.streamId .incoming)
      (fun row => request_updated row pkt.head.streamId .incoming) ?_ hs ht ?_
    · intro row' hfresh
      exact if_neg (fun hid' => hfresh row hmem (hid.trans hid'.symm))
    · by_cases hp : row.request = p.requestId
      · refine iff_of_false (fun hall => ?_) (hpending hp)
        have hreceived := hall.received
        rw [ht] at hreceived
        have hmarked := hreceived _ (List.mem_map.mpr ⟨row, h.subset row hmem, rfl⟩)
          ((request_updated row pkt.head.streamId .incoming).trans hp)
        rw [if_pos hid] at hmarked
        cases hmarked
      · refine allReceived_map (fun row => id_updated row pkt.head.streamId .incoming)
          (fun row => request_updated row pkt.head.streamId .incoming) ?_ (by rw [ht]; rfl)
        intro row' hrow' hp'
        refine if_neg (fun hid' => hp ?_)
        exact h.own row' hrow' row (h.subset row hmem) (hid'.trans hid.symm) hp'
  · unfold ResourceReceiver.create at hcreate
    split at hcreate
    · rw [← Option.some.inj hcreate]
      rfl
    · cases hcreate
  · rw [hs]
    refine ⟨_, List.mem_map.mpr ⟨row, hmem, rfl⟩, ?_, ?_⟩
    · exact (id_updated row pkt.head.streamId .incoming).trans hid
    · rw [request_updated, hrequestId]

/-- The row of a resource that has come in. -/
def stored (id : UInt32) (buffer : MemoryBuffer) (row : ResourceRow) : ResourceRow :=
  if row.id = id then { row with status := .received, data := Option.some buffer } else row

theorem stored_id (id : UInt32) (buffer : MemoryBuffer) (row : ResourceRow) :
    (stored id buffer row).id = row.id := by
  unfold stored
  split
  · rfl
  · rfl

theorem stored_request (id : UInt32) (buffer : MemoryBuffer) (row : ResourceRow) :
    (stored id buffer row).request = row.request := by
  unfold stored
  split
  · rfl
  · rfl

theorem stored_of_ne {id : UInt32} {buffer : MemoryBuffer} {row : ResourceRow} (h : row.id ≠ id) :
    stored id buffer row = row := if_neg h

theorem stored_status {id : UInt32} {buffer : MemoryBuffer} {row : ResourceRow} (h : row.id = id) :
    (stored id buffer row).status = .received := by
  unfold stored
  rw [if_pos h]

/-- The callback, with the last resource of a request. -/
theorem resourceReceived_rows_last {id : UInt32} {buffer : MemoryBuffer} {request : RequestRow}
    (h : Others s request.id id) : s.resourceReceived id buffer request =
      { resources := s.resources.map (stored id buffer)
        requests := s.requests.filter (·.id ≠ request.id)
        messages := (s.updateMessage request.id .received).messages
        events := (s.resourceReceived id buffer request).events } := by
  obtain ⟨message, resource, heq⟩ := @resourceReceived_last s id buffer request h
  rw [heq]
  rfl

theorem resourceReceived_rows_other {id : UInt32} {buffer : MemoryBuffer} {request : RequestRow}
    (h : ¬ Others s request.id id) : s.resourceReceived id buffer request =
      { s with
        resources := s.resources.map (stored id buffer)
        events := (s.resourceReceived id buffer request).events } := by
  obtain ⟨message, resource, heq⟩ := @resourceReceived_other s id buffer request h
  rw [heq]
  rfl

section

variable {id : UInt32} {buffer : MemoryBuffer} {request : RequestRow}

theorem Lags.stored_fresh (hrow : ∃ row ∈ s.resources, row.id = id) (row : ResourceRow)
    (hfresh : ∀ row' ∈ s.resources, row'.id ≠ row.id) : stored id buffer row = row := by
  obtain ⟨row', hmem, hid⟩ := hrow
  exact stored_of_ne (fun hid' => hfresh row' hmem (hid.trans hid'.symm))

theorem Lags.resources_stored (h : Lags p s t) (hrow : ∃ row ∈ s.resources, row.id = id) :
    t.resources.map (stored id buffer)
      = p.addResources (s.resources.map (stored id buffer)) p.resources := by
  rw [h.resources]
  exact (Push.addResources_map (stored_id id buffer) (Lags.stored_fresh hrow)).symm

theorem Lags.own_stored (h : Lags p s t) : ∀ row ∈ t.resources.map (stored id buffer),
    ∀ row' ∈ t.resources.map (stored id buffer), row.id = row'.id →
    row.request = p.requestId → row'.request = p.requestId := by
  refine List.forall_mem_map.mpr (fun row hrow => List.forall_mem_map.mpr (fun row' hrow' => ?_))
  rw [stored_id, stored_id, stored_request, stored_request]
  exact h.own row hrow row' hrow'

theorem Lags.listed_stored (h : Lags p s t) : ∀ row ∈ t.resources.map (stored id buffer),
    row.request = p.requestId → row.id ∈ p.resources := by
  refine List.forall_mem_map.mpr (fun row hrow => ?_)
  rw [stored_id, stored_request]
  exact h.listed row hrow

theorem otherRequests_filter (rows : List RequestRow) (id : UInt32) :
    (rows.filter (·.id ≠ id)).filter (·.id ≠ p.requestId)
      = (rows.filter (·.id ≠ p.requestId)).filter (·.id ≠ id) := by
  rw [List.filter_filter, List.filter_filter]
  refine List.filter_congr (fun row _ => ?_)
  exact Bool.and_comm _ _

/-- **The last packet of a resource of another push.** -/
theorem Lags.resourceReceived_other (h : Lags p s t) (hne : request.id ≠ p.requestId)
    (hrow : ∃ row ∈ s.resources, row.id = id ∧ row.request ≠ p.requestId) :
    Lags p (s.resourceReceived id buffer request) (t.resourceReceived id buffer request) := by
  obtain ⟨row₀, hmem₀, hid₀, hrequest₀⟩ := hrow
  have hrow : ∃ row ∈ s.resources, row.id = id := ⟨row₀, hmem₀, hid₀⟩
  have hkept : ∀ row ∈ t.resources, row.request = p.requestId → stored id buffer row = row := by
    intro row hrow hp
    refine stored_of_ne (fun hid => hrequest₀ ?_)
    exact h.own row hrow row₀ (h.subset row₀ hmem₀) (hid.trans hid₀.symm) hp
  have hothers : Others t request.id id ↔ Others s request.id id := by
    refine ⟨fun ht row hrow => ht row (h.subset row hrow), fun hs row hrow hrequest => ?_⟩
    rcases h.mem hrow with hold | ⟨hp, -, -⟩
    · exact hs row hold hrequest
    · exact absurd (hrequest.symm.trans hp) hne
  by_cases hs : Others s request.id id
  · have hs' := @resourceReceived_rows_last s id buffer request hs
    have ht' := @resourceReceived_rows_last t id buffer request (hothers.mpr hs)
    have hall : (t.resourceReceived id buffer request).AllReceived p ↔ t.AllReceived p :=
      allReceived_map (stored_id id buffer) (stored_request id buffer) hkept (by rw [ht'])
    refine ⟨?_, ?_, ?_, ?_, ?_, ?_, ?_, ?_⟩
    · rw [hs', ht']
      exact h.resources_stored hrow
    · rw [ht']
      exact h.own_stored
    · rw [ht']
      exact h.listed_stored
    · rw [hs']
      unfold otherRequests
      dsimp only
      rw [otherRequests_filter]
      rcases h.requests with heq | heq
      · refine .inl ?_
        conv => lhs; rw [heq]
        rfl
      · refine .inr ?_
        have hlast : [p.request].filter (·.id ≠ request.id) = [p.request] := by
          refine List.filter_eq_self.mpr (fun row hrow => ?_)
          obtain rfl := List.mem_singleton.mp hrow
          exact decide_eq_true hne.symm
        conv => lhs; rw [heq, List.filter_append, hlast]
        rfl
    · rw [hs', ht']
      unfold otherRequests
      dsimp only
      rw [otherRequests_filter, otherRequests_filter]
      exact congrArg _ h.others
    · rw [hs', ht']
      rcases h.messages with heq | hnone
      · exact .inl (congrArg (List.map (stored id buffer)) heq)
      · refine .inr (List.forall_mem_map.mpr (fun row hrow => ?_))
        by_cases hid : row.id = request.id
        · rw [if_pos hid]
          exact hnone row hrow
        · rw [if_neg hid]
          exact hnone row hrow
    · intro hn
      obtain ⟨hrequests, hmessages⟩ := h.pending (fun hc => hn (hall.mpr hc))
      rw [hs', ht']
      refine ⟨?_, ?_⟩
      · dsimp only
        rw [hrequests, Push.addRequest_filter hne]
      · unfold updateMessage
        dsimp only
        rw [hmessages, Push.addMessage_map hne]
    · intro ha
      rw [ht']
      exact fun row hrow => h.done (hall.mp ha) row (List.mem_filter.mp hrow).1
  · have hs' := @resourceReceived_rows_other s id buffer request hs
    have ht' := @resourceReceived_rows_other t id buffer request (fun ht => hs (hothers.mp ht))
    exact h.map (stored_id id buffer) (stored_request id buffer) (Lags.stored_fresh hrow) hs' ht'
      (allReceived_map (stored_id id buffer) (stored_request id buffer) hkept (by rw [ht']))

/-- **The last packet of a resource of the push itself.** -/
theorem Lags.resourceReceived_own (h : Lags p s t) (hp : request.id = p.requestId)
    (hrow : ∃ row ∈ s.resources, row.id = id ∧ row.request = p.requestId) :
    Lags p (s.resourceReceived id buffer request) (t.resourceReceived id buffer request) := by
  obtain ⟨row₀, hmem₀, hid₀, hrequest₀⟩ := hrow
  have hrow : ∃ row ∈ s.resources, row.id = id := ⟨row₀, hmem₀, hid₀⟩
  have hsubset : Others t request.id id → Others s request.id id :=
    fun ht row hrow => ht row (h.subset row hrow)
  -- another resource is still to come
  have hwaiting : ∀ t' : Records, t'.resources = t.resources.map (stored id buffer) →
      ¬ Others t request.id id → ¬ t'.AllReceived p := by
    intro t' ht' hn hall
    refine hn (fun row hmem hrequest => ?_)
    have hreceived := hall.received
    rw [ht'] at hreceived
    have hstatus := hreceived _ (List.mem_map.mpr ⟨row, hmem, rfl⟩)
      ((stored_request id buffer row).trans (hrequest.trans hp))
    by_cases hid : row.id = id
    · exact .inl hid
    · rw [stored_of_ne hid] at hstatus
      exact .inr hstatus
  have hall_others : t.AllReceived p → Others t request.id id :=
    fun hall row hmem hrequest => .inr (hall.received row hmem (hrequest.trans hp))
  by_cases ht : Others t request.id id
  · have hs' := @resourceReceived_rows_last s id buffer request (hsubset ht)
    have ht' := @resourceReceived_rows_last t id buffer request ht
    rw [hp] at hs' ht'
    have hgone : ∀ row ∈ (t.resourceReceived id buffer request).requests, row.id ≠ p.requestId := by
      rw [ht']
      exact fun row hrow => of_decide_eq_true (List.mem_filter.mp hrow).2
    refine ⟨?_, ?_, ?_, ?_, ?_, ?_, ?_, fun _ => hgone⟩
    · rw [hs', ht']
      exact h.resources_stored hrow
    · rw [ht']
      exact h.own_stored
    · rw [ht']
      exact h.listed_stored
    · refine .inl ?_
      rw [hs']
      unfold otherRequests
      dsimp only
      rw [List.filter_filter]
      simp only [Bool.and_self]
    · rw [hs', ht']
      unfold otherRequests
      exact congrArg _ h.others
    · rw [hs', ht']
      rcases h.messages with heq | hnone
      · exact .inl (congrArg (List.map (stored id buffer)) heq)
      · refine .inr (List.forall_mem_map.mpr (fun row hrow => ?_))
        rw [if_neg (hnone row hrow)]
        exact hnone row hrow
    · -- all of them have been received now
      intro hn
      refine absurd ⟨?_, ?_, ?_⟩ hn
      · rw [ht']
        exact ⟨_, List.mem_map.mpr ⟨row₀, h.subset row₀ hmem₀, rfl⟩,
          (stored_request id buffer row₀).trans hrequest₀⟩
      · rw [ht']
        refine List.forall_mem_map.mpr (fun row hmem hrequest => ?_)
        rw [stored_request] at hrequest
        rcases ht row hmem (hrequest.trans hp.symm) with hid | hstatus
        · exact stored_status hid
        · by_cases hid : row.id = id
          · exact stored_status hid
          · rw [stored_of_ne hid]
            exact hstatus
      · rw [ht']
        intro id' hid'
        obtain ⟨added, heq, -, hlisted⟩ := @Push.addResources_eq p p.resources s.resources
        obtain ⟨row, hmem, hrowId⟩ := hlisted id' hid'
        rw [← heq, ← h.resources] at hmem
        exact ⟨_, List.mem_map.mpr ⟨row, hmem, rfl⟩, (stored_id id buffer row).trans hrowId⟩
  · have ht' := @resourceReceived_rows_other t id buffer request ht
    have hpending := h.pending (fun hall => ht (hall_others hall))
    have hn := hwaiting (t.resourceReceived id buffer request) (by rw [ht']) ht
    by_cases hs : Others s request.id id
    · -- the run that lacks the other resources takes this one for the last
      have hs' := @resourceReceived_rows_last s id buffer request hs
      have hlacks : t.resources ≠ s.resources := by
        intro heq
        refine ht (fun row hmem => hs row ?_)
        rwa [← heq]
      have hlisted : p.resources ≠ [] := by
        intro hnil
        refine hlacks ?_
        rw [h.resources, hnil]
        rfl
      have hnone := h.messages.resolve_left hlacks
      have hmessages : (s.updateMessage p.requestId .received).messages = s.messages :=
        (List.map_congr_left (fun row hrow => if_neg (hnone row hrow))).trans (List.map_id s.messages)
      have hrequests : t.requests = s.otherRequests p ++ [p.request] := by
        rw [hpending.1]
        unfold Push.addRequest
        rcases h.requests with heq | heq
        · have hguard : p.resources ≠ [] ∧ ∀ row ∈ s.requests, row.id ≠ p.requestId := by
            refine ⟨hlisted, fun row hrow => ?_⟩
            rw [heq] at hrow
            exact of_decide_eq_true (List.mem_filter.mp hrow).2
          rw [if_pos hguard]
          conv => lhs; rw [heq]
        · have hguard : ¬ (p.resources ≠ [] ∧ ∀ row ∈ s.requests, row.id ≠ p.requestId) := by
            intro hc
            refine hc.2 p.request ?_ rfl
            rw [heq]
            exact List.mem_append_right _ (List.mem_singleton.mpr rfl)
          rw [if_neg hguard]
          exact heq
      rw [hp, hmessages] at hs'
      refine ⟨?_, ?_, ?_, ?_, ?_, ?_, fun _ => ⟨?_, ?_⟩, fun hall => absurd hall hn⟩
      · rw [hs', ht']
        exact h.resources_stored hrow
      · rw [ht']
        exact h.own_stored
      · rw [ht']
        exact h.listed_stored
      · refine .inl ?_
        rw [hs']
        unfold otherRequests
        dsimp only
        rw [List.filter_filter]
        simp only [Bool.and_self]
      · rw [hs', ht']
        unfold otherRequests
        dsimp only
        rw [List.filter_filter]
        simp only [Bool.and_self]
        exact h.others
      · rw [hs']
        exact .inr hnone
      · rw [hs', ht']
        dsimp only
        rw [hrequests]
        refine (if_pos ⟨hlisted, fun row hrow => ?_⟩).symm
        exact of_decide_eq_true (List.mem_filter.mp hrow).2
      · rw [hs', ht']
        exact hpending.2
    · have hs' := @resourceReceived_rows_other s id buffer request hs
      refine h.map (stored_id id buffer) (stored_request id buffer) (Lags.stored_fresh hrow) hs' ht' ?_
      exact iff_of_false hn (fun hall => ht (hall_others hall))

theorem resourceReceived_resources (s : Records) (id : UInt32) (buffer : MemoryBuffer)
    (request : RequestRow) :
    (s.resourceReceived id buffer request).resources = s.resources.map (stored id buffer) := by
  by_cases h : Others s request.id id
  · rw [resourceReceived_rows_last h]
  · rw [resourceReceived_rows_other h]

/-- **The last packet of a resource.** -/
theorem Lags.resourceReceived (h : Lags p s t)
    (hrow : ∃ row ∈ s.resources, row.id = id
      ∧ (row.request = p.requestId ↔ request.id = p.requestId)) :
    Lags p (s.resourceReceived id buffer request) (t.resourceReceived id buffer request) := by
  obtain ⟨row, hmem, hid, hiff⟩ := hrow
  by_cases hp : request.id = p.requestId
  · exact h.resourceReceived_own hp ⟨row, hmem, hid, hiff.mpr hp⟩
  · exact h.resourceReceived_other hp ⟨row, hmem, hid, fun hc => hp (hiff.mp hc)⟩

end

/-! ## The next handling -/

/-- The resources have been received in both runs, or in none. -/
theorem Lags.allReceived_iff (h : Lags p s t) :
    s.AllReceived p ↔ t.AllReceived p := by
  constructor
  · intro hs
    have heq : t.resources = s.resources := h.resources.trans (Push.addResources_self hs.listed)
    refine ⟨?_, ?_, ?_⟩
    · rw [heq]
      exact hs.some
    · rw [heq]
      exact hs.received
    · rw [heq]
      exact hs.listed
  · intro ht
    -- a row that only this run has has not been received
    have hmem : ∀ row ∈ t.resources, row ∈ s.resources := by
      intro row hrow
      refine (h.mem hrow).resolve_right ?_
      rintro ⟨hrequest, hunknown, -⟩
      cases (ht.received row hrow hrequest).symm.trans hunknown
    obtain ⟨row, hrow, hrequest⟩ := ht.some
    refine ⟨⟨row, hmem row hrow, hrequest⟩, fun row' hrow' => ht.received row' (h.subset row' hrow'), ?_⟩
    intro id hid
    obtain ⟨row', hrow', hrowId⟩ := ht.listed id hid
    exact ⟨row', hmem row' hrow', hrowId⟩

/-- **Another handling** makes up for it, unless the request is gone. -/
theorem Lags.sameRows_iff (h : Lags p s t) :
    SameRows (s.processPush p).1 t ↔ ¬ s.AllReceived p := by
  obtain ⟨hrequests, hresources, hmessages⟩ := processPush_rows s p
  rw [h.allReceived_iff]
  constructor
  · intro hsame hall
    have hnone := h.done hall
    rw [← hsame.requests, hrequests] at hnone
    obtain ⟨row, hrow, hrequest⟩ := hall.some
    have hlisted : p.resources ≠ [] := List.ne_nil_of_mem (h.listed row hrow hrequest)
    unfold Push.addRequest at hnone
    by_cases hguard : p.resources ≠ [] ∧ ∀ row ∈ s.requests, row.id ≠ p.requestId
    · rw [if_pos hguard] at hnone
      exact hnone p.request (List.mem_append_right _ (List.mem_singleton.mpr rfl)) rfl
    · rw [if_neg hguard] at hnone
      exact hguard ⟨hlisted, hnone⟩
  · intro hn
    obtain ⟨hpending, hpending'⟩ := h.pending hn
    exact ⟨hrequests.trans hpending.symm, hresources.trans h.resources.symm,
      hmessages.trans hpending'.symm⟩

end Records

namespace Incoming

section

variable (aes_encrypt : Bytes → Bytes → Bytes)

/-- `Engine::processIncomingPacket`, with a packet that is accepted. -/
def receive (s : Incoming) (pkt : Packet) : Option Incoming :=
  let processed := s.processIncomingPacket aes_encrypt pkt
  if processed.ok then some processed.incoming else none

end

/-- Nothing of a push has come in. -/
structure Unhandled (s : Incoming) (p : Push) : Prop where
  records : s.records.Unhandled p
  /-- The receivers are those of other pushes. -/
  receivers : ∀ id r, OrdMap.find? s.streamReceivers id = some (.resource r) → r.receiver.id = id
    ∧ r.request.id ≠ p.requestId ∧ ∃ row ∈ s.records.resources, row.id = id

/-- A receiver has a row, and finishes the request of that row or none of the push. -/
def Follows (p : Push) (resources : List ResourceRow) (id : UInt32) (r : IncomingReceiver) : Prop :=
  r.receiver.id = id ∧ ∃ row ∈ resources, row.id = id
    ∧ (row.request = p.requestId ↔ r.request.id = p.requestId)

/-- The two runs receive the same. -/
structure Behind (p : Push) (s t : Incoming) : Prop where
  records : Records.Lags p s.records t.records
  streamReceivers : t.streamReceivers = s.streamReceivers
  receivers : ∀ id r, OrdMap.find? s.streamReceivers id = some (.resource r) →
    Follows p s.records.resources id r

variable {aes_encrypt : Bytes → Bytes → Bytes} {p : Push} {s t : Incoming}

theorem Follows.map {rows : List ResourceRow} {id : UInt32} {r : IncomingReceiver}
    (h : Follows p rows id r) {g : ResourceRow → ResourceRow} (hid : ∀ row, (g row).id = row.id)
    (hrequest : ∀ row, (g row).request = row.request) : Follows p (rows.map g) id r := by
  obtain ⟨hr, row, hmem, hrow, hiff⟩ := h
  exact ⟨hr, g row, List.mem_map.mpr ⟨row, hmem, rfl⟩, (hid row).trans hrow,
    (hrequest row).symm ▸ hiff⟩

/-- **A packet** does the same in both runs. -/
theorem Behind.processReceiver (h : Behind p s t) {r : IncomingReceiver} {pkt : Packet}
    (hr : Follows p s.records.resources pkt.head.streamId r) :
    (t.processReceiver aes_encrypt r pkt).ok = (s.processReceiver aes_encrypt r pkt).ok
      ∧ Behind p (s.processReceiver aes_encrypt r pkt).incoming
        (t.processReceiver aes_encrypt r pkt).incoming := by
  obtain ⟨hid, row, hmem, hrow, hiff⟩ := hr
  have hprocessId : (ResourceReceiver.process aes_encrypt r.receiver pkt).receiver.id
      = pkt.head.streamId := (ResourceReceiver.process_id r.receiver pkt).trans hid
  unfold Incoming.processReceiver
  dsimp only
  rw [h.streamReceivers, hprocessId]
  generalize ResourceReceiver.process aes_encrypt r.receiver pkt = q at hprocessId
  -- the records
  obtain ⟨records, hrecords⟩ : ∃ f : Records → Records, f = fun s =>
      if q.invoked ∧ q.receiver.status = .completed then
        s.resourceReceived pkt.head.streamId q.receiver.buffer r.request
      else s := ⟨_, rfl⟩
  have hlags : Records.Lags p (records s.records) (records t.records) := by
    rw [hrecords]
    dsimp only
    split
    · exact h.records.resourceReceived ⟨row, hmem, hrow, hiff⟩
    · exact h.records
  have hkept : ∀ {id : UInt32} {r : IncomingReceiver}, Follows p s.records.resources id r →
      Follows p (records s.records).resources id r := by
    intro id r hfollows
    rw [hrecords]
    dsimp only
    split
    · rw [Records.resourceReceived_resources]
      exact hfollows.map (Records.stored_id _ _) (Records.stored_request _ _)
    · exact hfollows
  -- the receivers
  have hinsert : ∀ id r', OrdMap.find? (OrdMap.insert pkt.head.streamId
      (.resource { r with receiver := q.receiver }) s.streamReceivers) id = some (.resource r') →
      Follows p (records s.records).resources id r' := by
    intro id r' hfind
    by_cases hkey : id = pkt.head.streamId
    · rw [hkey, OrdMap.find?_insert_self] at hfind
      obtain rfl := IncomingStream.resource.inj (Option.some.inj hfind)
      rw [hkey]
      exact hkept ⟨hprocessId, row, hmem, hrow, hiff⟩
    · rw [OrdMap.find?_insert_of_ne _ _ hkey] at hfind
      exact hkept (h.receivers id r' hfind)
  have hs : ∀ s : Incoming, records s.records =
      if q.invoked ∧ q.receiver.status = .completed then
        s.records.resourceReceived pkt.head.streamId q.receiver.buffer r.request
      else s.records := fun s => congrFun hrecords s.records
  rw [← hs s, ← hs t]
  split
  · refine ⟨rfl, hlags, rfl, fun id r' hfind => ?_⟩
    by_cases hkey : id = pkt.head.streamId
    · rw [hkey, OrdMap.find?_erase_self] at hfind
      cases hfind
    · rw [OrdMap.find?_erase_of_ne _ hkey] at hfind
      exact hinsert id r' hfind
  · exact ⟨rfl, hlags, rfl, hinsert⟩

/-- A packet of a document leaves the resources alone. -/
theorem Behind.processDocument (h : Behind p s t) (r : BufferReceiver Unit) (pkt : Packet) :
    (t.processDocument r pkt).ok = (s.processDocument r pkt).ok
      ∧ Behind p (s.processDocument r pkt).incoming (t.processDocument r pkt).incoming := by
  unfold Incoming.processDocument
  dsimp only
  rw [h.streamReceivers]
  generalize BufferReceiver.process BufferReceiver.processPacket r pkt = q
  have hinsert : ∀ id r', OrdMap.find? (OrdMap.insert pkt.head.streamId (.document q.receiver)
      s.streamReceivers) id = some (.resource r') → Follows p s.records.resources id r' := by
    intro id r' hfind
    by_cases hkey : id = pkt.head.streamId
    · rw [hkey, OrdMap.find?_insert_self] at hfind
      cases hfind
    · rw [OrdMap.find?_insert_of_ne _ _ hkey] at hfind
      exact h.receivers id r' hfind
  split
  · refine ⟨rfl, h.records, rfl, fun id r' hfind => ?_⟩
    by_cases hkey : id = q.receiver.id
    · rw [hkey, OrdMap.find?_erase_self] at hfind
      cases hfind
    · rw [OrdMap.find?_erase_of_ne _ hkey] at hfind
      exact hinsert id r' hfind
  · exact ⟨rfl, h.records, rfl, hinsert⟩

/-- A receiver that a packet makes is the same in both runs. -/
theorem Behind.createStreamReceiver (h : Behind p s t) {pkt : Packet} {r : IncomingStream}
    (hr : (s.records.createStreamReceiver pkt).2 = some r) :
    (t.records.createStreamReceiver pkt).2 = some r
      ∧ Behind p { s with records := (s.records.createStreamReceiver pkt).1 }
          { t with records := (t.records.createStreamReceiver pkt).1 }
      ∧ ∀ r', r = .resource r' →
        Follows p (s.records.createStreamReceiver pkt).1.resources pkt.head.streamId r' := by
  unfold Records.createStreamReceiver at hr ⊢
  by_cases htype : pkt.head.streamType = Packet.Resource
  · -- the row of the resource says which push it is of
    rw [if_pos htype] at hr ⊢
    rw [if_pos htype]
    obtain ⟨r', hcreate, rfl⟩ := Option.map_eq_some_iff.mp hr
    obtain ⟨hcreate', hlags, hid, hrow⟩ := h.records.createResourceReceiver hcreate
    have hs := Records.createResourceReceiver_records hcreate
    refine ⟨congrArg (Option.map _) hcreate', ⟨hlags, h.streamReceivers, fun id r₁ hfind => ?_⟩, ?_⟩
    · have hfollows := (h.receivers id r₁ hfind).map
        (fun row => Records.id_updated row pkt.head.streamId .incoming)
        (fun row => Records.request_updated row pkt.head.streamId .incoming)
      dsimp only
      rw [hs]
      exact hfollows
    · intro r₁ heq
      obtain rfl := IncomingStream.resource.inj heq
      exact ⟨hid, hrow⟩
  · -- no row is looked at for a document
    rw [if_neg htype] at hr ⊢
    rw [if_neg htype]
    by_cases hrequest : pkt.head.streamType = Packet.Request
    · rw [if_pos hrequest] at hr ⊢
      rw [if_pos hrequest]
      refine ⟨hr, ⟨h.records, h.streamReceivers, h.receivers⟩, fun r' heq => ?_⟩
      subst heq
      cases hr
    · rw [if_neg hrequest] at hr
      cases hr

/-- A packet goes to the same receiver in both runs. -/
theorem Behind.processStream (h : Behind p s t) {r : IncomingStream} {pkt : Packet}
    (hr : ∀ r', r = .resource r' → Follows p s.records.resources pkt.head.streamId r') :
    (t.processStream aes_encrypt pkt r).ok = (s.processStream aes_encrypt pkt r).ok
      ∧ Behind p (s.processStream aes_encrypt pkt r).incoming
        (t.processStream aes_encrypt pkt r).incoming := by
  cases r with
  | resource r => exact h.processReceiver (hr r rfl)
  | document r => exact h.processDocument r pkt

theorem receive_eq_some {pkt : Packet} {s' : Incoming} : s.receive aes_encrypt pkt = some s'
    ↔ (s.processIncomingPacket aes_encrypt pkt).ok = true
      ∧ (s.processIncomingPacket aes_encrypt pkt).incoming = s' := by
  unfold receive
  dsimp only
  split
  · rename_i hok
    exact ⟨fun h => ⟨hok, Option.some.inj h⟩, fun h => congrArg some h.2⟩
  · rename_i hok
    exact ⟨fun h => (by cases h), fun h => absurd h.1 hok⟩

/-- **What the one run receives the other one receives.** -/
theorem Behind.receive (h : Behind p s t) {pkt : Packet} {s' : Incoming}
    (hs : s.receive aes_encrypt pkt = some s') :
    ∃ t', t.receive aes_encrypt pkt = some t' ∧ Behind p s' t' := by
  obtain ⟨hok, rfl⟩ := receive_eq_some.mp hs
  have hpair : (t.processIncomingPacket aes_encrypt pkt).ok = true
      ∧ Behind p (s.processIncomingPacket aes_encrypt pkt).incoming
        (t.processIncomingPacket aes_encrypt pkt).incoming := by
    unfold processIncomingPacket at hok ⊢
    rw [h.streamReceivers]
    cases hfind : OrdMap.find? s.streamReceivers pkt.head.streamId with
    | some r =>
      rw [hfind] at hok
      obtain ⟨heq, hbehind⟩ := @Behind.processStream aes_encrypt p s t h r pkt
        (fun r' hr => h.receivers _ r' (hr ▸ hfind))
      exact ⟨heq.trans hok, hbehind⟩
    | none =>
      rw [hfind] at hok
      dsimp only at hok ⊢
      cases hcreate : (s.records.createStreamReceiver pkt).2 with
      | none =>
        rw [hcreate] at hok
        cases hok
      | some r =>
        rw [hcreate] at hok
        obtain ⟨hcreate', hbehind, hfollows⟩ := h.createStreamReceiver hcreate
        obtain ⟨heq, hbehind'⟩ := @Behind.processStream aes_encrypt p _ _ hbehind r pkt hfollows
        rw [hcreate']
        rw [h.streamReceivers] at heq hbehind'
        exact ⟨heq.trans hok, hbehind'⟩
  exact ⟨_, receive_eq_some.mpr ⟨hpair.1, rfl⟩, hpair.2⟩

/-- Both runs begin. -/
theorem behind_processPush (h : s.Unhandled p) (n : Nat) :
    Behind p { s with records := s.records.processPushStopped n p }
      { s with records := (s.records.processPush p).1 } := by
  refine ⟨Records.lags_processPush h.records n, rfl, fun id r hfind => ?_⟩
  obtain ⟨hid, hne, row, hrow, hrowId⟩ := h.receivers id r hfind
  obtain ⟨-, k, hresources, -⟩ := Records.processPushStopped_rows n s.records p
  obtain ⟨added, heq, -, -⟩ := @Push.addResources_eq p (p.resources.take k) s.records.resources
  refine ⟨hid, row, ?_, hrowId, iff_of_false (h.records.resources row hrow) hne⟩
  dsimp only
  rw [hresources, heq]
  exact List.mem_append_left _ hrow

/-- **A push that is handled again,** after any packets that came in meanwhile. (After one without a
body that a receiver takes, the source has crashed.) -/
theorem redelivered_iff (h : s.Unhandled p) (n : Nat) {pkts : List Packet} {s' : Incoming}
    (hrun : Steps.run (receive aes_encrypt) { s with records := s.records.processPushStopped n p } pkts
      = some s') :
    ∃ t, Steps.run (receive aes_encrypt) { s with records := (s.records.processPush p).1 } pkts = some t
      ∧ (Records.SameRows (s'.records.processPush p).1 t.records ↔ ¬ s'.records.AllReceived p) := by
  have hstep : ∀ s t pkt s', Behind p s t → receive aes_encrypt s pkt = some s' →
      ∃ t', receive aes_encrypt t pkt = some t' ∧ Behind p s' t' :=
    fun _ _ _ _ hbehind hreceive => hbehind.receive hreceive
  obtain ⟨t, hrun', hbehind⟩ := Steps.run_simulation hstep (behind_processPush h n) hrun
  exact ⟨t, hrun', hbehind.records.sameRows_iff⟩

/-- Nothing at all. -/
def nothing : Incoming := ⟨Records.empty, []⟩

theorem unhandled_nothing (p : Push) : nothing.Unhandled p where
  records := ⟨fun _ h => (by cases h), fun _ h => (by cases h), fun _ h => (by cases h)⟩
  receivers := fun _ _ h => by cases h

theorem redelivered_iff_stopped :
    ∃ t, Steps.run (receive Receiving.zeroCipher)
        { nothing with records := (nothing.records.processPush Receiving.firstPush).1 } [] = some t
      ∧ (Records.SameRows ((nothing.records.processPushStopped 1 Receiving.firstPush).processPush
            Receiving.firstPush).1 t.records
          ↔ ¬ (nothing.records.processPushStopped 1 Receiving.firstPush).AllReceived
            Receiving.firstPush) :=
  @redelivered_iff Receiving.zeroCipher Receiving.firstPush nothing
    (unhandled_nothing Receiving.firstPush) 1 []
    { nothing with records := nothing.records.processPushStopped 1 Receiving.firstPush } rfl

/-- A packet with which a receiver completes has been accepted. -/
theorem ok_of_completed {pkt : Packet}
    (h : (s.processIncomingPacket aes_encrypt pkt).completed = true) :
    (s.processIncomingPacket aes_encrypt pkt).ok = true := by
  have hstream : ∀ (s : Incoming) (r : IncomingStream),
      (s.processStream aes_encrypt pkt r).completed = true →
      (s.processStream aes_encrypt pkt r).ok = true := by
    intro s r hcompleted
    cases r with
    | resource r =>
      unfold processStream processReceiver at hcompleted ⊢
      dsimp only at hcompleted ⊢
      generalize ResourceReceiver.process aes_encrypt r.receiver pkt = q at hcompleted ⊢
      by_cases hend : q.ok = false ∨ q.receiver.status = .completed
      · rw [if_pos hend] at hcompleted ⊢
        exact (Bool.and_eq_true_iff.mp hcompleted).1
      · rw [if_neg hend] at hcompleted
        cases hcompleted
    | document r =>
      unfold processStream processDocument at hcompleted
      dsimp only at hcompleted
      split at hcompleted
      · cases hcompleted
      · cases hcompleted
  unfold processIncomingPacket at h ⊢
  split at h
  · exact hstream _ _ h
  · dsimp only at h ⊢
    split at h
    · exact hstream _ _ h
    · cases h

/-- **The push comes again after its last resource.** The request is in the table for good. -/
theorem redelivered_after_last :
    nothing.Unhandled Receiving.firstPush
      ∧ ∃ t, Steps.run (receive Receiving.zeroCipher)
          { nothing with records := (nothing.records.processPush Receiving.firstPush).1 }
          [Receiving.firstPush.packet Receiving.zeroCipher 7 Receiving.oneByte 0] = some t
        ∧ t.records.requests = []
        ∧ (t.records.processPush Receiving.firstPush).1.requests = [Receiving.firstPush.request]
        ∧ ¬ Records.SameRows (t.records.processPush Receiving.firstPush).1 t.records := by
  have hd := @Tracks.delivered Receiving.zeroCipher Receiving.firstPush 7 Receiving.oneByte 0 announcedOnce
    (announced_announcedOnce.tracks Receiving.oneByte) (Receiving.oneByte.parts_pos 7)
    announced_announcedOnce.record
  have hparts : Receiving.oneByte.parts 7 = 1 := by decide
  have hothers : Records.Others announcedOnce.records 1 7 := by
    intro row hrow _
    obtain rfl := List.mem_singleton.mp hrow
    exact .inl rfl
  have hok := ok_of_completed (hd.completed.mpr hparts.symm)
  have hrequests := (hd.finished hparts.symm hothers).requests
  generalize hs : announcedOnce.processIncomingPacket Receiving.zeroCipher
    (Receiving.firstPush.packet Receiving.zeroCipher 7 Receiving.oneByte 0) = r at hok hrequests
  have hempty : r.incoming.records.requests = [] := hrequests
  have hagain : (r.incoming.records.processPush Receiving.firstPush).1.requests
      = [Receiving.firstPush.request] := by
    rw [(Records.processPush_rows _ _).1, hempty]
    rfl
  refine ⟨unhandled_nothing _, r.incoming, ?_, hempty, hagain, fun hsame => ?_⟩
  · refine Steps.run_cons_eq_some.mpr ⟨r.incoming, receive_eq_some.mpr ?_, rfl⟩
    exact ⟨(congrArg Processed.ok hs).trans hok, congrArg Processed.incoming hs⟩
  · have hboth := hagain.symm.trans (hsame.requests.trans hempty)
    cases hboth

end Incoming

end Zway.Client
