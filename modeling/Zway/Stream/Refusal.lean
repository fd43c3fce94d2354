import Mathlib.Algebra.Order.BigOperators.Group.List
import Zway.Stream.Calls
import Zway.Stream.Delivery

/-!
# Refused packets

A packet callback may turn a packet down, and the round ends. By then the sender has
counted the part already, so that the next round goes on with the one after it.

What a sender offers in its calls does not depend on the answers, nor on other senders: the
log of what was offered is, sender by sender, what the sender offers when it is processed by
itself.
-/

namespace Zway

/-! ## Rounds with any answers -/

/-- The sending half of an engine and all that was offered so far: the sender, the packet and the
answer. -/
structure Answered (δ : Type) where
  table : SenderTable δ
  log : List (Nat × Packet × Bool)

/-- A packet callback whose answer may depend on anything that was offered before. -/
def ask (answer : List (Packet × Bool) → Packet → Bool) (pkt : Packet) (log : List (Packet × Bool)) :
    Bool × List (Packet × Bool) :=
  (answer log pkt, log ++ [(pkt, answer log pkt)])

section

variable {δ : Type} (virtuals : SenderVirtuals δ) (copyBody : Bool)

namespace Answered

/-- What the packet callback has seen: it does not know the senders. -/
def seen (l : Answered δ) : List (Packet × Bool) := l.log.map (·.2)

/-- The packets of a round, turn by turn of the loop, each with the sender whose turn it is. -/
def offers (posts : Nat → List (StreamSender δ)) (answer : List (Packet × Bool) → Packet → Bool) :
    List Nat → Round δ (List (Packet × Bool)) → List (Nat × Packet × Bool)
  | [], _ => []
  | i :: is, r =>
      let turn := processStreamSender virtuals posts copyBody (ask answer) i r
      (turn.2.out.drop r.out.length).map (Prod.mk i)
        ++ if turn.1 then offers posts answer is turn.2 else []

/-- A round of `Engine::processStreamSenders`. -/
def round (posts : Nat → List (StreamSender δ)) (answer : List (Packet × Bool) → Packet → Bool)
    (l : Answered δ) : Answered δ where
  table := (processStreamSenders virtuals posts copyBody (ask answer) l.table l.seen).table
  log := l.log ++ offers virtuals copyBody posts answer l.table.streamSenders ⟨l.table, l.seen, 0⟩

variable (P : StreamSender δ → Prop)

/-- What can happen: a sender is added, or there is a round, with any answers. The senders that are
added, also by the callbacks of others, are as `P` says. -/
inductive Step : Answered δ → Answered δ → Prop where
  | add (l : Answered δ) (s : StreamSender δ) : P s →
      Step l { l with table := l.table.addStreamSender s }
  | round (l : Answered δ) (posts : Nat → List (StreamSender δ))
      (answer : List (Packet × Bool) → Packet → Bool) :
      (∀ i, ∀ s ∈ posts i, P s) → Step l (l.round virtuals copyBody posts answer)

inductive Reachable : Answered δ → Prop where
  | init : Reachable ⟨.empty, []⟩
  | tail {l l' : Answered δ} : Reachable l → Step virtuals copyBody P l l' → Reachable l'

end Answered

/-- What a call offers, with the answer. -/
def Sent.asked (answer : List (Packet × Bool) → Packet → Bool) (log : List (Packet × Bool))
    (p : Sent δ) : List (Packet × Bool) :=
  (p.offered copyBody).toList.map fun pkt => (pkt, answer log pkt)

/-- The table after a call, before the callback of the sender adds anything. -/
def SenderTable.processed (t : SenderTable δ) (i : Nat) (p : Sent δ) (removed : Bool) :
    SenderTable δ where
  objects := t.objects.set i p.sender
  streamSenders := if removed then t.streamSenders.filter (· ≠ i) else t.streamSenders
  callbacks := t.callbacks ++ if p.invoked then [(i, p.sender.status)] else []

variable {virtuals copyBody}

theorem storeSent_eq (posts : Nat → List (StreamSender δ)) {t : SenderTable δ} {i : Nat}
    (hi : i < t.objects.length) (p : Sent δ) (removed : Bool) :
    (if removed then (storeSent posts t i p).removeStreamSender i else storeSent posts t i p)
      = if p.invoked then (posts i).foldl SenderTable.addStreamSender (t.processed i p removed)
        else t.processed i p removed := by
  have hlen : i < (t.objects.set i p.sender).length := by
    rw [List.length_set]
    exact hi
  unfold storeSent SenderTable.processed
  by_cases hinvoked : p.invoked = true
  · rw [if_pos hinvoked, if_pos hinvoked, if_pos hinvoked]
    cases removed with
    | true =>
      rw [if_pos rfl, if_pos rfl]
      exact Link.removeStreamSender_addAll i (posts i) _ hlen
    | false => rfl
  · rw [if_neg hinvoked, if_neg hinvoked, if_neg hinvoked, List.append_nil]
    cases removed with
    | true => rfl
    | false => rfl

/-- **One turn of the loop.** The round goes on if the call did not end the sender and nothing was
refused; a sender that is ended is removed unless its packet was refused. -/
theorem processStreamSender_asked (posts : Nat → List (StreamSender δ))
    (answer : List (Packet × Bool) → Packet → Bool) {r : Round δ (List (Packet × Bool))} {i : Nat}
    {sender : StreamSender δ} (hobject : r.table.objects[i]? = some sender) {p : Sent δ}
    (hp : sender.process virtuals = p) :
    ∃ res, processStreamSender virtuals posts copyBody (ask answer) i r =
      (!p.final && (p.asked copyBody answer r.out).all (·.2),
        { table :=
            if p.final && (p.asked copyBody answer r.out).all (·.2) then
              (storeSent posts r.table i p).removeStreamSender i
            else storeSent posts r.table i p
          out := r.out ++ p.asked copyBody answer r.out
          res := res }) := by
  obtain ⟨table, out, res⟩ := r
  obtain ⟨ok, pkt, s', invoked⟩ := p
  unfold processStreamSender
  rw [hobject]
  dsimp only
  rw [hp]
  unfold Sent.asked Sent.offered Sent.final
  cases ok with
  | false => exact ⟨res, by simp⟩
  | true =>
    cases pkt with
    | none =>
      refine ⟨res, ?_⟩
      by_cases hstatus : s'.status = .completed
      · simp [hstatus]
      · simp [hstatus]
    | some pkt =>
      dsimp only [ask]
      cases hanswer : answer out
          (if copyBody = true then { pkt with body := pkt.body.bind MemoryBuffer.copy } else pkt) with
      | false => exact ⟨0, by simp [hanswer]⟩
      | true =>
        refine ⟨res + 1, ?_⟩
        by_cases hstatus : s'.status = .completed
        · simp [hstatus, hanswer]
        · simp [hstatus, hanswer]

/-! ## The invariant -/

namespace Answered

/-- What one sender offered, with the answers. -/
def ofSender (log : List (Nat × Packet × Bool)) (i : Nat) : List (Packet × Bool) :=
  (log.filter fun e => e.1 = i).map (·.2)

/-- How the callback of one sender was called. -/
def reportsOf (t : SenderTable δ) (i : Nat) : List SenderStatus :=
  (t.callbacks.filter fun c => c.1 = i).map (·.2)

/-- What the turn of sender `i` leaves, before its callback adds anything. -/
def turn (copyBody : Bool) (answer : List (Packet × Bool) → Packet → Bool) (l : Answered δ) (i : Nat)
    (p : Sent δ) : Answered δ where
  table := l.table.processed i p (p.final && (p.asked copyBody answer l.seen).all (·.2))
  log := l.log ++ (p.asked copyBody answer l.seen).map (Prod.mk i)

variable {P : StreamSender δ → Prop}

variable (virtuals copyBody P) in
/-- Sender `i`, which was added as `s`, was processed `k` times. -/
structure SendInv (l : Answered δ) (i : Nat) (s : StreamSender δ) (k : Nat) : Prop where
  allowed : P s
  object : l.table.objects[i]? = some (s.calls virtuals k)
  offered : (ofSender l.log i).map (·.1) = s.offers virtuals copyBody k
  reports : reportsOf l.table i = s.reports virtuals k
  /-- A call that ends it is its last one, or its packet was refused. -/
  ended : ∀ j, j < k → (s.outcome virtuals j).final = true →
    (j + 1 = k ∧ i ∉ l.table.streamSenders) ∨ ∃ pkt, (pkt, false) ∈ ofSender l.log i
  gone : i ∉ l.table.streamSenders → ∃ j, k = j + 1 ∧ (s.outcome virtuals j).final = true

variable (virtuals copyBody P) in
structure Inv (l : Answered δ) : Prop where
  sender : ∀ i, i < l.table.objects.length → ∃ s k, SendInv virtuals copyBody P l i s k
  listed : ∀ i ∈ l.table.streamSenders, i < l.table.objects.length
  called : ∀ c ∈ l.table.callbacks, c.1 < l.table.objects.length
  logged : ∀ e ∈ l.log, e.1 < l.table.objects.length

theorem ofSender_append (log log' : List (Nat × Packet × Bool)) (i : Nat) :
    ofSender (log ++ log') i = ofSender log i ++ ofSender log' i := by
  unfold ofSender
  rw [List.filter_append, List.map_append]

theorem ofSender_own (entries : List (Packet × Bool)) (i : Nat) :
    ofSender (entries.map (Prod.mk i)) i = entries := by
  induction entries with
  | nil => rfl
  | cons e entries ih =>
    unfold ofSender at ih ⊢
    rw [List.map_cons, List.filter_cons_of_pos (by simp), List.map_cons, ih]

theorem ofSender_other (entries : List (Packet × Bool)) {i i' : Nat} (h : i ≠ i') :
    ofSender (entries.map (Prod.mk i)) i' = [] := by
  unfold ofSender
  rw [List.filter_eq_nil_iff.mpr, List.map_nil]
  intro e he
  obtain ⟨x, -, rfl⟩ := List.mem_map.mp he
  simpa using h

theorem reportsOf_append (t : SenderTable δ) (i : Nat) (calls : List (Nat × SenderStatus)) :
    reportsOf { t with callbacks := t.callbacks ++ calls } i
      = reportsOf t i ++ (calls.filter fun c => c.1 = i).map (·.2) := by
  unfold reportsOf
  rw [List.filter_append, List.map_append]

/-! ### A sender is added -/

theorem Inv.add {l : Answered δ} (h : Inv virtuals copyBody P l) {s : StreamSender δ} (hs : P s) :
    Inv virtuals copyBody P { l with table := l.table.addStreamSender s } := by
  unfold SenderTable.addStreamSender
  split
  · exact h
  refine ⟨?_, ?_, ?_, ?_⟩
  · intro i hi
    by_cases hlast : i = l.table.objects.length
    · subst hlast
      have hnone : ofSender l.log l.table.objects.length = [] := by
        unfold ofSender
        rw [List.filter_eq_nil_iff.mpr, List.map_nil]
        intro e he
        have hlt := h.logged e he
        simp only [decide_eq_true_eq]
        omega
      have hcalls : reportsOf l.table l.table.objects.length = [] := by
        unfold reportsOf
        rw [List.filter_eq_nil_iff.mpr, List.map_nil]
        intro c hc
        have hlt := h.called c hc
        simp only [decide_eq_true_eq]
        omega
      refine ⟨s, 0, hs, List.getElem?_concat_length, ?_, hcalls, ?_, ?_⟩
      · show (ofSender l.log _).map (·.1) = []
        rw [hnone, List.map_nil]
      · intro j hj
        exact absurd hj (Nat.not_lt_zero j)
      · intro hgone
        exact absurd (List.mem_append_right _ (List.mem_singleton_self _)) hgone
    · have hi' : i < l.table.objects.length := by
        rw [List.length_append, List.length_singleton] at hi
        omega
      obtain ⟨s', k, hinv⟩ := h.sender i hi'
      have hmem : i ∈ l.table.streamSenders ++ [l.table.objects.length]
          ↔ i ∈ l.table.streamSenders := by
        rw [List.mem_append, List.mem_singleton]
        exact ⟨fun hc => hc.resolve_right hlast, Or.inl⟩
      refine ⟨s', k, hinv.allowed, ?_, hinv.offered, hinv.reports, ?_, ?_⟩
      · rw [List.getElem?_append_left hi']
        exact hinv.object
      · intro j hj hfinal
        rw [hmem]
        exact hinv.ended j hj hfinal
      · rw [hmem]
        exact hinv.gone
  · intro i hi
    rw [List.length_append, List.length_singleton]
    rcases List.mem_append.mp hi with hm | hm
    · have hlt := h.listed i hm
      omega
    · rw [List.mem_singleton.mp hm]
      omega
  · intro c hc
    have hlt := h.called c hc
    rw [List.length_append]
    omega
  · intro e he
    have hlt := h.logged e he
    rw [List.length_append]
    omega

/-- The same for all that a callback adds. -/
theorem Inv.addAll : ∀ (senders : List (StreamSender δ)) {l : Answered δ},
    Inv virtuals copyBody P l → (∀ s ∈ senders, P s) →
    Inv virtuals copyBody P { l with table := senders.foldl SenderTable.addStreamSender l.table }
  | [], _, h, _ => h
  | s :: senders, l, h, hP => by
      have hadd := h.add (hP s (List.mem_cons_self ..))
      exact Inv.addAll senders hadd fun s' hs' => hP s' (List.mem_cons_of_mem _ hs')

/-! ### A sender is processed -/

theorem asked_map (answer : List (Packet × Bool) → Packet → Bool) (log : List (Packet × Bool))
    (p : Sent δ) : (p.asked copyBody answer log).map (·.1) = (p.offered copyBody).toList := by
  unfold Sent.asked
  cases p.offered copyBody with
  | none => rfl
  | some pkt => rfl

theorem turn_objects (answer : List (Packet × Bool) → Packet → Bool) (l : Answered δ) (i : Nat)
    (p : Sent δ) : (turn copyBody answer l i p).table.objects.length = l.table.objects.length :=
  List.length_set

theorem turn_seen (answer : List (Packet × Bool) → Packet → Bool) (l : Answered δ) (i : Nat)
    (p : Sent δ) : (turn copyBody answer l i p).seen = l.seen ++ p.asked copyBody answer l.seen := by
  show (l.log ++ _).map (·.2) = l.log.map (·.2) ++ _
  rw [List.map_append, List.map_map]
  exact congrArg (_ ++ ·) (List.map_id _)

/-- The sender that was processed. -/
theorem SendInv.turn {l : Answered δ} {i k : Nat} {s : StreamSender δ}
    (h : SendInv virtuals copyBody P l i s k) (hi : i ∈ l.table.streamSenders)
    (answer : List (Packet × Bool) → Packet → Bool) :
    SendInv virtuals copyBody P (turn copyBody answer l i (s.outcome virtuals k)) i s (k + 1) := by
  have hlen : i < l.table.objects.length := (List.getElem?_eq_some_iff.mp h.object).1
  have hlog : ofSender (Answered.turn copyBody answer l i (s.outcome virtuals k)).log i
      = ofSender l.log i ++ (s.outcome virtuals k).asked copyBody answer l.seen := by
    show ofSender (l.log ++ _) i = _
    rw [ofSender_append, ofSender_own]
  refine ⟨h.allowed, List.getElem?_set_self hlen, ?_, ?_, ?_, ?_⟩
  · rw [hlog, List.map_append, h.offered, asked_map, StreamSender.offers_succ]
  · show reportsOf { l.table with callbacks := l.table.callbacks ++ _ } i = _
    rw [reportsOf_append, h.reports, StreamSender.reports_succ]
    refine congrArg (_ ++ ·) ?_
    split
    · simp
    · rfl
  · intro j hj hfinal
    rw [hlog]
    rcases Nat.lt_succ_iff_lt_or_eq.mp hj with hlt | rfl
    · -- it is still in the list, so an earlier call that ended it was refused
      rcases h.ended j hlt hfinal with ⟨-, hgone⟩ | ⟨pkt, hrefused⟩
      · exact absurd hi hgone
      · exact Or.inr ⟨pkt, List.mem_append_left _ hrefused⟩
    · by_cases hall : ((s.outcome virtuals j).asked copyBody answer l.seen).all (·.2) = true
      · refine Or.inl ⟨rfl, ?_⟩
        show i ∉ (if _ then _ else _)
        rw [hfinal, hall]
        simp
      · -- the packet of the last call was refused
        rw [List.all_eq_true] at hall
        push Not at hall
        obtain ⟨e, he, hrefused⟩ := hall
        obtain ⟨pkt, -, rfl⟩ := List.mem_map.mp he
        refine Or.inr ⟨pkt, List.mem_append_right _ ?_⟩
        rw [← Bool.not_eq_true _ |>.mp hrefused]
        exact he
  · intro hgone
    refine ⟨k, rfl, ?_⟩
    by_contra hopen
    refine hgone ?_
    show i ∈ (if _ then _ else _)
    rw [Bool.not_eq_true _ |>.mp hopen, Bool.false_and]
    exact hi

/-- A sender that was not. -/
theorem SendInv.other {l : Answered δ} {i i' k' : Nat} {s' : StreamSender δ}
    (h : SendInv virtuals copyBody P l i' s' k') (hne : i ≠ i')
    (answer : List (Packet × Bool) → Packet → Bool) (p : Sent δ) :
    SendInv virtuals copyBody P (Answered.turn copyBody answer l i p) i' s' k' := by
  have hmem : i' ∈ (Answered.turn copyBody answer l i p).table.streamSenders
      ↔ i' ∈ l.table.streamSenders := by
    show i' ∈ (if _ then _ else _) ↔ _
    split
    · simp [Ne.symm hne]
    · exact Iff.rfl
  have hlog : ofSender (Answered.turn copyBody answer l i p).log i' = ofSender l.log i' := by
    show ofSender (l.log ++ _) i' = _
    rw [ofSender_append, ofSender_other _ hne, List.append_nil]
  refine ⟨h.allowed, ?_, ?_, ?_, ?_, ?_⟩
  · show (l.table.objects.set i _)[i']? = _
    rw [List.getElem?_set_ne hne]
    exact h.object
  · rw [hlog]
    exact h.offered
  · show reportsOf { l.table with callbacks := l.table.callbacks ++ _ } i' = _
    rw [reportsOf_append, h.reports]
    split
    · simp [hne]
    · simp
  · intro j hj hfinal
    rw [hmem, hlog]
    exact h.ended j hj hfinal
  · rw [hmem]
    exact h.gone

/-- **Processing a sender keeps the invariant**, whatever the answer is. -/
theorem Inv.turn {l : Answered δ} (h : Inv virtuals copyBody P l) {i k : Nat} {s : StreamSender δ}
    (hinv : SendInv virtuals copyBody P l i s k) (hi : i ∈ l.table.streamSenders)
    (answer : List (Packet × Bool) → Packet → Bool) :
    Inv virtuals copyBody P (turn copyBody answer l i (s.outcome virtuals k)) := by
  have hlen : i < l.table.objects.length := (List.getElem?_eq_some_iff.mp hinv.object).1
  refine ⟨?_, ?_, ?_, ?_⟩
  · intro i' hi'
    rw [turn_objects] at hi'
    by_cases hii : i = i'
    · subst hii
      exact ⟨s, k + 1, hinv.turn hi answer⟩
    · obtain ⟨s', k', hinv'⟩ := h.sender i' hi'
      exact ⟨s', k', hinv'.other hii answer _⟩
  · intro i' hi'
    rw [turn_objects]
    refine h.listed i' ?_
    replace hi' : i' ∈ (if _ then _ else _) := hi'
    split at hi'
    · exact (List.mem_filter.mp hi').1
    · exact hi'
  · intro c hc
    rw [turn_objects]
    rcases List.mem_append.mp hc with hm | hm
    · exact h.called c hm
    · split at hm
      · rw [List.mem_singleton.mp hm]
        exact hlen
      · cases hm
  · intro e he
    rw [turn_objects]
    rcases List.mem_append.mp he with hm | hm
    · exact h.logged e hm
    · obtain ⟨x, -, rfl⟩ := List.mem_map.mp hm
      exact hlen

/-! ### Rounds -/

/-- One turn of the loop of a round: whether the loop goes on, and what it leaves. -/
theorem turn_eq (posts : Nat → List (StreamSender δ))
    (answer : List (Packet × Bool) → Packet → Bool) {l : Answered δ} {i k : Nat}
    {s : StreamSender δ} (hinv : SendInv virtuals copyBody P l i s k) (res : Nat) :
    ∃ res', processStreamSender virtuals posts copyBody (ask answer) i ⟨l.table, l.seen, res⟩ =
      (!(s.outcome virtuals k).final
          && ((s.outcome virtuals k).asked copyBody answer l.seen).all (·.2),
        ⟨if (s.outcome virtuals k).invoked then
            (posts i).foldl SenderTable.addStreamSender
              (turn copyBody answer l i (s.outcome virtuals k)).table
          else (turn copyBody answer l i (s.outcome virtuals k)).table,
          (turn copyBody answer l i (s.outcome virtuals k)).seen, res'⟩) := by
  have hlen : i < l.table.objects.length := (List.getElem?_eq_some_iff.mp hinv.object).1
  obtain ⟨res', hturn⟩ := @processStreamSender_asked _ virtuals copyBody posts answer
    ⟨l.table, l.seen, res⟩ i _ hinv.object (s.outcome virtuals k) rfl
  refine ⟨res', ?_⟩
  rw [hturn, storeSent_eq posts hlen, turn_seen]
  rfl

/-- The packet of a turn, with the sender whose turn it is. -/
theorem offers_turn (posts : Nat → List (StreamSender δ))
    (answer : List (Packet × Bool) → Packet → Bool) {l : Answered δ} {i k : Nat}
    {s : StreamSender δ} (hinv : SendInv virtuals copyBody P l i s k) {res : Nat} {is : List Nat} :
    l.log ++ offers virtuals copyBody posts answer (i :: is) ⟨l.table, l.seen, res⟩ =
      (turn copyBody answer l i (s.outcome virtuals k)).log
        ++ if (processStreamSender virtuals posts copyBody (ask answer) i
            ⟨l.table, l.seen, res⟩).1 then
          offers virtuals copyBody posts answer is
            (processStreamSender virtuals posts copyBody (ask answer) i ⟨l.table, l.seen, res⟩).2
        else [] := by
  obtain ⟨res', hturn⟩ := turn_eq posts answer hinv res
  rw [offers, hturn]
  dsimp only
  rw [turn_seen, List.drop_left, ← List.append_assoc]
  rfl

/-- The loop over a snapshot keeps the invariant: the list does not change before the round is
over. -/
theorem Inv.snapshot (hn : Counting virtuals) {posts : Nat → List (StreamSender δ)}
    {answer : List (Packet × Bool) → Packet → Bool} (hP : ∀ i, ∀ s ∈ posts i, P s) :
    ∀ (is : List Nat) (l : Answered δ) (res : Nat), Inv virtuals copyBody P l →
      (∀ i ∈ is, i ∈ l.table.streamSenders) →
      Inv virtuals copyBody P
        { table :=
            (processSnapshot virtuals posts copyBody (ask answer) is ⟨l.table, l.seen, res⟩).table
          log := l.log ++ offers virtuals copyBody posts answer is ⟨l.table, l.seen, res⟩ }
  | [], l, _, h, _ => by
      show Inv virtuals copyBody P ⟨l.table, l.log ++ []⟩
      rw [List.append_nil]
      exact h
  | i :: is, l, res, h, hmem => by
      have hi := hmem i (List.mem_cons_self ..)
      obtain ⟨s, k, hinv⟩ := h.sender i (h.listed i hi)
      obtain ⟨res', hturn⟩ := turn_eq posts answer hinv res
      have hinv' := h.turn hinv hi answer
      rw [offers_turn posts answer hinv, processSnapshot, hturn]
      cases hgoes : !(s.outcome virtuals k).final
          && ((s.outcome virtuals k).asked copyBody answer l.seen).all (·.2) with
      | false =>
        dsimp only
        rw [if_neg Bool.false_ne_true, List.append_nil]
        split
        · exact hinv'.addAll (posts i) (hP i)
        · exact hinv'
      | true =>
        rw [Bool.and_eq_true, Bool.not_eq_true'] at hgoes
        have hcalled : (s.outcome virtuals k).invoked = false :=
          (hn.process (s.calls virtuals k)).not_invoked hgoes.1
        dsimp only
        rw [if_pos rfl, hcalled, if_neg Bool.false_ne_true]
        refine Inv.snapshot hn hP is _ res' hinv' ?_
        intro i' hm
        show i' ∈ (if _ then _ else _)
        rw [hgoes.1]
        exact hmem i' (List.mem_cons_of_mem _ hm)

/-- **A round keeps the invariant.** -/
theorem Inv.round (hn : Counting virtuals) {l : Answered δ} (h : Inv virtuals copyBody P l)
    {posts : Nat → List (StreamSender δ)} (hP : ∀ i, ∀ s ∈ posts i, P s)
    (answer : List (Packet × Bool) → Packet → Bool) :
    Inv virtuals copyBody P (l.round virtuals copyBody posts answer) :=
  Inv.snapshot hn hP l.table.streamSenders l 0 h fun _ hm => hm

theorem processSnapshot_singleton {ω : Type} (posts : Nat → List (StreamSender δ))
    (packetCallback : Packet → ω → Bool × ω) (i : Nat) (r : Round δ ω) :
    processSnapshot virtuals posts copyBody packetCallback [i] r
      = (processStreamSender virtuals posts copyBody packetCallback i r).2 := by
  unfold processSnapshot
  obtain ⟨goes, r'⟩ := processStreamSender virtuals posts copyBody packetCallback i r
  cases goes with
  | true => rfl
  | false => rfl

/-- A round with one sender, whose callback adds nothing, is its turn. -/
theorem round_single (answer : List (Packet × Bool) → Packet → Bool) {l : Answered δ} {i k : Nat}
    {s : StreamSender δ} (hinv : SendInv virtuals copyBody P l i s k)
    (hlist : l.table.streamSenders = [i]) :
    l.round virtuals copyBody (fun _ => []) answer
      = turn copyBody answer l i (s.outcome virtuals k) := by
  obtain ⟨res', hturn⟩ := turn_eq (fun _ => []) answer hinv 0
  rw [List.foldl_nil, ite_self] at hturn
  unfold Answered.round processStreamSenders
  rw [hlist, offers_turn (fun _ => []) answer hinv, processSnapshot_singleton, hturn, offers,
    ite_self, List.append_nil]

theorem inv_reachable (hn : Counting virtuals) {l : Answered δ}
    (h : Reachable virtuals copyBody P l) : Inv virtuals copyBody P l := by
  induction h with
  | init =>
    refine ⟨?_, ?_, ?_, ?_⟩
    · intro i hi
      exact absurd hi (Nat.not_lt_zero i)
    · intro i hi
      cases hi
    · intro c hc
      cases hc
    · intro e he
      cases he
  | tail _ hs ih =>
    cases hs with
    | add s hs => exact ih.add hs
    | round posts answer hP => exact ih.round hn hP answer

/-! ## What arrives -/

/-- The packets of one sender that were accepted. -/
def accepted (l : Answered δ) (i : Nat) : List Packet :=
  ((ofSender l.log i).filter (·.2)).map (·.1)

variable (virtuals copyBody) in
/-- Sender `i`, which was added as `s`, has got through with all it has sent so far. -/
structure Served (l : Answered δ) (i : Nat) (s : StreamSender δ) : Prop where
  /-- What was accepted is what the sender offers in its calls one after another. -/
  packets : ∃ k, accepted l i = s.offers virtuals copyBody k
  /-- They are the parts from the first one on, and none that was offered is missing. -/
  numbers : (accepted l i).map (·.head.part)
    = (List.range' 1 (ofSender l.log i).length).map UInt32.ofNat
  /-- The callback runs at most once. When the sender is gone it has run, and no part is missing. -/
  once : (reportsOf l.table i).length ≤ 1
  gone : i ∉ l.table.streamSenders →
    (reportsOf l.table i).length = 1 ∧ (accepted l i).length = s.parts.toNat
  /-- It does not report completion before the last part was accepted. -/
  completed : SenderStatus.completed ∈ reportsOf l.table i →
    (accepted l i).length = s.parts.toNat

/-- Nothing that the sender offered was refused. -/
def NeverRefused (l : Answered δ) (i : Nat) : Prop := ∀ e ∈ ofSender l.log i, e.2 = true

theorem accepted_of_neverRefused {l : Answered δ} {i : Nat} (h : NeverRefused l i) :
    accepted l i = (ofSender l.log i).map (·.1) := by
  unfold accepted
  rw [List.filter_eq_self.mpr h]

theorem neverRefused_of_length {l : Answered δ} {i : Nat}
    (h : (accepted l i).length = (ofSender l.log i).length) : NeverRefused l i := by
  unfold accepted at h
  rw [List.length_map] at h
  exact List.length_filter_eq_length_iff.mp h

/-- **A part is offered once**, whatever the answer is: the packets of a sender are its parts one
after another. -/
theorem SendInv.parts (hn : Counting virtuals) (hP : ∀ s, P s → Sound virtuals copyBody s) {l : Answered δ} {i k : Nat}
    {s : StreamSender δ} (h : SendInv virtuals copyBody P l i s k) :
    (ofSender l.log i).map (·.1.head.part)
      = (List.range' 1 (ofSender l.log i).length).map UInt32.ofNat := by
  have hnumbers := (hn.offers_numbers (hP s h.allowed).fresh copyBody k).1
  rw [← h.offered, List.map_map, List.length_map] at hnumbers
  exact hnumbers

/-- Nothing refused: every call before the last one left the sender open. -/
theorem SendInv.not_final {l : Answered δ} {i k : Nat} {s : StreamSender δ}
    (h : SendInv virtuals copyBody P l i s k) (hnone : NeverRefused l i) :
    ∀ j, j < k → (j + 1 < k ∨ i ∈ l.table.streamSenders) → (s.outcome virtuals j).final = false := by
  intro j hj hopen
  by_contra hfinal
  rcases h.ended j hj (Bool.not_eq_false _ |>.mp hfinal) with ⟨hlast, hgone⟩ | ⟨pkt, hrefused⟩
  · rcases hopen with hlt | hlisted
    · omega
    · exact hgone hlisted
  · exact absurd (hnone _ hrefused) Bool.false_ne_true

/-- **A sender none of whose packets was refused** gets all of them through. -/
theorem SendInv.served (hn : Counting virtuals) (hP : ∀ s, P s → Sound virtuals copyBody s) {l : Answered δ} {i k : Nat}
    {s : StreamSender δ} (h : SendInv virtuals copyBody P l i s k) (hnone : NeverRefused l i) :
    Served virtuals copyBody l i s := by
  have hsound := hP s h.allowed
  have haccepted := (accepted_of_neverRefused hnone).trans h.offered
  have hnumbers := (hn.offers_numbers hsound.fresh copyBody k).1
  have hlength : (ofSender l.log i).length = (s.offers virtuals copyBody k).length := by
    rw [← h.offered, List.length_map]
  have hnotFinal := h.not_final hnone
  have hreports := h.reports
  by_cases hlisted : i ∈ l.table.streamSenders
  · have hopen := hn.open_of_not_final hsound.fresh copyBody
      (fun j hj => hnotFinal j hj (Or.inr hlisted))
    rw [hopen.2.1] at hreports
    refine ⟨⟨k, haccepted⟩, ?_, ?_, ?_, ?_⟩
    · rw [haccepted, hlength, hnumbers]
    · rw [hreports]
      exact Nat.zero_le _
    · intro hgone
      exact absurd hlisted hgone
    · intro hcompleted
      rw [hreports] at hcompleted
      cases hcompleted
  · obtain ⟨j, rfl, hfinal⟩ := h.gone hlisted
    have hopen : ∀ j', j' < j → (s.outcome virtuals j').final = false := fun j' hj =>
      hnotFinal j' (Nat.lt_succ_of_lt hj) (Or.inl (Nat.succ_lt_succ hj))
    obtain ⟨hstatus, hnil, -⟩ := hn.open_of_not_final hsound.fresh copyBody hopen
    have hcalled : (s.outcome virtuals j).invoked = true :=
      ((hn.process (s.calls virtuals j)).invoked hstatus).1.trans hfinal
    rw [StreamSender.reports_succ, hnil, hcalled, if_pos rfl, List.nil_append] at hreports
    have hall : (accepted l i).length = s.parts.toNat := by
      rw [haccepted]
      exact hsound.last hn hfinal hopen
    refine ⟨⟨j + 1, haccepted⟩, ?_, ?_, ?_, ?_⟩
    · rw [haccepted, hlength, hnumbers]
    · rw [hreports]
      exact Nat.le_refl _
    · intro _
      rw [hreports]
      exact ⟨rfl, hall⟩
    · intro _
      exact hall

/-- **What was accepted is all that the sender has sent, in order, and its callback tells the
truth, exactly if nothing it offered was refused.** -/
theorem SendInv.served_iff (hn : Counting virtuals) (hP : ∀ s, P s → Sound virtuals copyBody s) {l : Answered δ}
    {i k : Nat} {s : StreamSender δ} (h : SendInv virtuals copyBody P l i s k) :
    Served virtuals copyBody l i s ↔ NeverRefused l i := by
  constructor
  · intro hserved
    refine neverRefused_of_length ?_
    have hlength := congrArg List.length hserved.numbers
    rw [List.length_map, List.length_map, List.length_range'] at hlength
    exact hlength
  · exact h.served hn hP

/-! ## The rounds come to an end -/

/-- Rounds in which everything is accepted and no callback adds anything. -/
def rounds (virtuals : SenderVirtuals δ) (copyBody : Bool) : Nat → Answered δ → Answered δ
  | 0, l => l
  | n + 1, l =>
      rounds virtuals copyBody n (l.round virtuals copyBody (fun _ => []) (fun _ _ => true))

/-- So far nothing was refused. -/
def AllAccepted (l : Answered δ) : Prop := ∀ e ∈ l.log, e.2.2 = true

theorem AllAccepted.neverRefused {l : Answered δ} (h : AllAccepted l) (i : Nat) :
    NeverRefused l i := by
  intro e he
  obtain ⟨x, hx, rfl⟩ := List.mem_map.mp he
  exact h x (List.mem_filter.mp hx).1

/-- Every sender that is left comes to its end within so many calls. -/
def EndsWithin (virtuals : SenderVirtuals δ) (copyBody : Bool) (P : StreamSender δ → Prop)
    (l : Answered δ) (w : Nat → Nat) : Prop :=
  ∀ i ∈ l.table.streamSenders, ∃ s k j, SendInv virtuals copyBody P l i s k ∧
    (s.outcome virtuals j).final = true ∧ j < k + w i

/-- The calls that are left. -/
def left (l : Answered δ) (w : Nat → Nat) : Nat := (l.table.streamSenders.map w).sum

theorem left_removed {w : Nat → Nat} {i : Nat} (hw : 0 < w i) :
    ∀ {xs : List Nat}, i ∈ xs → ((xs.filter (· ≠ i)).map w).sum < (xs.map w).sum
  | x :: xs, h => by
      have hle : ((xs.filter (· ≠ i)).map w).sum ≤ (xs.map w).sum :=
        (List.filter_sublist.map w).sum_le_sum fun _ _ => Nat.zero_le _
      rw [List.map_cons, List.sum_cons]
      by_cases hx : x = i
      · rw [List.filter_cons_of_neg (by simp [hx]), hx]
        omega
      · have hmem : i ∈ xs := (List.mem_cons.mp h).resolve_left (Ne.symm hx)
        have ih := left_removed hw hmem
        rw [List.filter_cons_of_pos (by simp [hx]), List.map_cons, List.sum_cons]
        omega

theorem left_updated {w : Nat → Nat} {i : Nat} (hw : 0 < w i) {xs : List Nat} (h : i ∈ xs) :
    (xs.map (Function.update w i (w i - 1))).sum < (xs.map w).sum := by
  refine List.sum_lt_sum _ _ ?_ ⟨i, h, ?_⟩
  · intro x _
    by_cases hx : x = i
    · rw [hx, Function.update_self]
      exact Nat.sub_le _ _
    · rw [Function.update_of_ne hx]
  · rw [Function.update_self]
    omega

theorem asked_all (log : List (Packet × Bool)) (p : Sent δ) :
    (p.asked copyBody (fun _ _ => true) log).all (·.2) = true := by
  unfold Sent.asked
  rw [List.all_map]
  exact List.all_eq_true.mpr fun _ _ => rfl

theorem AllAccepted.turn {l : Answered δ} (h : AllAccepted l) (i : Nat) (p : Sent δ) :
    AllAccepted (turn copyBody (fun _ _ => true) l i p) := by
  intro e he
  rcases List.mem_append.mp he with he | he
  · exact h e he
  · obtain ⟨x, hx, rfl⟩ := List.mem_map.mp he
    exact List.all_eq_true.mp (asked_all l.seen p) x hx

/-- **A turn uses up one of the calls that are left.** -/
theorem EndsWithin.turn {l : Answered δ} (haccepted : AllAccepted l) {w : Nat → Nat}
    (hw : EndsWithin virtuals copyBody P l w) {i k j : Nat} {s : StreamSender δ}
    (hinv : SendInv virtuals copyBody P l i s k) (hi : i ∈ l.table.streamSenders)
    (hfinal : (s.outcome virtuals j).final = true) (hj : j < k + w i) :
    ∃ w', EndsWithin virtuals copyBody P
        (turn copyBody (fun _ _ => true) l i (s.outcome virtuals k)) w' ∧
      left (turn copyBody (fun _ _ => true) l i (s.outcome virtuals k)) w' < left l w := by
  have hopen := hinv.not_final (haccepted.neverRefused _)
  have hle : k ≤ j := by
    by_contra hlt
    rw [hopen j (Nat.lt_of_not_le hlt) (Or.inr hi)] at hfinal
    cases hfinal
  by_cases hlast : (s.outcome virtuals k).final = true
  · -- the sender is removed
    have hlist : (Answered.turn copyBody (fun _ _ => true) l i
        (s.outcome virtuals k)).table.streamSenders = l.table.streamSenders.filter (· ≠ i) := by
      show (if _ then _ else _) = _
      rw [hlast, asked_all]
      rfl
    refine ⟨w, ?_, ?_⟩
    · intro i' hi'
      rw [hlist] at hi'
      obtain ⟨hmem, hne⟩ := List.mem_filter.mp hi'
      obtain ⟨s', k', j', hinv', hfinal', hj'⟩ := hw i' hmem
      have hii : i ≠ i' := by
        intro he
        subst he
        simp at hne
      exact ⟨s', k', j', hinv'.other hii _ _, hfinal', hj'⟩
    · unfold left
      rw [hlist]
      exact left_removed (by omega) hi
  · -- it has one call fewer to go
    have hlist : (Answered.turn copyBody (fun _ _ => true) l i
        (s.outcome virtuals k)).table.streamSenders = l.table.streamSenders := by
      show (if _ then _ else _) = _
      rw [Bool.not_eq_true _ |>.mp hlast]
      rfl
    have hlt : k < j := by
      rcases Nat.lt_or_eq_of_le hle with hlt | rfl
      · exact hlt
      · exact absurd hfinal hlast
    refine ⟨Function.update w i (w i - 1), ?_, ?_⟩
    · intro i' hi'
      rw [hlist] at hi'
      by_cases hii : i' = i
      · subst hii
        refine ⟨s, k + 1, j, hinv.turn hi _, hfinal, ?_⟩
        rw [Function.update_self]
        omega
      · obtain ⟨s', k', j', hinv', hfinal', hj'⟩ := hw i' hi'
        refine ⟨s', k', j', hinv'.other (Ne.symm hii) _ _, hfinal', ?_⟩
        rw [Function.update_of_ne hii]
        exact hj'
    · unfold left
      rw [hlist]
      exact left_updated (by omega) hi

/-- A loop in which all is accepted uses up a call if it has a sender to begin with. -/
theorem EndsWithin.snapshot : ∀ (is : List Nat) (l : Answered δ) (res : Nat) {w : Nat → Nat},
    Inv virtuals copyBody P l → AllAccepted l → EndsWithin virtuals copyBody P l w →
    (∀ i ∈ is, i ∈ l.table.streamSenders) →
    ∃ (l' : Answered δ) (w' : Nat → Nat),
      (processSnapshot virtuals (fun _ => []) copyBody (ask fun _ _ => true) is
          ⟨l.table, l.seen, res⟩).table = l'.table ∧
        l.log ++ offers virtuals copyBody (fun _ => []) (fun _ _ => true) is ⟨l.table, l.seen, res⟩
          = l'.log ∧
        AllAccepted l' ∧ EndsWithin virtuals copyBody P l' w' ∧
        left l' w' + (if is = [] then 0 else 1) ≤ left l w ∧
        l'.table.objects.length = l.table.objects.length
  | [], l, _, w, _, haccepted, hw, _ =>
      ⟨l, w, rfl, List.append_nil _, haccepted, hw, Nat.le_refl _, rfl⟩
  | i :: is, l, res, w, h, haccepted, hw, hmem => by
      have hi := hmem i (List.mem_cons_self ..)
      obtain ⟨s, k, j, hinv, hfinal, hj⟩ := hw i hi
      obtain ⟨res', hturn⟩ := turn_eq (fun _ => []) (fun _ _ => true) hinv res
      obtain ⟨w', hw', hleft⟩ := EndsWithin.turn haccepted hw hinv hi hfinal hj
      have haccepted' := @AllAccepted.turn _ copyBody _ haccepted i (s.outcome virtuals k)
      have hlength := @turn_objects _ copyBody (fun _ _ => true) l i (s.outcome virtuals k)
      rw [asked_all, Bool.and_true, List.foldl_nil, ite_self] at hturn
      rw [offers_turn _ _ hinv, processSnapshot, hturn, if_neg (List.cons_ne_nil _ _)]
      cases hlast : (s.outcome virtuals k).final with
      | true => exact ⟨_, w', rfl, List.append_nil _, haccepted', hw', hleft, hlength⟩
      | false =>
        have hkeep : ∀ i' ∈ is, i' ∈ (Answered.turn copyBody (fun _ _ => true) l i
            (s.outcome virtuals k)).table.streamSenders := by
          intro i' hm
          show i' ∈ (if _ then _ else _)
          rw [hlast]
          exact hmem i' (List.mem_cons_of_mem _ hm)
        obtain ⟨l', w'', htable, hlog, haccepted'', hw'', hleft', hlength'⟩ :=
          EndsWithin.snapshot is _ res' (h.turn hinv hi _) haccepted' hw' hkeep
        refine ⟨l', w'', htable, hlog, haccepted'', hw'', ?_, hlength'.trans hlength⟩
        have hle : left l' w'' ≤ left (Answered.turn copyBody (fun _ _ => true) l i
            (s.outcome virtuals k)) w' := (Nat.le_add_right _ _).trans hleft'
        omega

/-- **If all is accepted the rounds get through with every sender.** -/
theorem EndsWithin.rounds_empty (hn : Counting virtuals) :
    ∀ (n : Nat) {l : Answered δ} {w : Nat → Nat}, Inv virtuals copyBody P l → AllAccepted l →
      EndsWithin virtuals copyBody P l w → left l w ≤ n →
      ∃ m, (rounds virtuals copyBody m l).table.streamSenders = [] ∧
        Inv virtuals copyBody P (rounds virtuals copyBody m l) ∧
        AllAccepted (rounds virtuals copyBody m l) ∧
        (rounds virtuals copyBody m l).table.objects.length = l.table.objects.length := by
  intro n
  induction n with
  | zero =>
    intro l w h haccepted hw hn0
    refine ⟨0, ?_, h, haccepted, rfl⟩
    by_contra hne
    obtain ⟨i, hi⟩ := List.exists_mem_of_ne_nil _ hne
    obtain ⟨s, k, j, hinv, hfinal, hj⟩ := hw i hi
    obtain ⟨w', -, hleft⟩ := EndsWithin.turn haccepted hw hinv hi hfinal hj
    omega
  | succ n ih =>
    intro l w h haccepted hw hn1
    by_cases hnil : l.table.streamSenders = []
    · exact ⟨0, hnil, h, haccepted, rfl⟩
    · obtain ⟨l', w', htable, hlog, haccepted', hw', hleft, hlength⟩ :=
        EndsWithin.snapshot l.table.streamSenders l 0 h haccepted hw (fun _ hm => hm)
      have hround : l.round virtuals copyBody (fun _ => []) (fun _ _ => true) = l' := by
        obtain ⟨table', log'⟩ := l'
        exact congrArg₂ Answered.mk htable hlog
      have hnone : ∀ i : Nat, ∀ s ∈ (fun _ => [] : Nat → List (StreamSender δ)) i, P s :=
        fun _ _ hs => absurd hs List.not_mem_nil
      have hinv' := h.round hn hnone (fun _ _ => true)
      rw [hround] at hinv'
      rw [if_neg hnil] at hleft
      obtain ⟨m, hm, hinv'', haccepted'', hlength'⟩ :=
        ih hinv' haccepted' hw' (Nat.le_of_succ_le_succ (hleft.trans hn1))
      refine ⟨m + 1, ?_, ?_, ?_, ?_⟩
      · rw [rounds, hround]
        exact hm
      · rw [rounds, hround]
        exact hinv''
      · rw [rounds, hround]
        exact haccepted''
      · rw [rounds, hround]
        exact hlength'.trans hlength

/-- **If nothing was refused so far**, rounds in which all is accepted get through with all
senders. -/
theorem Inv.finish (hn : Counting virtuals) (hP : ∀ s, P s → Sound virtuals copyBody s)
    {l : Answered δ} (h : Inv virtuals copyBody P l) (haccepted : AllAccepted l) :
    ∃ m, (rounds virtuals copyBody m l).table.streamSenders = [] ∧
      Inv virtuals copyBody P (rounds virtuals copyBody m l) ∧
      AllAccepted (rounds virtuals copyBody m l) ∧
      (rounds virtuals copyBody m l).table.objects.length = l.table.objects.length := by
  have hends : ∀ i, ∃ w, i ∈ l.table.streamSenders → ∃ s k j, SendInv virtuals copyBody P l i s k ∧
      (s.outcome virtuals j).final = true ∧ j < k + w := by
    intro i
    by_cases hi : i ∈ l.table.streamSenders
    · obtain ⟨s, k, hinv⟩ := h.sender i (h.listed i hi)
      obtain ⟨j, hfinal⟩ := (hP s hinv.allowed).ends hn
      exact ⟨j + 1, fun _ => ⟨s, k, j, hinv, hfinal, by omega⟩⟩
    · exact ⟨0, fun hc => absurd hc hi⟩
  choose w hw using hends
  exact EndsWithin.rounds_empty hn (left l w) h haccepted hw (Nat.le_refl _)

end Answered

end

end Zway
