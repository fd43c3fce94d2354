import Zway.Lib.Turns
import Zway.Client.Refusals

/-!
# The timetable of the senders

`Engine::processStreamSenders` goes through the list of senders and stops at the first one
that is done: those behind it have to wait for the next round, and one that is done every
time could keep them waiting. It cannot, as a sender that is done leaves the list.

If all packets are accepted the rounds are those of `Turns.round`, so that the round in which
a sender gets through is known from the list alone, whatever is added meanwhile.
-/

namespace Zway

variable {δ : Type}

/-! ## What a round leaves alone -/

/-- The calls a sender is going to take if nothing fails. -/
def StreamSender.turnsLeft (s : StreamSender δ) : Nat := max 1 (s.parts.toNat - s.part.toNat)

namespace SenderTable

/-- The same for a sender in the table. -/
def turnsLeft (t : SenderTable δ) (i : Nat) : Nat :=
  ((t.objects[i]?).map StreamSender.turnsLeft).getD 1

def entry (t : SenderTable δ) (i : Nat) : Nat × Nat := (i, t.turnsLeft i)

/-- The list of senders, each with its calls. -/
def turns (t : SenderTable δ) : List (Nat × Nat) := t.streamSenders.map t.entry

theorem items_map (t : SenderTable δ) (is : List Nat) : (is.map t.entry).map (·.1) = is := by
  rw [List.map_map]
  exact List.map_id _

theorem turns_items (t : SenderTable δ) : t.turns.map (·.1) = t.streamSenders :=
  t.items_map t.streamSenders

theorem turns_split {t : SenderTable δ} {before behind : List Nat} {i : Nat}
    (h : t.streamSenders = before ++ i :: behind) :
    t.turns = before.map t.entry ++ (i, t.turnsLeft i) :: behind.map t.entry := by
  unfold turns
  rw [h, List.map_append, List.map_cons]
  rfl

theorem entry_pos (t : SenderTable δ) (i : Nat) : 0 < (t.entry i).2 := by
  show 0 < ((t.objects[i]?).map StreamSender.turnsLeft).getD 1
  cases t.objects[i]? with
  | none => exact Nat.one_pos
  | some s => exact Nat.lt_of_lt_of_le Nat.one_pos (Nat.le_max_left ..)

theorem entry_congr {t t' : SenderTable δ} {i : Nat} (h : t'.objects[i]? = t.objects[i]?) :
    t'.entry i = t.entry i := by
  unfold entry turnsLeft
  rw [h]

theorem entry_eq {t : SenderTable δ} {i : Nat} {s : StreamSender δ} (h : t.objects[i]? = some s) :
    t.entry i = (i, s.turnsLeft) := by
  unfold entry turnsLeft
  rw [h]
  rfl

/-- The senders are listed in the order they were added in. -/
def Chronological (t : SenderTable δ) : Prop :=
  t.streamSenders.Pairwise (· < ·) ∧ ∀ i ∈ t.streamSenders, i < t.objects.length

/-- A later table: no sender is lost or has another number of parts, and the order is kept. -/
structure Later (t t' : SenderTable δ) : Prop where
  kept : ∀ (i : Nat) (s : StreamSender δ), t.objects[i]? = some s →
    ∃ s' : StreamSender δ, t'.objects[i]? = some s' ∧ s'.parts = s.parts
  order : t.Chronological → t'.Chronological

theorem Later.refl (t : SenderTable δ) : t.Later t := ⟨fun _ s hs => ⟨s, hs, rfl⟩, id⟩

theorem Later.trans {t t' t'' : SenderTable δ} (h : t.Later t') (h' : t'.Later t'') : t.Later t'' where
  kept := by
    intro i s hs
    obtain ⟨s', hs', hparts⟩ := h.kept i s hs
    obtain ⟨s'', hs'', hparts'⟩ := h'.kept i s' hs'
    exact ⟨s'', hs'', hparts'.trans hparts⟩
  order := fun ht => h'.order (h.order ht)

theorem Later.length_le {t t' : SenderTable δ} (h : t.Later t') :
    t.objects.length ≤ t'.objects.length := by
  by_contra hlt
  obtain ⟨s, hs, -⟩ := h.kept t'.objects.length _ (List.getElem?_eq_getElem (Nat.lt_of_not_le hlt))
  exact absurd (List.getElem?_eq_some_iff.mp hs).1 (Nat.lt_irrefl _)

theorem Chronological.nodup {t : SenderTable δ} (h : t.Chronological) : t.streamSenders.Nodup :=
  h.1.imp Nat.ne_of_lt

theorem later_add (t : SenderTable δ) (s : StreamSender δ) : t.Later (t.addStreamSender s) := by
  unfold addStreamSender
  split
  · exact .refl t
  refine ⟨fun i s' hs' => ⟨s', ?_, rfl⟩, fun ⟨hsorted, hlisted⟩ => ⟨?_, fun i hi => ?_⟩⟩
  · rw [List.getElem?_append_left (List.getElem?_eq_some_iff.mp hs').1]
    exact hs'
  · refine List.pairwise_append.mpr ⟨hsorted, List.pairwise_singleton .., fun i hi j hj => ?_⟩
    rw [List.mem_singleton.mp hj]
    exact hlisted i hi
  · rw [List.length_append, List.length_singleton]
    rcases List.mem_append.mp hi with hi | hi
    · exact Nat.lt_succ_of_lt (hlisted i hi)
    · rw [List.mem_singleton.mp hi]
      exact Nat.lt_succ_self _

theorem later_addAll : ∀ (senders : List (StreamSender δ)) (t : SenderTable δ),
    t.Later (senders.foldl addStreamSender t)
  | [], t => .refl t
  | s :: senders, t => (t.later_add s).trans (later_addAll senders (t.addStreamSender s))

theorem later_remove (t : SenderTable δ) (i : Nat) : t.Later (t.removeStreamSender i) where
  kept := fun _ s hs => ⟨s, hs, rfl⟩
  order := fun ⟨hsorted, hlisted⟩ =>
    ⟨hsorted.filter _, fun j hj => hlisted j (List.mem_filter.mp hj).1⟩

/-- What is added goes to the end, under handles of its own. -/
theorem addAll_eq : ∀ (senders : List (StreamSender δ)) (t : SenderTable δ), ∃ news objects,
    (senders.foldl addStreamSender t).streamSenders = t.streamSenders ++ news ∧
      (senders.foldl addStreamSender t).objects = t.objects ++ objects ∧
      ∀ i ∈ news, t.objects.length ≤ i
  | [], t => ⟨[], [], (List.append_nil _).symm, (List.append_nil _).symm,
      fun _ hi => absurd hi List.not_mem_nil⟩
  | s :: senders, t => by
      obtain ⟨news, objects, hlist, hobjects, hnew⟩ := addAll_eq senders (t.addStreamSender s)
      rw [List.foldl_cons, hlist, hobjects]
      unfold addStreamSender at hnew ⊢
      split at hnew
      · rename_i hzero
        rw [if_pos hzero]
        exact ⟨news, objects, rfl, rfl, hnew⟩
      · rename_i hne
        rw [if_neg hne]
        refine ⟨t.objects.length :: news, s :: objects, List.append_assoc .., List.append_assoc ..,
          fun i hi => ?_⟩
        rcases List.mem_cons.mp hi with rfl | hi
        · exact Nat.le_refl _
        · have hle := hnew i hi
          rw [List.length_append] at hle
          exact (Nat.le_add_right ..).trans hle

end SenderTable

section

variable {virtuals : SenderVirtuals δ} {copyBody : Bool}

open SenderTable

theorem later_storeSent (posts : Nat → List (StreamSender δ)) {t : SenderTable δ} {i : Nat}
    {s : StreamSender δ} (hs : t.objects[i]? = some s) {p : Sent δ} (hparts : p.sender.parts = s.parts) :
    t.Later (storeSent posts t i p) := by
  have hset : ∀ calls, t.Later { t with objects := t.objects.set i p.sender, callbacks := calls } := by
    refine fun calls => ⟨fun j s' hs' => ?_, fun ⟨hsorted, hlisted⟩ => ⟨hsorted, fun j hj => ?_⟩⟩
    · by_cases hij : i = j
      · subst hij
        obtain rfl := Option.some.inj (hs.symm.trans hs')
        exact ⟨p.sender, List.getElem?_set_self (List.getElem?_eq_some_iff.mp hs).1, hparts⟩
      · exact ⟨s', (List.getElem?_set_ne hij).trans hs', rfl⟩
    · rw [List.length_set]
      exact hlisted j hj
  unfold storeSent
  dsimp only
  split
  · exact (hset _).trans (later_addAll _ _)
  · exact hset t.callbacks

/-- A turn of the loop. -/
theorem later_turn {ω : Type} (hn : Counting virtuals) (copyBody : Bool) (posts : Nat → List (StreamSender δ))
    (packetCallback : Packet → ω → Bool × ω) (i : Nat) (r : Round δ ω) :
    r.table.Later (processStreamSender virtuals posts copyBody packetCallback i r).2.table := by
  unfold processStreamSender
  cases hs : r.table.objects[i]? with
  | none => exact .refl r.table
  | some s =>
    have hstored := later_storeSent posts hs (hn.process s).ids.2
    have hremoved := hstored.trans (later_remove _ i)
    dsimp only
    generalize s.process virtuals = p at hstored hremoved ⊢
    obtain ⟨ok, pkt, s', invoked⟩ := p
    cases ok with
    | false => exact hremoved
    | true =>
      cases pkt with
      | none =>
        dsimp only
        split
        · exact hremoved
        · exact hstored
      | some pkt =>
        dsimp only
        generalize packetCallback _ r.out = answer
        obtain ⟨ok, out⟩ := answer
        cases ok with
        | false => exact hstored
        | true =>
          dsimp only
          split
          · exact hremoved
          · exact hstored

theorem later_snapshot {ω : Type} (hn : Counting virtuals) (copyBody : Bool) (posts : Nat → List (StreamSender δ))
    (packetCallback : Packet → ω → Bool × ω) : ∀ (is : List Nat) (r : Round δ ω),
    r.table.Later (processSnapshot virtuals posts copyBody packetCallback is r).table
  | [], r => .refl r.table
  | i :: is, r => by
      have hturn := later_turn hn copyBody posts packetCallback i r
      rw [processSnapshot]
      generalize processStreamSender virtuals posts copyBody packetCallback i r = turn at hturn ⊢
      obtain ⟨goes, r'⟩ := turn
      cases goes with
      | true => exact hturn.trans (later_snapshot hn copyBody posts packetCallback is r')
      | false => exact hturn

/-! ## Counting the calls -/

/-- **As long as no call ended it**, a sender has taken one call for each part it has offered, and
the next call ends it if it is the last one. -/
theorem Sound.turns (hn : Counting virtuals) {s : StreamSender δ} (hs : Sound virtuals copyBody s) :
    ∀ {k : Nat}, (∀ j, j < k → (s.outcome virtuals j).final = false) →
    (s.offers virtuals copyBody k).length = k ∧ k < max 1 s.parts.toNat := by
  intro k hopen
  have hleft : ∀ j, j ≤ k → 0 < s.parts → (s.offers virtuals copyBody j).length < s.parts.toNat :=
    fun j hj hpos =>
      (hn.open_of_not_final hs.fresh copyBody fun i hi => hopen i (Nat.lt_of_lt_of_le hi hj)).2.2 hpos
  rcases s.parts_cases with hzero | hpos
  · have hk : k = 0 := by
      by_contra hne
      have hfirst := hopen 0 (Nat.pos_of_ne_zero hne)
      unfold Sent.final at hfirst
      rw [hs.empty hzero] at hfirst
      cases hfirst
    subst hk
    exact ⟨rfl, by omega⟩
  · have hlength : ∀ j, j ≤ k → (s.offers virtuals copyBody j).length = j := by
      intro j
      induction j with
      | zero => exact fun _ => rfl
      | succ j ih =>
        intro hj
        obtain ⟨pkt, hoffered⟩ := hs.offers j (hleft j (Nat.le_of_succ_le hj) hpos)
        rw [StreamSender.offers_succ, hoffered, List.length_append, ih (Nat.le_of_succ_le hj)]
        rfl
    have hlt := hleft k (Nat.le_refl k) hpos
    rw [hlength k (Nat.le_refl k)] at hlt
    exact ⟨hlength k (Nat.le_refl k), by omega⟩

theorem Sound.turnsLeft (hn : Counting virtuals) {s : StreamSender δ}
    (hs : Sound virtuals copyBody s) {k : Nat}
    (hopen : ∀ j, j < k → (s.outcome virtuals j).final = false) :
    (s.calls virtuals k).turnsLeft + k = max 1 s.parts.toNat := by
  obtain ⟨hlength, hlt⟩ := hs.turns hn hopen
  have hpart := congrArg UInt32.toNat (hn.offers_numbers hs.fresh copyBody k).2.1
  have hbound := s.parts.toNat_lt
  rw [hlength, UInt32.toNat_ofNat', Nat.mod_eq_of_lt (by omega)] at hpart
  unfold StreamSender.turnsLeft
  rw [(hn.calls_ids s k).2, hpart]
  omega

/-- The call that ends it is the last one. -/
theorem Sound.final_iff (hn : Counting virtuals) {s : StreamSender δ}
    (hs : Sound virtuals copyBody s) {k : Nat}
    (hopen : ∀ j, j < k → (s.outcome virtuals j).final = false) :
    (s.outcome virtuals k).final = true ↔ (s.calls virtuals k).turnsLeft ≤ 1 := by
  have hleft := hs.turnsLeft hn hopen
  obtain ⟨hlength, hlt⟩ := hs.turns hn hopen
  constructor
  · intro hfinal
    have hlast := hs.last hn hfinal hopen
    rw [StreamSender.offers_succ, List.length_append, hlength] at hlast
    have hone := Option.length_toList_le (o := (s.outcome virtuals k).offered copyBody)
    rcases s.parts_cases with hzero | hpos
    · rw [hzero] at hlast hleft
      change _ = 0 at hlast
      change _ = max 1 0 at hleft
      omega
    · obtain ⟨pkt, hoffered⟩ := hs.offers k (by
        rw [hlength]
        have hpos' := UInt32.lt_iff_toNat_lt.mp hpos
        change 0 < _ at hpos'
        omega)
      rw [hoffered, Option.toList_some, List.length_singleton] at hlast
      omega
  · intro hone
    by_contra hnot
    have hnext := (hs.turns hn (k := k + 1) fun j hj => by
      rcases Nat.lt_succ_iff_lt_or_eq.mp hj with hj | rfl
      · exact hopen j hj
      · exact Bool.not_eq_true _ |>.mp hnot).2
    omega

/-! ## Rounds in which all is accepted -/

namespace Answered

variable {P : StreamSender δ → Prop}

theorem SendInv.opened {l : Answered δ} (hall : AllAccepted l) {i k : Nat} {s : StreamSender δ}
    (h : SendInv virtuals copyBody P l i s k) (hi : i ∈ l.table.streamSenders) :
    ∀ j, j < k → (s.outcome virtuals j).final = false :=
  fun j hj => h.not_final (hall.neverRefused i) j hj (Or.inr hi)

/-- What the loop makes of the list if it is past those of `before`. -/
structure Looped (l : Answered δ) (before is : List Nat) (l' : Answered δ) : Prop where
  accepted : AllAccepted l'
  turns : ∃ news : List Nat, (∀ i ∈ news, l.table.objects.length ≤ i) ∧
    l'.table.turns = before.map l.table.entry ++ Turns.round (is.map l.table.entry)
      ++ news.map l'.table.entry

/-- The turn of a sender that is done: it leaves, and what its callback adds goes to the end. -/
theorem looped_done {l : Answered δ} (h : Inv virtuals copyBody P l) (hall : AllAccepted l)
    {before is : List Nat} {i : Nat} (hlist : l.table.streamSenders = before ++ i :: is)
    (hnodup : l.table.streamSenders.Nodup) (hone : (l.table.entry i).2 ≤ 1) {p : Sent δ}
    (hfinal : p.final = true) (senders : List (StreamSender δ)) :
    Looped l before (i :: is)
      { turn copyBody (fun _ _ => true) l i p with
        table := senders.foldl addStreamSender (turn copyBody (fun _ _ => true) l i p).table } := by
  obtain ⟨news, objects, hnews, hobjects, hnew⟩ :=
    addAll_eq senders (turn copyBody (fun _ _ => true) l i p).table
  have hrest : (turn copyBody (fun _ _ => true) l i p).table.streamSenders = before ++ is := by
    show (if _ then _ else _) = _
    rw [hlist] at hnodup ⊢
    obtain ⟨-, hback, hapart⟩ := List.nodup_append.mp hnodup
    rw [hfinal, asked_all, Bool.and_true, if_pos rfl, List.filter_append,
      List.filter_cons_of_neg (by simp), List.filter_eq_self.mpr, List.filter_eq_self.mpr]
    · intro j hj
      have hne : j ≠ i := fun he => (List.nodup_cons.mp hback).1 (he ▸ hj)
      exact decide_eq_true hne
    · intro j hj
      exact decide_eq_true (hapart j hj i (List.mem_cons_self ..))
  have hsame : ∀ j ∈ before ++ is,
      (senders.foldl addStreamSender (turn copyBody (fun _ _ => true) l i p).table).entry j
        = l.table.entry j := by
    intro j hj
    have hmem : j ∈ l.table.streamSenders := by
      rw [hlist]
      rcases List.mem_append.mp hj with hj | hj
      · exact List.mem_append_left _ hj
      · exact List.mem_append_right _ (List.mem_cons_of_mem _ hj)
    have hne : i ≠ j := by
      rintro rfl
      have hgone : i ∉ before ++ is :=
        (List.nodup_cons.mp (List.nodup_middle.mp (hlist ▸ hnodup))).1
      exact hgone hj
    refine entry_congr ?_
    rw [hobjects, List.getElem?_append_left]
    · exact List.getElem?_set_ne hne
    · rw [turn_objects]
      exact h.listed j hmem
  refine ⟨hall.turn i p, news, fun j hj => ?_, ?_⟩
  · have hle := hnew j hj
    rwa [turn_objects] at hle
  · have hround : Turns.round ((i :: is).map l.table.entry) = is.map l.table.entry := by
      rw [List.map_cons]
      exact if_pos hone
    show SenderTable.turns (senders.foldl _ _) = _
    unfold turns
    rw [hnews, hrest, hround, List.map_append, List.map_congr_left hsame, List.map_append]

/-- **The loop over a snapshot** is a round over the calls that the senders have left. -/
theorem Inv.snapshot_turns (hn : Counting virtuals) (hP : ∀ s, P s → Sound virtuals copyBody s)
    (posts : Nat → List (StreamSender δ)) : ∀ (is before : List Nat) (l : Answered δ) (res : Nat),
    Inv virtuals copyBody P l → AllAccepted l → l.table.streamSenders = before ++ is →
    l.table.streamSenders.Nodup →
    Looped l before is
      { table :=
          (processSnapshot virtuals posts copyBody (ask fun _ _ => true) is
            ⟨l.table, l.seen, res⟩).table
        log := l.log
          ++ offers virtuals copyBody posts (fun _ _ => true) is ⟨l.table, l.seen, res⟩ }
  | [], before, l, res, _, hall, hlist, _ => by
      rw [List.append_nil] at hlist
      refine ⟨?_, [], fun _ hi => absurd hi List.not_mem_nil, ?_⟩
      · show AllAccepted ⟨_, l.log ++ []⟩
        rw [List.append_nil]
        exact hall
      · show l.table.streamSenders.map _ = before.map _ ++ [] ++ []
        rw [hlist, List.append_nil, List.append_nil]
        rfl
  | i :: is, before, l, res, h, hall, hlist, hnodup => by
      have hi : i ∈ l.table.streamSenders := hlist ▸ List.mem_append_right _ (List.mem_cons_self ..)
      obtain ⟨s, k, hinv⟩ := h.sender i (h.listed i hi)
      have hsound := hP s hinv.allowed
      have hopen := hinv.opened hall hi
      have hentry := entry_eq hinv.object
      obtain ⟨res', hturn⟩ := turn_eq posts (fun _ _ => true) hinv res
      rw [asked_all, Bool.and_true] at hturn
      rw [offers_turn posts (fun _ _ => true) hinv, processSnapshot, hturn]
      cases hlast : (s.outcome virtuals k).final with
      | true =>
        have hone : (l.table.entry i).2 ≤ 1 := by
          rw [hentry]
          exact (hsound.final_iff hn hopen).mp hlast
        have hdone := @looped_done _ virtuals copyBody P l h hall before is i hlist hnodup hone _ hlast
        rw [Bool.not_true]
        dsimp only
        rw [if_neg Bool.false_ne_true, List.append_nil]
        split
        · exact hdone (posts i)
        · exact hdone []
      | false =>
        have hcalled := (hn.process (s.calls virtuals k)).not_invoked hlast
        have hmany : ¬ (l.table.entry i).2 ≤ 1 := by
          rw [hentry]
          exact fun hle => Bool.false_ne_true (hlast.symm.trans ((hsound.final_iff hn hopen).mpr hle))
        have hkept : (Answered.turn copyBody (fun _ _ => true) l i (s.outcome virtuals k)).table.streamSenders
            = before ++ [i] ++ is := by
          show (if _ then _ else _) = _
          rw [hlast, Bool.false_and, if_neg Bool.false_ne_true, hlist, List.append_assoc]
          rfl
        have hnodup' :
            (Answered.turn copyBody (fun _ _ => true) l i (s.outcome virtuals k)).table.streamSenders.Nodup := by
          rw [hkept, List.append_assoc]
          exact hlist ▸ hnodup
        obtain ⟨haccepted, news, hnew, hturns⟩ := Inv.snapshot_turns hn hP posts is (before ++ [i]) _
          res' (h.turn hinv hi _) (hall.turn i _) hkept hnodup'
        have hinvoked : (s.outcome virtuals k).invoked = false := hcalled
        rw [Bool.not_false]
        dsimp only
        rw [if_pos rfl, hinvoked, if_neg Bool.false_ne_true]
        refine ⟨haccepted, news, fun j hj => ?_, hturns.trans ?_⟩
        · have hle := hnew j hj
          rwa [turn_objects] at hle
        · -- only the sender whose turn it was has one call less
          have hsame : ∀ j, j ≠ i →
              (Answered.turn copyBody (fun _ _ => true) l i (s.outcome virtuals k)).table.entry j
                = l.table.entry j :=
            fun j hj => entry_congr (List.getElem?_set_ne hj.symm)
          have hnext := entry_eq (hinv.turn hi fun _ _ => true).object
          have hless : (s.calls virtuals (k + 1)).turnsLeft = (s.calls virtuals k).turnsLeft - 1 := by
            have hopen' := (hinv.turn hi fun _ _ => true).opened (hall.turn i _)
              (hkept ▸ List.mem_append_left _ (List.mem_append_right _ (List.mem_singleton_self i)))
            have hnow := hsound.turnsLeft hn hopen
            have hthen := hsound.turnsLeft hn hopen'
            omega
          rw [hlist] at hnodup
          obtain ⟨-, hback, hapart⟩ := List.nodup_append.mp hnodup
          have hnot := (List.nodup_cons.mp hback).1
          rw [List.map_append, List.map_singleton, hnext, hless,
            List.map_congr_left fun j hj => hsame j (hapart j hj i (List.mem_cons_self ..)),
            List.map_congr_left fun j hj => hsame j fun he => hnot (he ▸ hj)]
          rw [List.map_cons, Turns.round, hentry, if_neg (hentry ▸ hmany)]
          simp only [List.append_assoc, List.cons_append, List.nil_append]

theorem Inv.round_turns (hn : Counting virtuals) (hP : ∀ s, P s → Sound virtuals copyBody s)
    (posts : Nat → List (StreamSender δ)) {l : Answered δ} (h : Inv virtuals copyBody P l)
    (hall : AllAccepted l) (hnodup : l.table.streamSenders.Nodup) :
    Looped l [] l.table.streamSenders (l.round virtuals copyBody posts fun _ _ => true) :=
  Inv.snapshot_turns hn hP posts l.table.streamSenders [] l 0 h hall rfl hnodup

theorem later_round (hn : Counting virtuals) (posts : Nat → List (StreamSender δ))
    (answer : List (Packet × Bool) → Packet → Bool) (l : Answered δ) :
    l.table.Later (l.round virtuals copyBody posts answer).table :=
  later_snapshot hn copyBody posts (ask answer) l.table.streamSenders ⟨l.table, l.seen, 0⟩

theorem Reachable.chronological (hn : Counting virtuals) {l : Answered δ}
    (h : Reachable virtuals copyBody P l) : l.table.Chronological := by
  induction h with
  | init => exact ⟨.nil, fun _ hi => absurd hi List.not_mem_nil⟩
  | tail _ hs ih =>
    cases hs with
    | add s _ => exact (later_add _ s).order ih
    | round posts answer _ => exact (later_round hn posts answer _).order ih

/-! ## Runs in which all is accepted -/

section

variable (virtuals copyBody P)

/-- `l'` is what `n` rounds make of `l` in which all is accepted, with any senders added in between
and by the callbacks. -/
inductive Accepting (l : Answered δ) : Nat → Answered δ → Prop where
  | start : Accepting l 0 l
  | add {n : Nat} {l' : Answered δ} (s : StreamSender δ) : Accepting l n l' → P s →
      Accepting l n { l' with table := l'.table.addStreamSender s }
  | round {n : Nat} {l' : Answered δ} (posts : Nat → List (StreamSender δ)) : Accepting l n l' →
      (∀ i, ∀ s ∈ posts i, P s) →
      Accepting l (n + 1) (l'.round virtuals copyBody posts fun _ _ => true)

end

theorem Accepting.reachable {l l' : Answered δ} {n : Nat} (h : Reachable virtuals copyBody P l)
    (hrun : Accepting virtuals copyBody P l n l') : Reachable virtuals copyBody P l' := by
  induction hrun with
  | start => exact h
  | add s _ hs ih => exact .tail ih (.add _ s hs)
  | round posts _ hposts ih => exact .tail ih (.round _ posts _ hposts)

/-- After `n` rounds the table keeps to the timetable that `t₀` had. -/
structure OnTime (t₀ : SenderTable δ) (due : Nat → Nat) (n : Nat) (t : SenderTable δ) : Prop where
  timed : ∃ due', (∀ i, i < t₀.objects.length → due' i = due i) ∧ Turns.Timed due' n ∅ t.turns
  listed : ∃ news, t.streamSenders = (t₀.streamSenders.filter fun i => n < due i) ++ news ∧
    ∀ i ∈ news, t₀.objects.length ≤ i
  later : t₀.Later t

/-- A timetable for those that went to the end. -/
theorem timed_behind {t₀ t : SenderTable δ} (horder : t.Chronological) {due due' : Nat → Nat} {n : Nat}
    {xs : List (Nat × Nat)} {news : List Nat} (hturns : t.turns = xs ++ news.map t.entry)
    (hnew : ∀ i ∈ news, t₀.objects.length ≤ i)
    (hold : ∀ i, i < t₀.objects.length → due' i = due i) (h : Turns.Timed due' n ∅ xs) :
    ∃ due'', (∀ i, i < t₀.objects.length → due'' i = due i) ∧ Turns.Timed due'' n ∅ t.turns := by
  have hnodup := horder.nodup
  rw [← turns_items, hturns] at hnodup
  obtain ⟨due'', hsame, htimed⟩ := h.extend hnodup fun p hp => by
    obtain ⟨i, -, rfl⟩ := List.mem_map.mp hp
    exact t.entry_pos i
  refine ⟨due'', fun i hi => (hsame i fun hmem => ?_).trans (hold i hi), hturns ▸ htimed⟩
  obtain ⟨p, hp, rfl⟩ := List.mem_map.mp hmem
  obtain ⟨j, hj, rfl⟩ := List.mem_map.mp hp
  exact absurd hi (Nat.not_lt.mpr (hnew j hj))

theorem OnTime.add {t₀ t : SenderTable δ} {due : Nat → Nat} {n : Nat} (h : OnTime t₀ due n t)
    (horder : t.Chronological) (s : StreamSender δ) : OnTime t₀ due n (t.addStreamSender s) := by
  obtain ⟨due', hold, htimed⟩ := h.timed
  obtain ⟨mine, hmine, hlast⟩ := h.listed
  obtain ⟨news, objects, hlist, hobjects, hnew⟩ := addAll_eq [s] t
  change (t.addStreamSender s).streamSenders = _ at hlist
  change (t.addStreamSender s).objects = _ at hobjects
  have hnew' : ∀ i ∈ news, t₀.objects.length ≤ i := fun i hi => h.later.length_le.trans (hnew i hi)
  have hturns : (t.addStreamSender s).turns = t.turns ++ news.map (t.addStreamSender s).entry := by
    unfold turns
    rw [hlist, List.map_append]
    refine congrArg (· ++ _) (List.map_congr_left fun i hi => entry_congr ?_)
    rw [hobjects, List.getElem?_append_left (horder.2 i hi)]
  refine ⟨timed_behind ((t.later_add s).order horder) hturns hnew' hold htimed,
    ⟨mine ++ news, ?_, fun i hi => ?_⟩, h.later.trans (t.later_add s)⟩
  · rw [hlist, hmine, List.append_assoc]
  · exact (List.mem_append.mp hi).elim (hlast i) (hnew' i)

/-- **A round keeps to the timetable.** -/
theorem OnTime.round {t₀ t t' : SenderTable δ} {due : Nat → Nat} {n : Nat} (h : OnTime t₀ due n t)
    (horder₀ : t₀.Chronological) (horder : t.Chronological) (hlater : t.Later t') {news : List Nat}
    (hnew : ∀ i ∈ news, t.objects.length ≤ i)
    (hturns : t'.turns = Turns.round t.turns ++ news.map t'.entry) : OnTime t₀ due (n + 1) t' := by
  obtain ⟨due', hold, htimed⟩ := h.timed
  obtain ⟨mine, hmine, hlast⟩ := h.listed
  have hnone : n + 1 ∉ (∅ : Finset Nat) := Finset.notMem_empty _
  have hnew' : ∀ i ∈ news, t₀.objects.length ≤ i := fun i hi => h.later.length_le.trans (hnew i hi)
  refine ⟨timed_behind (hlater.order horder) hturns hnew' hold (htimed.round hnone),
    ⟨(mine.filter fun i => n + 1 < due' i) ++ news, ?_, fun i hi => ?_⟩, h.later.trans hlater⟩
  · rw [← turns_items, hturns, List.map_append, htimed.round_items hnone, turns_items, hmine,
      List.filter_append, List.filter_filter, List.map_map]
    have hid : ((fun p : Nat × Nat => p.1) ∘ t'.entry) = id := rfl
    rw [hid, List.map_id, List.append_assoc]
    refine congrArg (· ++ _) (List.filter_congr fun i hi => ?_)
    rw [hold i (horder₀.2 i hi), ← Bool.decide_and, decide_eq_decide]
    omega
  · exact (List.mem_append.mp hi).elim (fun hi => hlast i (List.mem_filter.mp hi).1) (hnew' i)

/-- **Every run in which all is accepted** keeps to the timetable. -/
theorem Accepting.onTime (hn : Counting virtuals) (hP : ∀ s, P s → Sound virtuals copyBody s)
    {l l' : Answered δ} {n : Nat} (h : Reachable virtuals copyBody P l) (hall : AllAccepted l)
    {due : Nat → Nat} (hdue : Turns.Timed due 0 ∅ l.table.turns)
    (hrun : Accepting virtuals copyBody P l n l') : AllAccepted l' ∧ OnTime l.table due n l'.table := by
  induction hrun with
  | start =>
    refine ⟨hall, ⟨due, fun _ _ => rfl, hdue⟩, ⟨[], ?_, fun _ hi => absurd hi List.not_mem_nil⟩,
      .refl _⟩
    rw [List.append_nil, List.filter_eq_self.mpr]
    intro i hi
    rw [← turns_items] at hi
    exact decide_eq_true (hdue.lt i hi)
  | add s hbefore _ ih => exact ⟨ih.1, ih.2.add ((hbefore.reachable h).chronological hn) s⟩
  | @round n l' posts hbefore _ ih =>
    have hreach := hbefore.reachable h
    have horder := hreach.chronological hn
    obtain ⟨haccepted, news, hnew, hturns⟩ :=
      (inv_reachable hn hreach).round_turns hn hP posts ih.1 horder.nodup
    exact ⟨haccepted, ih.2.round (h.chronological hn) horder
      (later_round hn posts _ l') hnew hturns⟩

/-- What was accepted of a sender that is listed are its calls so far. -/
theorem SendInv.accepted_length (hn : Counting virtuals) (hP : ∀ s, P s → Sound virtuals copyBody s)
    {l : Answered δ} (hall : AllAccepted l) {i k : Nat} {s : StreamSender δ}
    (h : SendInv virtuals copyBody P l i s k) (hi : i ∈ l.table.streamSenders) :
    (accepted l i).length + l.table.turnsLeft i = max 1 s.parts.toNat := by
  have hsound := hP s h.allowed
  have hopen := h.opened hall hi
  have hlength : (accepted l i).length = k := by
    rw [accepted_of_neverRefused (hall.neverRefused i), h.offered]
    exact (hsound.turns hn hopen).1
  have hleft : l.table.turnsLeft i = (s.calls virtuals k).turnsLeft := by
    unfold SenderTable.turnsLeft
    rw [h.object]
    rfl
  rw [hlength, hleft, Nat.add_comm]
  exact hsound.turnsLeft hn hopen

end Answered

end

/-! ## The senders of a client -/

namespace Client.ClientSender

open ClientStream (virtuals)
open Answered SenderTable

variable (aes_encrypt : Bytes → Bytes → Bytes)

/-- **Every sender gets through, and when it does is known from the list.** If nothing was refused
so far there is a timetable: different senders are due in different rounds, and a sender is due
after the calls it has left and one round for each sender in front of it that is due earlier. In
any run in which everything is accepted, whatever is added, a sender is listed until the round in
which it is due; until then it has sent a packet in each round in which none in front of it was
done, and then all its packets, and its callback has run. -/
theorem scheduled (copyBody : Bool) {l : Answered ClientStream}
    (h : Reachable (virtuals aes_encrypt) copyBody Created l) (hall : AllAccepted l) :
    ∃ due : Nat → Nat,
      (l.table.streamSenders.map due).Nodup ∧
      (∀ before i behind, l.table.streamSenders = before ++ i :: behind →
        due i = l.table.turnsLeft i + (before.filter fun j => due j < due i).length) ∧
      ∀ n l', Accepting (virtuals aes_encrypt) copyBody Created l n l' →
        ∀ before i behind, l.table.streamSenders = before ++ i :: behind →
          (i ∈ l'.table.streamSenders ↔ n < due i) ∧
          (n < due i → (accepted l' i).length
            = (accepted l i).length + (n - (before.filter fun j => due j ≤ n).length)) ∧
          (due i ≤ n → ∃ s, Created s ∧
            (∃ k, l'.table.objects[i]? = some (s.calls (virtuals aes_encrypt) k)) ∧
            Served (virtuals aes_encrypt) copyBody l' i s) := by
  have hn := counting aes_encrypt
  have hP : ∀ s, Created s → Sound (virtuals aes_encrypt) copyBody s :=
    fun s hs => hs.sound aes_encrypt copyBody
  have horder := h.chronological hn
  have hitems := l.table.turns_items
  obtain ⟨due, htimed⟩ := Turns.exists_timed 0 ∅ (hitems.symm ▸ horder.nodup) fun p hp => by
    obtain ⟨i, -, rfl⟩ := List.mem_map.mp hp
    exact l.table.entry_pos i
  refine ⟨due, ?_, ?_, ?_⟩
  · have hnodup := htimed.nodup.1
    unfold turns at hnodup
    rw [List.map_map] at hnodup
    exact hnodup
  · intro before i behind hsplit
    have hdue := (turns_split hsplit ▸ htimed).due_eq
    rw [items_map] at hdue
    exact hdue
  · intro n l' hrun before i behind hsplit
    obtain ⟨hall', ⟨due', hold, htimed'⟩, ⟨news, hlist, hnews⟩, hlater⟩ :=
      hrun.onTime hn hP h hall htimed
    have hold' : ∀ j ∈ l.table.streamSenders, due' j = due j := fun j hj => hold j (horder.2 j hj)
    rw [hsplit] at hold' hlist
    have hi : i ∈ l.table.streamSenders :=
      hsplit ▸ List.mem_append_right _ (List.mem_cons_self ..)
    have hlt := horder.2 i hi
    have hmem : i ∈ l'.table.streamSenders ↔ n < due i := by
      rw [hlist, ← hsplit, List.mem_append, List.mem_filter, decide_eq_true_eq]
      refine ⟨fun hm => hm.elim And.right fun hm => ?_, fun hm => Or.inl ⟨hi, hm⟩⟩
      exact absurd hlt (Nat.not_lt.mpr (hnews i hm))
    refine ⟨hmem, fun hnow => ?_, fun _ => ?_⟩
    · obtain ⟨s, k, hs⟩ := (inv_reachable hn h).sender i hlt
      obtain ⟨s', k', hs'⟩ := (inv_reachable hn (hrun.reachable h)).sender i
        (hlt.trans_le hlater.length_le)
      have hparts : s'.parts = s.parts := by
        obtain ⟨sender, hsender, hsame⟩ := hlater.kept i _ hs.object
        obtain rfl := Option.some.inj (hs'.object.symm.trans hsender)
        rw [(hn.calls_ids s' k').2, (hn.calls_ids s k).2] at hsame
        exact hsame
      have hsent := hs.accepted_length hn hP hall hi
      have hsent' := hs'.accepted_length hn hP hall' (hmem.mpr hnow)
      rw [hparts] at hsent'
      have hlist' : l'.table.streamSenders = (before.filter fun j => n < due j)
          ++ i :: ((behind.filter fun j => n < due j) ++ news) := by
        rw [hlist, List.filter_append, List.filter_cons_of_pos (by simp [hnow]),
          List.append_assoc]
        rfl
      have hprogress := Turns.Timed.progress (turns_split hsplit ▸ htimed)
        (turns_split hlist' ▸ htimed') (by rw [items_map, items_map]) (by
          rw [items_map]
          intro j hj
          refine hold' j ?_
          rcases List.mem_cons.mp hj with rfl | hj
          · exact List.mem_append_right _ (List.mem_cons_self ..)
          · exact List.mem_append_left _ hj)
      rw [items_map] at hprogress
      omega
    · obtain ⟨s, k, hs⟩ := (inv_reachable hn (hrun.reachable h)).sender i
        (hlt.trans_le hlater.length_le)
      exact ⟨s, hs.allowed, ⟨k, hs.object⟩, hs.served hn hP (hall'.neverRefused i)⟩

theorem byteAdded_allAccepted : AllAccepted byteAdded := fun _ he => absurd he List.not_mem_nil

/-- A sender of one byte is due in the first round. -/
theorem scheduled_byte : ∃ due : Nat → Nat, due 0 = 1 ∧ ∀ l',
    Accepting (virtuals fun _ block => block) true Created byteAdded 1 l' →
      0 ∉ l'.table.streamSenders := by
  obtain ⟨due, -, hdue, hruns⟩ := scheduled (fun _ block => block) true
    (byteAdded_reachable (fun _ block => block) true) byteAdded_allAccepted
  have hone : due 0 = 1 := hdue [] 0 [] rfl
  refine ⟨due, hone, fun l' hrun hmem => ?_⟩
  have hlt := (hruns 1 l' hrun [] 0 [] rfl).1.mp hmem
  omega

end Client.ClientSender

end Zway
