import Zway.Stream.Engine

/-!
# The calls of a sender

What `StreamSender::process` does to the counters does not depend on the subclass, as long
as the subclass numbers its packets through `StreamSender::preparePacket`. A sender by
itself, processed over and over, offers its parts one after another, and its callback runs
in a call that ends it.
-/

namespace Zway

/-! ## A sender by itself -/

section

variable {δ : Type} (virtuals : SenderVirtuals δ)

/-- What a subclass leaves alone. -/
structure StreamSender.Same (s s' : StreamSender δ) : Prop where
  id : s'.id = s.id
  part : s'.part = s.part
  parts : s'.parts = s.parts
  status : s'.status = s.status

/-- The virtual functions number the packets through `StreamSender::preparePacket`, and leave the
counters of the sender alone. -/
structure Counting : Prop where
  prepared : ∀ (s : StreamSender δ) size offset, s.Same (virtuals.preparePacket s Packet.create size offset).2.2
  numbered : ∀ s size offset pkt,
    (virtuals.preparePacket s Packet.create size offset).2.1 = some pkt →
    pkt.head.streamId = s.id ∧ pkt.head.part = s.part + 1
  processed : ∀ (s : StreamSender δ) pkt, s.Same (virtuals.processPacket s pkt).2.2
  kept : ∀ s pkt, (virtuals.processPacket s pkt).2.1.head = pkt.head

/-- The sender after so many calls of `process`. -/
def StreamSender.calls (s : StreamSender δ) : Nat → StreamSender δ
  | 0 => s
  | k + 1 => ((s.calls k).process virtuals).sender

/-- What its next call leaves behind. -/
def StreamSender.outcome (s : StreamSender δ) (k : Nat) : Sent δ := (s.calls virtuals k).process virtuals

/-- The packet a call offers to the packet callback. -/
def Sent.offered (copyBody : Bool) (p : Sent δ) : Option Packet :=
  if p.ok then
    p.pkt.map fun pkt => if copyBody then { pkt with body := pkt.body.bind MemoryBuffer.copy } else pkt
  else none

/-- After this call a round removes the sender, unless the packet is refused. -/
def Sent.final (p : Sent δ) : Bool := !p.ok || p.sender.status == .completed

variable {virtuals}

theorem StreamSender.Same.trans {s s' s'' : StreamSender δ} (h : s.Same s') (h' : s'.Same s'') :
    s.Same s'' :=
  ⟨h'.id.trans h.id, h'.part.trans h.part, h'.parts.trans h.parts, h'.status.trans h.status⟩

/-- The three ways in which a call of `process` ends. -/
inductive Processed (s : StreamSender δ) : Sent δ → Prop where
  | failed (pkt : Option Packet) (s' : StreamSender δ) : s.Same s' →
      Processed s ⟨false, pkt, { s' with status := .error }, true⟩
  | nothing (s' : StreamSender δ) : s.Same s' → Processed s (s'.finish none)
  | part (pkt : Packet) (s' : StreamSender δ) : s.Same s' → pkt.head.streamId = s.id →
      pkt.head.part = s.part + 1 →
      Processed s ({ s' with part := s'.part + 1 }.finish (some pkt))

theorem Counting.process (h : Counting virtuals) (s : StreamSender δ) :
    Processed s (s.process virtuals) := by
  have hprepared := h.prepared s
    (if 0 < s.size ∧ s.size - s.part * MAX_PACKET_BODY < MAX_PACKET_BODY then
      s.size - s.part * MAX_PACKET_BODY else MAX_PACKET_BODY) (s.part * MAX_PACKET_BODY)
  have hnumbered := h.numbered s
    (if 0 < s.size ∧ s.size - s.part * MAX_PACKET_BODY < MAX_PACKET_BODY then
      s.size - s.part * MAX_PACKET_BODY else MAX_PACKET_BODY) (s.part * MAX_PACKET_BODY)
  unfold StreamSender.process
  dsimp only
  revert hprepared hnumbered
  generalize virtuals.preparePacket s Packet.create _ (s.part * MAX_PACKET_BODY) = prepared
  obtain ⟨ok, pkt, s'⟩ := prepared
  intro hprepared hnumbered
  cases ok with
  | false => exact .failed pkt s' hprepared
  | true =>
    cases pkt with
    | none => exact .nothing s' hprepared
    | some pkt =>
      obtain ⟨hid, hpart⟩ := hnumbered pkt rfl
      have hprocessed := h.processed s' pkt
      have hkept := h.kept s' pkt
      dsimp only
      generalize virtuals.processPacket s' pkt = processed at hprocessed hkept
      obtain ⟨ok, pkt', s''⟩ := processed
      have hsame := hprepared.trans hprocessed
      have hhead : pkt'.head = pkt.head := hkept
      cases ok with
      | false => exact .failed (some pkt') s'' hsame
      | true => exact .part pkt' s'' hsame (by rw [hhead, hid]) (by rw [hhead, hpart])

/-- What `StreamSender::process` does at its end. -/
theorem StreamSender.finish_eq (s : StreamSender δ) (pkt : Option Packet) :
    (s.finish pkt).ok = true ∧ (s.finish pkt).pkt = pkt ∧ (s.finish pkt).sender.id = s.id ∧
      (s.finish pkt).sender.part = s.part ∧ (s.finish pkt).sender.parts = s.parts ∧
      (s.finish pkt).invoked = decide (0 < s.parts ∧ s.part = s.parts) ∧
      (s.finish pkt).sender.status = if 0 < s.parts ∧ s.part = s.parts then .completed else s.status := by
  unfold StreamSender.finish
  split
  · rename_i h
    exact ⟨rfl, rfl, rfl, rfl, rfl, (decide_eq_true h).symm, rfl⟩
  · rename_i h
    exact ⟨rfl, rfl, rfl, rfl, rfl, (decide_eq_false h).symm, rfl⟩

theorem Processed.ids {s : StreamSender δ} {p : Sent δ} (h : Processed s p) :
    p.sender.id = s.id ∧ p.sender.parts = s.parts := by
  cases h with
  | failed pkt s' hsame => exact ⟨hsame.id, hsame.parts⟩
  | nothing s' hsame =>
    obtain ⟨-, -, hid, -, hparts, -⟩ := s'.finish_eq none
    exact ⟨hid.trans hsame.id, hparts.trans hsame.parts⟩
  | part pkt s' hsame =>
    obtain ⟨-, -, hid, -, hparts, -⟩ := StreamSender.finish_eq { s' with part := s'.part + 1 } (some pkt)
    exact ⟨hid.trans hsame.id, hparts.trans hsame.parts⟩

/-- A call offers the next part or, if it does not fail, leaves the counter alone. -/
theorem Processed.offered {s : StreamSender δ} {p : Sent δ} (h : Processed s p) (copyBody : Bool) :
    (∃ pkt, p.offered copyBody = some pkt ∧ pkt.head.streamId = s.id ∧
        pkt.head.part = s.part + 1 ∧ p.sender.part = s.part + 1) ∨
      (p.offered copyBody = none ∧ p.sender.part = s.part) := by
  cases h with
  | failed pkt s' hsame => exact Or.inr ⟨rfl, hsame.part⟩
  | nothing s' hsame =>
    obtain ⟨hok, hpkt, -, hpart, -⟩ := s'.finish_eq none
    refine Or.inr ⟨?_, hpart.trans hsame.part⟩
    unfold Sent.offered
    rw [hok, hpkt]
    rfl
  | part pkt s' hsame hid hnumber =>
    obtain ⟨hok, hpkt, -, hpart, -⟩ := StreamSender.finish_eq { s' with part := s'.part + 1 } (some pkt)
    refine Or.inl ⟨if copyBody then { pkt with body := pkt.body.bind MemoryBuffer.copy } else pkt,
      ?_, ?_, ?_, ?_⟩
    · unfold Sent.offered
      rw [hok, hpkt]
      rfl
    · split
      · exact hid
      · exact hid
    · split
      · exact hnumber
      · exact hnumber
    · rw [hpart, hsame.part]

theorem StreamSender.finish_invoked {s : StreamSender δ} (h : s.status ≠ .completed)
    (pkt : Option Packet) :
    (s.finish pkt).invoked = (s.finish pkt).final ∧
      ((s.finish pkt).sender.status = .completed ↔
        0 < s.parts ∧ (s.finish pkt).sender.part = s.parts) := by
  obtain ⟨hok, -, -, hpart, -, hinvoked, hstatus⟩ := s.finish_eq pkt
  unfold Sent.final
  rw [hok, hinvoked, hstatus, hpart]
  by_cases hdone : 0 < s.parts ∧ s.part = s.parts
  · rw [if_pos hdone, decide_eq_true hdone]
    exact ⟨rfl, fun _ => hdone, fun _ => rfl⟩
  · rw [if_neg hdone, decide_eq_false hdone]
    exact ⟨(beq_eq_false_iff_ne.mpr h).symm, fun hc => absurd hc h, fun hc => absurd hc hdone⟩

/-- The callback of a sender runs in a call that ends it: one that failed, or one after which all
its parts are counted. -/
theorem Processed.invoked {s : StreamSender δ} {p : Sent δ} (h : Processed s p)
    (hstatus : s.status ≠ .completed) :
    p.invoked = p.final ∧ (p.sender.status = .completed ↔
      p.ok = true ∧ 0 < s.parts ∧ p.sender.part = s.parts) := by
  cases h with
  | failed pkt s' hsame =>
    refine ⟨rfl, ?_⟩
    constructor
    · intro hcompleted
      cases hcompleted
    · intro hok
      cases hok.1
  | nothing s' hsame =>
    rw [← hsame.status] at hstatus
    rw [← hsame.parts]
    obtain ⟨hinvoked, hcompleted⟩ := StreamSender.finish_invoked hstatus none
    exact ⟨hinvoked, hcompleted.trans ⟨fun h => ⟨(s'.finish_eq none).1, h⟩, fun h => h.2⟩⟩
  | part pkt s' hsame =>
    rw [← hsame.status] at hstatus
    rw [← hsame.parts]
    obtain ⟨hinvoked, hcompleted⟩ :=
      @StreamSender.finish_invoked _ { s' with part := s'.part + 1 } hstatus (some pkt)
    exact ⟨hinvoked,
      hcompleted.trans ⟨fun h => ⟨(StreamSender.finish_eq _ (some pkt)).1, h⟩, fun h => h.2⟩⟩

theorem Processed.not_invoked {s : StreamSender δ} {p : Sent δ} (h : Processed s p)
    (hfinal : p.final = false) : p.invoked = false := by
  have hfinish : ∀ (s' : StreamSender δ) (pkt : Option Packet), (s'.finish pkt).final = false →
      (s'.finish pkt).invoked = false := by
    intro s' pkt hopen
    obtain ⟨hok, -, -, -, -, hinvoked, hstatus⟩ := s'.finish_eq pkt
    rw [hinvoked, decide_eq_false_iff_not]
    intro hdone
    unfold Sent.final at hopen
    rw [hok, hstatus, if_pos hdone] at hopen
    cases hopen
  cases h with
  | failed pkt s' _ => cases hfinal
  | nothing s' _ => exact hfinish s' none hfinal
  | part pkt s' _ _ _ => exact hfinish _ (some pkt) hfinal

/-! ## Calls one after another -/

/-- What a sender offers in its first calls. -/
def StreamSender.offers (virtuals : SenderVirtuals δ) (copyBody : Bool) (s : StreamSender δ) (k : Nat) :
    List Packet :=
  (List.range k).filterMap fun j => (s.outcome virtuals j).offered copyBody

/-- The statuses its callback is called with. -/
def StreamSender.reports (virtuals : SenderVirtuals δ) (s : StreamSender δ) (k : Nat) :
    List SenderStatus :=
  (List.range k).filterMap fun j =>
    if (s.outcome virtuals j).invoked then some (s.outcome virtuals j).sender.status else none

theorem StreamSender.offers_succ (copyBody : Bool) (s : StreamSender δ) (k : Nat) :
    s.offers virtuals copyBody (k + 1)
      = s.offers virtuals copyBody k ++ ((s.outcome virtuals k).offered copyBody).toList := by
  unfold offers
  rw [List.range_succ, List.filterMap_append]
  refine congrArg (_ ++ ·) ?_
  cases h : (s.outcome virtuals k).offered copyBody with
  | none => simp [h]
  | some pkt => simp [h]

theorem StreamSender.reports_succ (s : StreamSender δ) (k : Nat) :
    s.reports virtuals (k + 1) = s.reports virtuals k
      ++ if (s.outcome virtuals k).invoked then [(s.outcome virtuals k).sender.status] else [] := by
  unfold reports
  rw [List.range_succ, List.filterMap_append]
  refine congrArg (_ ++ ·) ?_
  by_cases h : (s.outcome virtuals k).invoked = true
  · rw [if_pos h]
    simp [h]
  · rw [if_neg h]
    simp [h]

/-- A sender that has not begun. -/
structure Fresh (s : StreamSender δ) : Prop where
  part : s.part = 0
  status : s.status = .idle

theorem Counting.calls_ids (h : Counting virtuals) (s : StreamSender δ) : ∀ k : Nat,
    (s.calls virtuals k).id = s.id ∧ (s.calls virtuals k).parts = s.parts
  | 0 => ⟨rfl, rfl⟩
  | k + 1 => by
      have ih := h.calls_ids s k
      have hids := (h.process (s.calls virtuals k)).ids
      exact ⟨hids.1.trans ih.1, hids.2.trans ih.2⟩

/-- **The parts are numbered from one on**, and the counter says how many there were. -/
theorem Counting.offers_numbers (h : Counting virtuals) {s : StreamSender δ} (hs : Fresh s)
    (copyBody : Bool) : ∀ k : Nat,
    (s.offers virtuals copyBody k).map (·.head.part)
        = (List.range' 1 (s.offers virtuals copyBody k).length).map UInt32.ofNat ∧
      (s.calls virtuals k).part = UInt32.ofNat (s.offers virtuals copyBody k).length ∧
      ∀ pkt ∈ s.offers virtuals copyBody k, pkt.head.streamId = s.id
  | 0 => by
      refine ⟨rfl, hs.part, ?_⟩
      intro pkt hpkt
      cases hpkt
  | k + 1 => by
      obtain ⟨hnumbers, hpart, hid⟩ := h.offers_numbers hs copyBody k
      have hids := h.calls_ids s k
      rw [StreamSender.offers_succ]
      rcases (h.process (s.calls virtuals k)).offered copyBody with
        ⟨pkt, hoffered, hstream, hnumber, hnext⟩ | ⟨hoffered, hnext⟩
      · have hout : (s.outcome virtuals k).offered copyBody = some pkt := hoffered
        have hcount : (s.calls virtuals k).part + 1
            = UInt32.ofNat ((s.offers virtuals copyBody k).length + 1) := by
          rw [hpart]
          exact (UInt32.ofNat_add _ _).symm
        rw [hout, Option.toList_some, List.map_append, List.length_append, hnumbers,
          List.length_singleton]
        refine ⟨?_, ?_, ?_⟩
        · rw [List.range'_concat, List.map_append, Nat.one_mul, List.map_singleton,
            List.map_singleton, hnumber, hcount, Nat.add_comm 1]
        · exact hnext.trans hcount
        · intro q hq
          rcases List.mem_append.mp hq with hq | hq
          · exact hid q hq
          · rw [List.mem_singleton.mp hq, hstream]
            exact hids.1
      · have hout : (s.outcome virtuals k).offered copyBody = none := hoffered
        rw [hout, Option.toList_none, List.append_nil]
        exact ⟨hnumbers, hnext.trans hpart, hid⟩

/-- **As long as no call ended it**, a sender has parts left, and its callback did not run. -/
theorem Counting.open_of_not_final (h : Counting virtuals) {s : StreamSender δ} (hs : Fresh s)
    (copyBody : Bool) : ∀ {k : Nat}, (∀ j, j < k → (s.outcome virtuals j).final = false) →
    (s.calls virtuals k).status ≠ .completed ∧ s.reports virtuals k = [] ∧
      (0 < s.parts → (s.offers virtuals copyBody k).length < s.parts.toNat)
  | 0, _ => by
      refine ⟨?_, rfl, ?_⟩
      · show s.status ≠ .completed
        rw [hs.status]
        decide
      · intro hpos
        exact UInt32.lt_iff_toNat_lt.mp hpos
  | k + 1, hopen => by
      obtain ⟨hstatus, hreports, hleft⟩ :=
        h.open_of_not_final hs copyBody (fun j hj => hopen j (Nat.lt_succ_of_lt hj))
      have hprocess := h.process (s.calls virtuals k)
      have hlast : (s.outcome virtuals k).final = false := hopen k (Nat.lt_succ_self k)
      obtain ⟨hinvoked, hcompleted⟩ := hprocess.invoked hstatus
      have hids := h.calls_ids s k
      have hnext : (s.calls virtuals (k + 1)).status ≠ .completed := by
        intro hc
        unfold Sent.final at hlast
        rw [Bool.or_eq_false_iff] at hlast
        exact absurd hc (beq_eq_false_iff_ne.mp hlast.2)
      refine ⟨hnext, ?_, ?_⟩
      · have hnot : (s.outcome virtuals k).invoked = false := hinvoked.trans hlast
        rw [StreamSender.reports_succ, hreports, hnot]
        rfl
      · intro hpos
        have hbound := hleft hpos
        have hnumbers := (h.offers_numbers hs copyBody (k + 1)).2.1
        rw [StreamSender.offers_succ] at hnumbers ⊢
        rw [List.length_append] at hnumbers ⊢
        cases hout : (s.outcome virtuals k).offered copyBody with
        | none =>
          rw [Option.toList_none, List.length_nil, Nat.add_zero]
          exact hbound
        | some pkt =>
          rw [hout, Option.toList_some, List.length_singleton] at hnumbers
          rw [Option.toList_some, List.length_singleton]
          by_contra hge
          have heq : (s.offers virtuals copyBody k).length + 1 = s.parts.toNat := by omega
          rw [heq, UInt32.ofNat_toNat] at hnumbers
          -- the last part would have completed the sender
          have hok : (s.outcome virtuals k).ok = true := by
            unfold Sent.final at hlast
            rw [Bool.or_eq_false_iff] at hlast
            simpa using hlast.1
          have hparts : (s.calls virtuals k).parts = s.parts := hids.2
          exact hnext (hcompleted.mpr ⟨hok, by rw [hparts]; exact hpos, hnumbers.trans hparts.symm⟩)

variable (virtuals) in
/-- A sender that has not begun, and that will offer one packet after another: it has a packet for
each of its parts, and it fails if it has none. -/
structure Sound (copyBody : Bool) (s : StreamSender δ) : Prop where
  fresh : Fresh s
  offers : ∀ k, (s.offers virtuals copyBody k).length < s.parts.toNat →
    ∃ pkt, (s.outcome virtuals k).offered copyBody = some pkt
  empty : s.parts = 0 → (s.outcome virtuals 0).ok = false

theorem StreamSender.parts_cases (s : StreamSender δ) : s.parts = 0 ∨ 0 < s.parts := by
  by_cases hzero : s.parts = 0
  · exact Or.inl hzero
  · refine Or.inr (UInt32.lt_iff_toNat_lt.mpr (Nat.pos_of_ne_zero ?_))
    intro hnat
    exact hzero (UInt32.toNat_inj.mp hnat)

theorem Sent.ok_of_offered {p : Sent δ} {copyBody : Bool} {pkt : Packet}
    (h : p.offered copyBody = some pkt) : p.ok = true := by
  cases hok : p.ok with
  | true => rfl
  | false =>
    unfold Sent.offered at h
    rw [hok] at h
    cases h

/-- The call that ends a sender completes it, unless the sender has no parts at all. -/
theorem Sound.last (hn : Counting virtuals) {copyBody : Bool} {s : StreamSender δ}
    (hs : Sound virtuals copyBody s) {j : Nat} (hfinal : (s.outcome virtuals j).final = true)
    (hopen : ∀ j', j' < j → (s.outcome virtuals j').final = false) :
    (s.offers virtuals copyBody (j + 1)).length = s.parts.toNat := by
  obtain ⟨hstatus, -, hleft⟩ := hn.open_of_not_final hs.fresh copyBody hopen
  rcases s.parts_cases with hzero | hpos
  · have hfailed := hs.empty hzero
    have hj : j = 0 := by
      by_contra hne
      have hfirst := hopen 0 (Nat.pos_of_ne_zero hne)
      unfold Sent.final at hfirst
      rw [hfailed] at hfirst
      cases hfirst
    subst hj
    have hnone : (s.outcome virtuals 0).offered copyBody = none := by
      unfold Sent.offered
      rw [hfailed]
      rfl
    rw [StreamSender.offers_succ, hnone, hzero]
    rfl
  · have hbefore := hleft hpos
    obtain ⟨pkt, hoffered⟩ := hs.offers j hbefore
    have hok : (s.outcome virtuals j).ok = true := Sent.ok_of_offered hoffered
    have hdone : (s.outcome virtuals j).sender.status = .completed := by
      unfold Sent.final at hfinal
      rw [hok] at hfinal
      simpa using hfinal
    obtain ⟨-, -, hpart⟩ :=
      ((hn.process (s.calls virtuals j)).invoked hstatus).2.mp hdone
    rw [(hn.calls_ids s j).2] at hpart
    have hcount := (hn.offers_numbers hs.fresh copyBody (j + 1)).2.1
    have hnat := congrArg UInt32.toNat (hcount.symm.trans hpart)
    -- the counter has not wrapped: one call earlier it was below the number of parts
    have hlt := s.parts.toNat_lt
    have hsucc : (s.offers virtuals copyBody (j + 1)).length
        = (s.offers virtuals copyBody j).length + 1 := by
      rw [StreamSender.offers_succ, hoffered, List.length_append]
      rfl
    rw [UInt32.toNat_ofNat', Nat.mod_eq_of_lt (by omega)] at hnat
    exact hnat

/-- Sooner or later a call ends it. -/
theorem Sound.ends (hn : Counting virtuals) {copyBody : Bool} {s : StreamSender δ}
    (hs : Sound virtuals copyBody s) : ∃ n, (s.outcome virtuals n).final = true := by
  by_contra hnever
  have hopen : ∀ j, (s.outcome virtuals j).final = false := fun j =>
    Bool.not_eq_true _ |>.mp fun h => hnever ⟨j, h⟩
  rcases s.parts_cases with hzero | hpos
  · have hfirst := hopen 0
    unfold Sent.final at hfirst
    rw [hs.empty hzero] at hfirst
    cases hfirst
  · -- every call uses up a part
    have hbound : ∀ k, (s.offers virtuals copyBody k).length < s.parts.toNat := fun k =>
      (hn.open_of_not_final hs.fresh copyBody fun j _ => hopen j).2.2 hpos
    have hlength : ∀ k, (s.offers virtuals copyBody k).length = k := by
      intro k
      induction k with
      | zero => rfl
      | succ k ih =>
        obtain ⟨pkt, hoffered⟩ := hs.offers k (hbound k)
        rw [StreamSender.offers_succ, hoffered, List.length_append, ih]
        rfl
    have hlast := hbound s.parts.toNat
    rw [hlength] at hlast
    exact Nat.lt_irrefl _ hlast

end

end Zway
