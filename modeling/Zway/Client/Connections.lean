import Zway.Client.Outgoing

/-!
# Outgoing streams over several connections

The stream senders of a client, the queue of its `Sender` and the connections it has one
after another. A connection may be closed between any two packets; what is sent then is
lost, and nobody looks at the result of `sendPacket`. Senders and queue do not care about
connections: a stream that has begun goes on where it was. The receivers of the peer
begin anew, so that is right only if nothing of a stream has left the queue before the
connection is made: `Anew`.
-/

namespace Zway.Client

/-! ## The system -/

structure Connections (P : Type) where
  /-- `m_sender` -/
  sender : Thread.Handler Packet (SenderTable ClientStream) Thread.SenderRound P
  /-- Its `m_suspended`. -/
  suspended : Bool
  isOpen : Bool
  /-- What has gone out on the connection there is, or on the last one. -/
  sent : List Packet
  /-- What has gone out on the connections before it. -/
  earlier : List (List Packet)

/-- What may happen. -/
inductive ConnectionEvent (P : Type) where
  /-- A step of the sender thread, or of a thread that adds a stream sender. -/
  | sender (e : Thread.HandlerEvent Packet NewStream P)
  /-- `m_sender.suspend()` in `Client::disconnect`. -/
  | suspend
  /-- The connection is closed, by `Client::disconnect` or by the peer. -/
  | close
  | connect
  /-- `m_sender.resume()` in `Client::connect`. -/
  | resume

namespace Connections

variable {P : Type}

def init : Connections P where
  sender := .init .empty
  suspended := true
  isOpen := false
  sent := []
  earlier := []

section

variable (aes_encrypt : Bytes → Bytes → Bytes) (posts : Nat → List NewStream) [DecidableEq P]

/-- `Sender::process`, of the packet at the front of the queue. -/
def sendPacket (s : Connections P) : List Packet :=
  if s.isOpen then s.sent ++ s.sender.queue.head?.toList else s.sent

/-- One step. -/
def step (s : Connections P) : ConnectionEvent P → Option (Connections P)
  -- packets come from the stream senders only
  | .sender (.push _ _) | .sender (.checkBusy _) => none
  | .sender .front =>
      if s.suspended then none
      else
        (s.sender.step (clientSender aes_encrypt posts) .front).map
          (fun sender => { s with sender := sender })
  | .sender .popFront =>
      (s.sender.step (clientSender aes_encrypt posts) .popFront).map
        (fun sender => { s with sender := sender, sent := s.sendPacket })
  | .sender e =>
      (s.sender.step (clientSender aes_encrypt posts) e).map (fun sender => { s with sender := sender })
  | .suspend => some { s with suspended := true, sender := s.sender.notifyOne }
  | .close => some { s with isOpen := false }
  | .connect =>
      if s.isOpen then none
      else some { s with isOpen := true, sent := [], earlier := s.sent :: s.earlier }
  | .resume => some { s with suspended := false }

end

end Connections

/-! ## Numbers -/

/-- The parts of a stream, in the order of the packets. -/
def partsOf (id : UInt32) (pkts : List Packet) : List UInt32 :=
  (pkts.filter (·.head.streamId = id)).map (·.head.part)

/-- `n` parts in order, the first one with number `first`. -/
def partsFrom (first n : Nat) : List UInt32 := (List.range' first n).map UInt32.ofNat

theorem partsOf_append (id : UInt32) (pkts pkts' : List Packet) :
    partsOf id (pkts ++ pkts') = partsOf id pkts ++ partsOf id pkts' := by
  unfold partsOf
  rw [List.filter_append, List.map_append]

theorem partsOf_singleton_self (pkt : Packet) : partsOf pkt.head.streamId [pkt] = [pkt.head.part] := by
  simp [partsOf]

theorem partsOf_singleton_of_ne {id : UInt32} {pkt : Packet} (h : pkt.head.streamId ≠ id) :
    partsOf id [pkt] = [] := by
  simp [partsOf, h]

theorem partsOf_eq_nil_iff {id : UInt32} {pkts : List Packet} :
    partsOf id pkts = [] ↔ ∀ pkt ∈ pkts, pkt.head.streamId ≠ id := by
  unfold partsOf
  rw [List.map_eq_nil_iff, List.filter_eq_nil_iff]
  refine forall_congr' (fun pkt => forall_congr' (fun _ => ?_))
  rw [decide_eq_true_iff]

theorem partsFrom_concat (first n : Nat) :
    partsFrom first (n + 1) = partsFrom first n ++ [UInt32.ofNat (first + n)] := by
  unfold partsFrom
  rw [List.range'_concat, List.map_append, Nat.one_mul]
  rfl

theorem partsFrom_cons (first n : Nat) :
    partsFrom first (n + 1) = UInt32.ofNat first :: partsFrom (first + 1) n := rfl

theorem ofNat_add_one (n : Nat) : UInt32.ofNat n + 1 = UInt32.ofNat (n + 1) := by
  rw [← UInt32.toNat_inj, UInt32.toNat_add, UInt32.toNat_ofNat', UInt32.toNat_ofNat']
  show (n % 2 ^ 32 + 1) % 2 ^ 32 = (n + 1) % 2 ^ 32
  omega

/-- The numbers repeat after all that fit. -/
theorem partsFrom_congr {first first' : Nat} (h : UInt32.ofNat first = UInt32.ofNat first') :
    ∀ n, partsFrom first n = partsFrom first' n
  | 0 => rfl
  | n + 1 => by
      have hsucc : UInt32.ofNat (first + 1) = UInt32.ofNat (first' + 1) := by
        rw [← ofNat_add_one, ← ofNat_add_one, h]
      rw [partsFrom_cons, partsFrom_cons, h, partsFrom_congr hsucc n]

/-! ## The invariant -/

/-- A stream sender of the table. -/
def Registered (table : SenderTable ClientStream) (h : Nat) (s : StreamSender ClientStream) : Prop :=
  h ∈ table.streamSenders ∧ table.objects[h]? = some s

/-- What has gone out of a stream, what is in the queue and what its sender will make next are in
order. -/
structure Line (table : SenderTable ClientStream) (queue sent : List Packet) (isOpen : Bool)
    (id : UInt32) (k gone n : Nat) : Prop where
  sent : partsOf id sent = partsFrom 1 k
  queue : partsOf id queue = partsFrom (gone + 1) n
  sender : ∀ h s, Registered table h s → s.id = id → s.part = UInt32.ofNat (gone + n)
  /-- On an open connection nothing has been lost. -/
  lossless : isOpen = true → gone = k

structure InLine (table : SenderTable ClientStream) (queue sent : List Packet) (isOpen : Bool) :
    Prop where
  valid : ∀ h ∈ table.streamSenders, h < table.objects.length
  distinct : ∀ h s h' s', Registered table h s → Registered table h' s' → s.id = s'.id → h = h'
  line : ∀ id, ∃ k gone n, Line table queue sent isOpen id k gone n

/-- Nothing of a stream is to be sent, or was sent on the connection there is. -/
structure Free (table : SenderTable ClientStream) (queue sent : List Packet) (isOpen : Bool)
    (id : UInt32) : Prop where
  queue : ∀ pkt ∈ queue, pkt.head.streamId ≠ id
  sender : ∀ h s, Registered table h s → s.id ≠ id
  sent : isOpen = true → ∀ pkt ∈ sent, pkt.head.streamId ≠ id

variable {table table' : SenderTable ClientStream} {queue sent : List Packet} {isOpen : Bool}

/-- Other senders, with the same numbers. -/
theorem InLine.mono (h : InLine table queue sent isOpen)
    (hvalid : ∀ i ∈ table'.streamSenders, i < table'.objects.length)
    (hhas : ∀ i s, Registered table' i s → ∃ s', Registered table i s' ∧ s'.id = s.id ∧ s'.part = s.part) :
    InLine table' queue sent isOpen where
  valid := hvalid
  distinct := by
    intro i s i' s' hi hi' hid
    obtain ⟨t, ht, htid, -⟩ := hhas i s hi
    obtain ⟨t', ht', htid', -⟩ := hhas i' s' hi'
    exact h.distinct i t i' t' ht ht' (htid.trans (hid.trans htid'.symm))
  line := by
    intro id
    obtain ⟨k, gone, n, hline⟩ := h.line id
    refine ⟨k, gone, n, hline.sent, hline.queue, fun i s hi hid => ?_, hline.lossless⟩
    obtain ⟨s', hs', hid', hpart'⟩ := hhas i s hi
    exact hpart'.symm.trans (hline.sender i s' hs' (hid'.trans hid))

/-- **A stream sender is added.** -/
theorem InLine.add (h : InLine table queue sent isOpen) {new : NewStream}
    (hfree : Free table queue sent isOpen new.id) :
    InLine (table.addStreamSender new.sender) queue sent isOpen := by
  obtain ⟨hid, hpart⟩ := new.sender_fields
  unfold SenderTable.addStreamSender
  by_cases hzero : new.sender.id = 0
  · rw [if_pos hzero]
    exact h
  rw [if_neg hzero]
  have hhas : ∀ i s, Registered { table with
      objects := table.objects ++ [new.sender]
      streamSenders := table.streamSenders ++ [table.objects.length] } i s →
      Registered table i s ∨ i = table.objects.length ∧ s = new.sender := by
    rintro i s ⟨hmem, hobject⟩
    dsimp only at hmem hobject
    rcases List.mem_append.mp hmem with hold | hnew
    · rw [List.getElem?_append_left (h.valid i hold)] at hobject
      exact .inl ⟨hold, hobject⟩
    · obtain rfl := List.mem_singleton.mp hnew
      rw [List.getElem?_concat_length] at hobject
      exact .inr ⟨rfl, (Option.some.inj hobject).symm⟩
  refine ⟨fun i hi => ?_, fun i s i' s' hi hi' hids => ?_, fun id => ?_⟩
  · dsimp only at hi ⊢
    rw [List.length_append, List.length_singleton]
    rcases List.mem_append.mp hi with hold | hnew
    · exact Nat.lt_succ_of_lt (h.valid i hold)
    · obtain rfl := List.mem_singleton.mp hnew
      exact Nat.lt_succ_self _
  · rcases hhas i s hi with hold | ⟨rfl, rfl⟩
    · rcases hhas i' s' hi' with hold' | ⟨rfl, rfl⟩
      · exact h.distinct i s i' s' hold hold' hids
      · exact absurd (hids.trans hid) (hfree.sender i s hold)
    · rcases hhas i' s' hi' with hold' | ⟨rfl, rfl⟩
      · exact absurd (hids.symm.trans hid) (hfree.sender i' s' hold')
      · rfl
  · obtain ⟨k, gone, n, hline⟩ := h.line id
    by_cases hnew : id = new.id
    · -- the stream begins
      subst hnew
      have hsent : isOpen = true → 0 = k := by
        intro hopen
        have hnil := partsOf_eq_nil_iff.mpr (hfree.sent hopen)
        rw [hline.sent] at hnil
        have hlength := congrArg List.length hnil
        unfold partsFrom at hlength
        rw [List.length_map, List.length_range'] at hlength
        exact hlength.symm
      refine ⟨k, 0, 0, hline.sent, partsOf_eq_nil_iff.mpr hfree.queue, fun i s hi hids => ?_, hsent⟩
      rcases hhas i s hi with hold | ⟨rfl, rfl⟩
      · exact absurd hids (hfree.sender i s hold)
      · exact hpart
    · refine ⟨k, gone, n, hline.sent, hline.queue, fun i s hi hids => ?_, hline.lossless⟩
      rcases hhas i s hi with hold | ⟨rfl, rfl⟩
      · exact hline.sender i s hold hids
      · exact absurd (hids.symm.trans hid) hnew

/-- The state of one sender changes. -/
theorem registered_set {i j : Nat} {s' t : StreamSender ClientStream}
    (h : Registered { table with objects := table.objects.set i s' } j t) :
    j = i ∧ t = s' ∨ j ≠ i ∧ Registered table j t := by
  obtain ⟨hmem, hobject⟩ := h
  dsimp only at hmem hobject
  by_cases hj : j = i
  · subst hj
    rw [List.getElem?_set_self'] at hobject
    cases hold : table.objects[j]? with
    | none =>
      rw [hold] at hobject
      cases hobject
    | some old =>
      rw [hold] at hobject
      exact .inl ⟨rfl, (Option.some.inj hobject).symm⟩
  · rw [List.getElem?_set_ne (fun he => hj he.symm)] at hobject
    exact .inr ⟨hj, hmem, hobject⟩

section

variable {i : Nat} {s s' : StreamSender ClientStream}

/-- **A packet is made.** -/
theorem InLine.emit (h : InLine table queue sent isOpen) (hs : Registered table i s)
    (hid : s'.id = s.id) (hpart : s'.part = s.part + 1) {pkt : Packet}
    (hstreamId : pkt.head.streamId = s.id) (hpktPart : pkt.head.part = s.part + 1) :
    InLine { table with objects := table.objects.set i s' } (queue ++ [pkt]) sent isOpen where
  valid := by
    intro j hj
    dsimp only at hj ⊢
    rw [List.length_set]
    exact h.valid j hj
  distinct := by
    intro j t j' t' hj hj' hids
    rcases registered_set hj with ⟨rfl, rfl⟩ | ⟨-, hold⟩
    · rcases registered_set hj' with ⟨rfl, rfl⟩ | ⟨-, hold'⟩
      · rfl
      · exact h.distinct _ s _ t' hs hold' (hid.symm.trans hids)
    · rcases registered_set hj' with ⟨rfl, rfl⟩ | ⟨-, hold'⟩
      · exact h.distinct _ t _ s hold hs (hids.trans hid)
      · exact h.distinct _ t _ t' hold hold' hids
  line := by
    intro id
    obtain ⟨k, gone, n, hline⟩ := h.line id
    rw [← hpktPart] at hpart
    by_cases hown : s.id = id
    · have hsPart := hline.sender i s hs hown
      rw [hsPart, ofNat_add_one] at hpktPart
      refine ⟨k, gone, n + 1, hline.sent, ?_, fun j t hj hids => ?_, hline.lossless⟩
      · have hlast : UInt32.ofNat (gone + n + 1) = UInt32.ofNat (gone + 1 + n) := by
          rw [Nat.add_right_comm]
        subst hown
        rw [partsOf_append, hline.queue, ← hstreamId, partsOf_singleton_self, partsFrom_concat, hpktPart,
          hlast]
      · rcases registered_set hj with ⟨rfl, rfl⟩ | ⟨hne, hold⟩
        · exact hpart.trans hpktPart
        · exact absurd (h.distinct j t i s hold hs (hids.trans hown.symm)) hne
    · refine ⟨k, gone, n, hline.sent, ?_, fun j t hj hids => ?_, hline.lossless⟩
      · rw [partsOf_append, hline.queue, partsOf_singleton_of_ne (fun he => hown (hstreamId.symm.trans he)),
          List.append_nil]
      · rcases registered_set hj with ⟨rfl, rfl⟩ | ⟨-, hold⟩
        · exact absurd (hid.symm.trans hids) hown
        · exact hline.sender j t hold hids

/-- A call that makes no packet. -/
theorem InLine.keep (h : InLine table queue sent isOpen) (hs : Registered table i s)
    (hid : s'.id = s.id) (hpart : s'.part = s.part) :
    InLine { table with objects := table.objects.set i s' } queue sent isOpen := by
  refine h.mono (fun j hj => ?_) (fun j t hj => ?_)
  · dsimp only at hj ⊢
    rw [List.length_set]
    exact h.valid j hj
  · rcases registered_set hj with ⟨rfl, rfl⟩ | ⟨-, hold⟩
    · exact ⟨s, hs, hid.symm, hpart.symm⟩
    · exact ⟨t, hold, rfl, rfl⟩

theorem InLine.remove (h : InLine table queue sent isOpen) (i : Nat) :
    InLine (table.removeStreamSender i) queue sent isOpen :=
  h.mono (fun j hj => h.valid j (List.mem_filter.mp hj).1)
    (fun _ t hj => ⟨t, ⟨(List.mem_filter.mp hj.1).1, hj.2⟩, rfl, rfl⟩)

/-- Senders that may be added one after another. -/
structure AllFree (table : SenderTable ClientStream) (queue sent : List Packet) (isOpen : Bool)
    (news : List NewStream) : Prop where
  free : ∀ new ∈ news, Free table queue sent isOpen new.id
  distinct : news.Pairwise (fun new new' => new.id ≠ new'.id)

theorem Free.add {id : UInt32} (h : Free table queue sent isOpen id) {new : NewStream}
    (hne : new.id ≠ id) : Free (table.addStreamSender new.sender) queue sent isOpen id where
  queue := h.queue
  sender := by
    unfold SenderTable.addStreamSender
    split
    · exact h.sender
    · rintro j t ⟨hmem, hobject⟩
      dsimp only at hmem hobject
      by_cases hj : j < table.objects.length
      · rw [List.getElem?_append_left hj] at hobject
        rcases List.mem_append.mp hmem with hold | hnew
        · exact h.sender j t ⟨hold, hobject⟩
        · exact absurd (List.mem_singleton.mp hnew) (Nat.ne_of_lt hj)
      · rw [List.getElem?_append_right (Nat.le_of_not_lt hj)] at hobject
        obtain rfl := List.mem_singleton.mp (List.mem_of_getElem? hobject)
        exact fun hid => hne (new.sender_fields.1.symm.trans hid)
  sent := h.sent

theorem InLine.addAll : ∀ {news : List NewStream} {table : SenderTable ClientStream},
    InLine table queue sent isOpen → AllFree table queue sent isOpen news →
    InLine ((news.map NewStream.sender).foldl SenderTable.addStreamSender table) queue sent isOpen
  | [], _, h, _ => h
  | new :: news, table, h, hfree => by
      obtain ⟨hfirst, hrest⟩ := List.pairwise_cons.mp hfree.distinct
      show InLine ((news.map NewStream.sender).foldl SenderTable.addStreamSender
        (table.addStreamSender new.sender)) queue sent isOpen
      refine InLine.addAll (h.add (hfree.free new (List.mem_cons_self ..))) ⟨fun new' hnew' => ?_, hrest⟩
      exact (hfree.free new' (List.mem_cons_of_mem _ hnew')).add (hfirst new' hnew')

/-- Adding removes none. -/
theorem subset_addAll : ∀ (senders : List (StreamSender ClientStream)) (table : SenderTable ClientStream),
    ∀ j ∈ table.streamSenders, j ∈ (senders.foldl SenderTable.addStreamSender table).streamSenders
  | [], _, _, hj => hj
  | _ :: senders, _, j, hj => by
      refine subset_addAll senders _ j ?_
      unfold SenderTable.addStreamSender
      split
      · exact hj
      · exact List.mem_append_left _ hj

/-- **The turn of a stream sender.** -/
theorem InLine.turn (h : InLine table queue sent isOpen) (hs : Registered table i s)
    {news : Nat → List NewStream} (hfree : AllFree table queue sent isOpen (news i))
    {queue' : List Packet} {goesOn : Bool} {p : Sent ClientStream}
    (hturn : Turn (fun j => (news j).map NewStream.sender) i s table table' queue queue' goesOn p) :
    InLine table' queue' sent isOpen
      ∧ (goesOn = true → ∀ j ∈ table.streamSenders, j ∈ table'.streamSenders) := by
  obtain ⟨htable, hid, hqueue⟩ := hturn
  have hne : ∀ id, Free table queue sent isOpen id → s.id ≠ id := fun id hid => hid.sender i s hs
  -- the sender first
  obtain ⟨hset, hkept⟩ : InLine { table with objects := table.objects.set i p.sender } queue' sent isOpen
      ∧ AllFree { table with objects := table.objects.set i p.sender } queue' sent isOpen (news i) := by
    have hsenders : ∀ id, Free table queue sent isOpen id → ∀ j t,
        Registered { table with objects := table.objects.set i p.sender } j t → t.id ≠ id := by
      intro id hfreeId j t hj
      rcases registered_set hj with ⟨rfl, rfl⟩ | ⟨-, hold⟩
      · exact fun hids => hne id hfreeId (hid.symm.trans hids)
      · exact hfreeId.sender j t hold
    rcases hqueue with ⟨rfl, hpart⟩ | ⟨pkt, rfl, hstreamId, hpktPart, hpart⟩
    · refine ⟨h.keep hs hid hpart, fun new hnew => ?_, hfree.distinct⟩
      have hfreeNew := hfree.free new hnew
      exact ⟨hfreeNew.queue, hsenders new.id hfreeNew, hfreeNew.sent⟩
    · refine ⟨h.emit hs hid hpart hstreamId hpktPart, fun new hnew => ?_, hfree.distinct⟩
      have hfreeNew := hfree.free new hnew
      refine ⟨fun pkt' hpkt' => ?_, hsenders new.id hfreeNew, hfreeNew.sent⟩
      rcases List.mem_append.mp hpkt' with hold | hlast
      · exact hfreeNew.queue pkt' hold
      · obtain rfl := List.mem_singleton.mp hlast
        exact fun hids => hne new.id hfreeNew (hstreamId.symm.trans hids)
  -- then those that its callback adds
  have hstored : InLine (storeSent (fun j => (news j).map NewStream.sender) table i p) queue' sent isOpen
      ∧ ∀ j ∈ table.streamSenders,
        j ∈ (storeSent (fun j => (news j).map NewStream.sender) table i p).streamSenders := by
    unfold storeSent
    dsimp only
    split
    · refine ⟨InLine.addAll (hset.mono hset.valid (fun j t hj => ⟨t, hj, rfl, rfl⟩)) ⟨?_, hkept.distinct⟩,
        fun j hj => subset_addAll _ _ j hj⟩
      intro new hnew
      have hfreeNew := hkept.free new hnew
      exact ⟨hfreeNew.queue, fun j t hj => hfreeNew.sender j t hj, hfreeNew.sent⟩
    · exact ⟨hset, fun j hj => hj⟩
  rcases htable with rfl | ⟨hends, rfl⟩
  · exact ⟨hstored.1, fun _ => hstored.2⟩
  · exact ⟨hstored.1.remove i, fun hgoes => (by cases hends.symm.trans hgoes)⟩

end

/-! ## Packets that leave the queue -/

/-- **A packet leaves the queue.** It goes out on a connection that is open. -/
theorem InLine.pop {pkt : Packet} (h : InLine table (pkt :: queue) sent isOpen) :
    InLine table queue (if isOpen then sent ++ [pkt] else sent) isOpen where
  valid := h.valid
  distinct := h.distinct
  line := by
    intro id
    obtain ⟨k, gone, n, hline⟩ := h.line id
    have hqueue := hline.queue
    rw [← List.singleton_append, partsOf_append] at hqueue
    by_cases hown : pkt.head.streamId = id
    · subst hown
      rw [partsOf_singleton_self, List.singleton_append] at hqueue
      cases n with
      | zero => cases hqueue
      | succ n =>
        rw [partsFrom_cons] at hqueue
        obtain ⟨hpart, hrest⟩ := List.cons.inj hqueue
        have hsender : ∀ i s, Registered table i s → s.id = pkt.head.streamId →
            s.part = UInt32.ofNat (gone + 1 + n) := by
          intro i s hs hid
          rw [hline.sender i s hs hid, Nat.add_right_comm]
          rfl
        cases isOpen with
        | false => exact ⟨k, gone + 1, n, hline.sent, hrest, hsender, fun hopen => by cases hopen⟩
        | true =>
          have hgone := hline.lossless rfl
          refine ⟨k + 1, gone + 1, n, ?_, hrest, hsender, fun _ => congrArg (· + 1) hgone⟩
          rw [if_pos rfl, partsOf_append, hline.sent, partsOf_singleton_self, partsFrom_concat, hpart, hgone,
            Nat.add_comm]
    · rw [partsOf_singleton_of_ne hown, List.nil_append] at hqueue
      refine ⟨k, gone, n, ?_, hqueue, hline.sender, hline.lossless⟩
      cases isOpen with
      | false => exact hline.sent
      | true =>
        rw [if_pos rfl, partsOf_append, partsOf_singleton_of_ne hown, List.append_nil]
        exact hline.sent

/-- Of every stream that is to be sent, the first part is still there. -/
def Anew (table : SenderTable ClientStream) (queue : List Packet) : Prop :=
  ∀ id, (∀ part ∈ (partsOf id queue).head?, part = 1)
    ∧ (partsOf id queue = [] → ∀ h s, Registered table h s → s.id = id → s.part = 0)

/-- **A connection is made.** -/
theorem InLine.connect (h : InLine table queue sent isOpen) (hanew : Anew table queue) :
    InLine table queue [] true where
  valid := h.valid
  distinct := h.distinct
  line := by
    intro id
    obtain ⟨k, gone, n, hline⟩ := h.line id
    obtain ⟨hfirst, hempty⟩ := hanew id
    cases n with
    | zero => exact ⟨0, 0, 0, rfl, hline.queue, hempty hline.queue, fun _ => rfl⟩
    | succ n =>
      have hone : UInt32.ofNat (gone + 1) = UInt32.ofNat 1 := by
        refine hfirst _ ?_
        rw [hline.queue, partsFrom_cons]
        rfl
      refine ⟨0, 0, n + 1, rfl, hline.queue.trans (partsFrom_congr hone _), fun i s hs hid => ?_,
        fun _ => rfl⟩
      rw [hline.sender i s hs hid, ← UInt32.toNat_inj, UInt32.toNat_ofNat', UInt32.toNat_ofNat']
      have hmod := congrArg UInt32.toNat hone
      rw [UInt32.toNat_ofNat', UInt32.toNat_ofNat'] at hmod
      omega

theorem InLine.close (h : InLine table queue sent isOpen) : InLine table queue sent false where
  valid := h.valid
  distinct := h.distinct
  line := by
    intro id
    obtain ⟨k, gone, n, hline⟩ := h.line id
    exact ⟨k, gone, n, hline.sent, hline.queue, hline.sender, fun hopen => by cases hopen⟩

namespace Connections

/-! ## The runs -/

section

variable {P : Type}

/-- Stream ids are not used again while a stream that has one is to be sent, or was sent on the
connection there is; a connection is made with nothing of a stream gone. -/
def Careful (posts : Nat → List NewStream) (s : Connections P) : ConnectionEvent P → Prop
  | .sender (.add _ new) => Free s.sender.sub s.sender.queue s.sent s.isOpen new.id
  | .sender .getElements =>
      match s.sender.thread with
      | .getting (.round (h :: _)) =>
          AllFree s.sender.sub s.sender.queue s.sent s.isOpen (posts h)
      | _ => True
  | .connect => Anew s.sender.sub s.sender.queue
  | _ => True

structure Inv (s : Connections P) : Prop where
  line : InLine s.sender.sub s.sender.queue s.sent s.isOpen
  /-- A round has only senders that are registered left. -/
  round : ∀ hs, s.sender.thread = .getting (.round hs) → ∀ h ∈ hs, h ∈ s.sender.sub.streamSenders
  earlier : ∀ log ∈ s.earlier, ∀ id, ∃ k, partsOf id log = partsFrom 1 k

theorem inv_init : Inv (init : Connections P) where
  line :=
    { valid := fun _ h => by cases h
      distinct := fun _ _ _ _ h => by cases h.1
      line := fun _ => ⟨0, 0, 0, rfl, rfl, fun _ _ h => (by cases h.1), fun h => by cases h⟩ }
  round := fun _ h => by cases h
  earlier := fun _ h => by cases h

/-- The thread moves, and the queue stays. -/
theorem Inv.move {s : Connections P} (h : Inv s)
    {sender : Thread.Handler Packet (SenderTable ClientStream) Thread.SenderRound P}
    (hqueue : sender.queue = s.sender.queue) (hsub : sender.sub = s.sender.sub)
    (hthread : ∀ hs, sender.thread = .getting (.round hs) → s.sender.thread = .getting (.round hs))
    (suspended : Bool) : Inv { s with sender := sender, suspended := suspended } where
  line := by
    dsimp only
    rw [hqueue, hsub]
    exact h.line
  round := by
    intro hs hround
    dsimp only at hround ⊢
    rw [hsub]
    exact h.round hs (hthread hs hround)
  earlier := h.earlier

variable (aes_encrypt : Bytes → Bytes → Bytes) (posts : Nat → List NewStream)

/-- **One step of `Sender::getElements`.** -/
theorem inv_getElements {s : Connections P} (h : Inv s) {round : Thread.SenderRound}
    (hthread : s.sender.thread = .getting round)
    (hgood : ∀ i hs, round = .round (i :: hs) →
      AllFree s.sender.sub s.sender.queue s.sent s.isOpen (posts i)) :
    InLine ((clientSender aes_encrypt posts).getElements round s.sender.sub s.sender.queue).2.1
        ((clientSender aes_encrypt posts).getElements round s.sender.sub s.sender.queue).2.2 s.sent s.isOpen
      ∧ ∀ hs, ((clientSender aes_encrypt posts).getElements round s.sender.sub s.sender.queue).1
          = .inl (.round hs) →
        ∀ i ∈ hs, i ∈ ((clientSender aes_encrypt posts).getElements round s.sender.sub
          s.sender.queue).2.1.streamSenders := by
  unfold clientSender
  dsimp only
  cases round with
  | start =>
    unfold Thread.getElements
    refine ⟨h.line, fun hs hround => ?_⟩
    dsimp only at hround
    split at hround
    · cases hround
    · cases hround
  | counted =>
    unfold Thread.getElements
    refine ⟨h.line, fun hs hround i hi => ?_⟩
    obtain rfl := Thread.SenderRound.round.inj (Sum.inl.inj hround)
    exact hi
  | round senders =>
    cases senders with
    | nil =>
      unfold Thread.getElements
      exact ⟨h.line, fun hs hround => by cases hround⟩
    | cons i senders =>
      have hmem := h.round (i :: senders) hthread
      have hi := hmem i (List.mem_cons_self ..)
      obtain ⟨sender, hsender⟩ : ∃ sender, s.sender.sub.objects[i]? = some sender :=
        ⟨_, List.getElem?_eq_getElem (h.line.valid i hi)⟩
      obtain ⟨p, hturn⟩ := turn_processStreamSender aes_encrypt (fun j => (posts j).map NewStream.sender)
        s.sender.queue hsender
      obtain ⟨hline, hsubset⟩ := h.line.turn ⟨hi, hsender⟩ (hgood i senders rfl) hturn
      unfold Thread.getElements
      dsimp only
      refine ⟨hline, fun hs hround j hj => ?_⟩
      have hrest := Thread.SenderRound.round.inj (Sum.inl.inj hround)
      split at hrest
      · rename_i hgoes
        subst hrest
        exact hsubset hgoes j (hmem j (List.mem_cons_of_mem _ hj))
      · subst hrest
        cases hj

variable [DecidableEq P] {aes_encrypt} {posts}

/-- A step of `Handler` that only moves the thread. -/
theorem handler_moves {s s' : Thread.Handler Packet (SenderTable ClientStream) Thread.SenderRound P}
    {e : Thread.HandlerEvent Packet NewStream P}
    (he : match e with
      | .notify _ | .front | .clearBusy | .wait | .wake | .setBusy => True
      | _ => False)
    (hstep : s.step (clientSender aes_encrypt posts) e = some s') :
    s'.queue = s.queue ∧ s'.sub = s.sub
      ∧ ∀ hs, s'.thread = .getting (.round hs) → s.thread = .getting (.round hs) := by
  unfold Thread.Handler.step at hstep
  cases e with
  | push | checkBusy | add | popFront | getElements => cases he
  | notify p =>
    dsimp only at hstep
    split at hstep
    · obtain rfl := Option.some.inj hstep
      unfold Thread.Handler.call Thread.Handler.notifyOne
      dsimp only
      split
      · exact ⟨rfl, rfl, fun hs h => by cases h⟩
      · exact ⟨rfl, rfl, fun hs h => h⟩
    · cases hstep
  | front =>
    dsimp only at hstep
    split at hstep
    · obtain rfl := Option.some.inj hstep
      exact ⟨rfl, rfl, fun hs h => by cases h⟩
    · obtain rfl := Option.some.inj hstep
      exact ⟨rfl, rfl, fun hs h => by cases h⟩
    · cases hstep
  | clearBusy | wait | wake | setBusy =>
    dsimp only at hstep
    split at hstep
    · obtain rfl := Option.some.inj hstep
      exact ⟨rfl, rfl, fun hs h => by cases h⟩
    · cases hstep

theorem inv_add {s s' : Connections P} {p : P} {new : NewStream} (h : Inv s)
    (hgood : Careful posts s (.sender (.add p new)))
    (hstep : s.step aes_encrypt posts (.sender (.add p new)) = some s') : Inv s' := by
  obtain ⟨sender, hsender, rfl⟩ := Option.map_eq_some_iff.mp hstep
  unfold Thread.Handler.step clientSender at hsender
  dsimp only at hsender
  split at hsender
  · by_cases hzero : new.sender.id = 0
    · rw [if_pos hzero] at hsender
      obtain rfl := Option.some.inj hsender
      exact ⟨h.line, h.round, h.earlier⟩
    · rw [if_neg hzero] at hsender
      obtain rfl := Option.some.inj hsender
      refine ⟨h.line.add hgood, fun hs hround i hi => ?_, h.earlier⟩
      have hold := h.round hs hround i hi
      unfold SenderTable.addStreamSender
      rw [if_neg hzero]
      exact List.mem_append_left _ hold
  · cases hsender

theorem inv_popFront {s s' : Connections P} (h : Inv s)
    (hstep : s.step aes_encrypt posts (.sender .popFront) = some s') : Inv s' := by
  obtain ⟨sender, hsender, rfl⟩ := Option.map_eq_some_iff.mp hstep
  unfold Thread.Handler.step at hsender
  dsimp only at hsender
  split at hsender
  · obtain rfl := Option.some.inj hsender
    refine ⟨?_, fun hs hround => (by cases hround), h.earlier⟩
    have hline := h.line
    unfold sendPacket
    dsimp only
    cases hqueue : s.sender.queue with
    | nil =>
      rw [hqueue] at hline
      cases hopen : s.isOpen with
      | false =>
        rw [hopen] at hline
        exact hline
      | true =>
        rw [hopen] at hline
        simp only [List.head?_nil, Option.toList_none, List.append_nil, List.tail_nil, if_true]
        exact hline
    | cons pkt rest =>
      rw [hqueue] at hline
      exact hline.pop
  · cases hsender

/-- **Every step that is careful keeps it.** -/
theorem inv_step (s : Connections P) (e : ConnectionEvent P) (s' : Connections P) (h : Inv s)
    (hgood : Careful posts s e) (hstep : s.step aes_encrypt posts e = some s') : Inv s' := by
  cases e with
  | sender e =>
    cases e with
    | push | checkBusy => cases hstep
    | add p new => exact inv_add h hgood hstep
    | popFront => exact inv_popFront h hstep
    | getElements =>
      obtain ⟨sender, hsender, rfl⟩ := Option.map_eq_some_iff.mp hstep
      unfold Thread.Handler.step at hsender
      dsimp only at hsender
      split at hsender
      · rename_i round hthread
        obtain rfl := Option.some.inj hsender
        have hfree : ∀ i hs, round = .round (i :: hs) →
            AllFree s.sender.sub s.sender.queue s.sent s.isOpen (posts i) := by
          rintro i hs rfl
          change (match s.sender.thread with
            | .getting (.round (h :: _)) =>
                AllFree s.sender.sub s.sender.queue s.sent s.isOpen (posts h)
            | _ => True) at hgood
          rw [hthread] at hgood
          exact hgood
        obtain ⟨hline, hround⟩ := inv_getElements aes_encrypt posts h hthread hfree
        refine ⟨hline, fun hs hnext => hround hs ?_, h.earlier⟩
        exact Thread.HandlerThread.got_eq_getting hnext
      · cases hsender
    | front =>
      change (if s.suspended = true then none else _) = some s' at hstep
      split at hstep
      · cases hstep
      · obtain ⟨sender, hsender, rfl⟩ := Option.map_eq_some_iff.mp hstep
        obtain ⟨hqueue, hsub, hthread⟩ := handler_moves trivial hsender
        exact h.move hqueue hsub hthread s.suspended
    | notify | clearBusy | wait | wake | setBusy =>
      obtain ⟨sender, hsender, rfl⟩ := Option.map_eq_some_iff.mp hstep
      obtain ⟨hqueue, hsub, hthread⟩ := handler_moves trivial hsender
      exact h.move hqueue hsub hthread s.suspended
  | suspend =>
    obtain rfl := Option.some.inj hstep
    rcases s.sender.notifyOne_cases with ⟨-, heq⟩ | ⟨-, heq⟩
    · rw [heq]
      exact @Inv.move P s h { s.sender with thread := .woken } rfl rfl
        (fun hs hround => by cases hround) true
    · rw [heq]
      exact h.move rfl rfl (fun hs hround => hround) true
  | close =>
    obtain rfl := Option.some.inj hstep
    exact ⟨h.line.close, h.round, h.earlier⟩
  | connect =>
    change (if s.isOpen = true then none else _) = some s' at hstep
    split at hstep
    · cases hstep
    · obtain rfl := Option.some.inj hstep
      refine ⟨h.line.connect hgood, h.round, fun log hlog id => ?_⟩
      rcases List.mem_cons.mp hlog with rfl | hold
      · obtain ⟨k, _, _, hline⟩ := h.line.line id
        exact ⟨k, hline.sent⟩
      · exact h.earlier log hold id
  | resume =>
    obtain rfl := Option.some.inj hstep
    exact ⟨h.line, h.round, h.earlier⟩

/-- **Streams start at part 1 on every connection**, in a run that is careful. -/
theorem parts_of_careful {es : List (ConnectionEvent P)} {s : Connections P}
    (hmeets : Steps.Meets (step aes_encrypt posts) (Careful posts) init es)
    (hrun : Steps.run (step aes_encrypt posts) init es = some s) :
    ∀ log ∈ s.sent :: s.earlier, ∀ id, ∃ k, partsOf id log = partsFrom 1 k := by
  have hinv := Steps.run_invariant_of_meets inv_step inv_init hmeets hrun
  intro log hlog id
  rcases List.mem_cons.mp hlog with rfl | hold
  · obtain ⟨k, _, _, hline⟩ := hinv.line.line id
    exact ⟨k, hline.sent⟩
  · exact hinv.earlier log hold id

/-- The cipher does not matter here. -/
def noCipher : Bytes → Bytes → Bytes := fun _ block => block

/-- A stream that waits for a connection, over two of them. -/
theorem parts_of_careful_waiting :
    ∃ s : Connections Unit, Steps.run (step noCipher (fun _ => [])) init
        [.sender (.add () (.request 7 Packet.Request .null)), .connect, .resume, .close, .connect]
        = some s
      ∧ ∀ log ∈ s.sent :: s.earlier, ∀ id, ∃ k, partsOf id log = partsFrom 1 k := by
  have hanew : Anew ⟨[(NewStream.request 7 Packet.Request .null).sender], [0], []⟩ [] := by
    refine fun id => ⟨fun part hpart => (by cases hpart), fun _ h s hs _ => ?_⟩
    obtain ⟨hmem, hobject⟩ := hs
    obtain rfl := List.mem_singleton.mp hmem
    obtain rfl := Option.some.inj hobject
    exact (NewStream.request 7 Packet.Request .null).sender_fields.2
  have hfree : Free (.empty : SenderTable ClientStream) [] [] false 7 :=
    ⟨fun _ h => (by cases h), fun _ _ h => (by cases h.1), fun h => by cases h⟩
  obtain ⟨s, hs⟩ : ∃ s : Connections Unit, Steps.run (step noCipher (fun _ => [])) init
      [.sender (.add () (.request 7 Packet.Request .null)), .connect, .resume, .close, .connect]
      = some s := ⟨_, rfl⟩
  refine ⟨s, hs, parts_of_careful ?_ hs⟩
  refine .cons hfree rfl (.cons hanew rfl (.cons trivial rfl (.cons trivial rfl (.cons hanew rfl trivial))))

end

/-! ## A connection that is closed in the middle of a stream -/

section

variable (aes_encrypt : Bytes → Bytes → Bytes)

/-- A resource of two packets. -/
def twoPackets : NewStream := .resource ⟨7, some (.create 65537)⟩ (.create 32) (.create 16)

theorem twoPackets_process :
    ∃ pkt₁ pkt₂ s₁ s₂, twoPackets.sender.process (ClientStream.virtuals aes_encrypt) = ⟨true, some pkt₁, s₁, false⟩
      ∧ s₁.process (ClientStream.virtuals aes_encrypt) = ⟨true, some pkt₂, s₂, true⟩
      ∧ s₁.status ≠ .completed ∧ s₂.status = .completed
      ∧ pkt₂.head.streamId = 7 ∧ pkt₂.head.part = 2 := by
  have hsize : (MemoryBuffer.create 65537).size = 65537 := MemoryBuffer.create_size 65537
  obtain ⟨s, hcreate, hs⟩ := @ResourceSender.create_at (.create 32) (.create 16) (.create 65537) 7
    (MemoryBuffer.create_size 32) (MemoryBuffer.create_size 16) (by rw [hsize]; decide) (by rw [hsize]; decide)
  have hparts : s.parts.toNat = 2 := by
    have h := hs.counters.parts
    change s.parts.toNat = blockCount 65536 (MemoryBuffer.create 65537).size at h
    rw [hsize] at h
    exact h
  have hsender : twoPackets.sender = s.withSub (.resource s.sub) := by
    unfold twoPackets NewStream.sender
    dsimp only
    rw [hcreate]
  have hid : s.id = 7 := by
    obtain ⟨hid, -⟩ := twoPackets.sender_fields
    rw [hsender] at hid
    exact hid
  obtain ⟨a, ha, h₁⟩ := @ResourceSender.At.process_eq aes_encrypt _ _ _ _ _ hs (by rw [hparts]; decide)
  rw [if_neg (by rw [hparts]; decide)] at h₁
  have hs' := hs.next (by rw [hparts]; decide) (ha (by rw [hparts]; decide))
  have hparts' : (ResourceSender.sentOne s a).parts.toNat = 2 := hparts
  obtain ⟨a', -, h₂⟩ := @ResourceSender.At.process_eq aes_encrypt _ _ _ _ _ hs' (by rw [hparts']; decide)
  rw [if_pos (by rw [hparts'])] at h₂
  have h₁' := ClientStream.process_resource aes_encrypt s
  have h₂' := ClientStream.process_resource aes_encrypt (ResourceSender.sentOne s a)
  rw [h₁] at h₁'
  rw [h₂] at h₂'
  rw [hsender]
  refine ⟨_, _, _, _, h₁', h₂', ?_, rfl, ?_, ?_⟩
  · exact hs.open_
  · exact hid
  · rfl


/-- The copy of a packet. -/
def copied (pkt : Packet) : Packet := { pkt with body := pkt.body.bind MemoryBuffer.copy }

theorem only_turn {pkt : Packet} {sender sender' : StreamSender ClientStream} {invoked : Bool}
    (hprocess : sender.process (ClientStream.virtuals aes_encrypt) = ⟨true, some pkt, sender', invoked⟩)
    (callbacks : List (Nat × SenderStatus)) :
    ∃ callbacks', (clientSender aes_encrypt (fun _ => [])).getElements (.round [0])
        ⟨[sender], [0], callbacks⟩ []
      = (.inl (.round []), ⟨[sender'], if sender'.status = .completed then [] else [0], callbacks'⟩,
        [copied pkt]) := by
  have hturn : ∃ callbacks', processStreamSender (ClientStream.virtuals aes_encrypt)
      (fun _ => ([] : List NewStream).map NewStream.sender) true Thread.pushBack 0
        ⟨⟨[sender], [0], callbacks⟩, [], 0⟩
      = (decide (sender'.status ≠ .completed),
        ⟨⟨[sender'], if sender'.status = .completed then [] else [0], callbacks'⟩, [copied pkt], 1⟩) := by
    unfold processStreamSender storeSent
    dsimp only [List.getElem?_cons_zero]
    rw [hprocess]
    dsimp only [Thread.pushBack]
    cases invoked <;> by_cases hstatus : sender'.status = .completed <;>
      simp [hstatus, copied, SenderTable.removeStreamSender]
  obtain ⟨callbacks', hturn⟩ := hturn
  refine ⟨callbacks', ?_⟩
  unfold clientSender Thread.getElements
  dsimp only
  rw [hturn]
  dsimp only
  rw [ite_self]

theorem step_getElements {s : Connections Unit} {round : Thread.SenderRound}
    (hthread : s.sender.thread = .getting round) {table : SenderTable ClientStream} {queue : List Packet}
    (hgot : (clientSender aes_encrypt (fun _ => [])).getElements round s.sender.sub s.sender.queue
      = (.inl (.round []), table, queue)) :
    step aes_encrypt (fun _ => []) s (.sender .getElements)
      = some { s with sender := { s.sender with sub := table, queue := queue, thread := .getting (.round []) } } := by
  unfold step Thread.Handler.step
  dsimp only
  rw [hthread]
  dsimp only
  rw [hgot]
  rfl

/-- The first packet goes out, the connection is closed, and the stream goes on over the next one. -/
def interruptedRun : List (ConnectionEvent Unit) :=
  [.connect, .resume, .sender (.add () twoPackets), .sender (.notify ()), .sender .front,
    .sender .getElements, .sender .getElements]
  ++ (.sender .getElements ::
    ([.sender .getElements, .sender .front, .sender .popFront, .suspend, .close, .connect, .resume,
      .sender .front, .sender .getElements, .sender .getElements]
    ++ (.sender .getElements :: [.sender .getElements, .sender .front, .sender .popFront])))

/-- **The second packet is the first one of its connection.** -/
theorem parts_of_interrupted :
    ∃ s : Connections Unit, Steps.run (step noCipher (fun _ => [])) init interruptedRun = some s
      ∧ partsOf 7 s.sent = [2] ∧ ¬ ∃ k, partsOf 7 s.sent = partsFrom 1 k := by
  obtain ⟨pkt₁, pkt₂, s₁, s₂, h₁, h₂, hopen, hdone, hid, hpart⟩ := twoPackets_process noCipher
  obtain ⟨callbacks, hgot₁⟩ := only_turn noCipher h₁ []
  obtain ⟨callbacks', hgot₂⟩ := only_turn noCipher h₂ callbacks
  rw [if_neg hopen] at hgot₁
  -- the sender thread is about to make the first packet
  obtain ⟨posts, hbegun⟩ : ∃ posts, Steps.run (step noCipher (fun _ => [])) (init : Connections Unit)
      [.connect, .resume, .sender (.add () twoPackets), .sender (.notify ()), .sender .front,
        .sender .getElements, .sender .getElements]
      = some
        { sender := ⟨[], ⟨[twoPackets.sender], [0], []⟩, false, .getting (.round [0]), posts⟩
          suspended := false
          isOpen := true
          sent := []
          earlier := [[]] } := ⟨_, rfl⟩
  have hfirst := @step_getElements noCipher
    { sender := ⟨[], ⟨[twoPackets.sender], [0], []⟩, false, .getting (.round [0]), posts⟩
      suspended := false
      isOpen := true
      sent := []
      earlier := [[]] } _ rfl _ _ hgot₁
  -- and here the second one
  have hsecond := @step_getElements noCipher
    { sender := ⟨[], ⟨[s₁], [0], callbacks⟩, false, .getting (.round [0]), posts⟩
      suspended := false
      isOpen := true
      sent := []
      earlier := [[copied pkt₁], []] } _ rfl _ _ hgot₂
  have hparts : partsOf 7 [copied pkt₂] = [2] := by
    have hself := partsOf_singleton_self (copied pkt₂)
    change partsOf pkt₂.head.streamId [copied pkt₂] = [pkt₂.head.part] at hself
    rw [hid, hpart] at hself
    exact hself
  refine ⟨_, Steps.run_append hbegun (Steps.run_cons_eq_some.mpr ⟨_, hfirst, Steps.run_append rfl
    (Steps.run_cons_eq_some.mpr ⟨_, hsecond, rfl⟩)⟩), hparts, ?_⟩
  rintro ⟨k, hk⟩
  have hnone := hparts.symm.trans hk
  cases k with
  | zero => cases hnone
  | succ k => exact absurd (List.cons.inj hnone).1 (by decide)

end

end Connections

end Zway.Client
