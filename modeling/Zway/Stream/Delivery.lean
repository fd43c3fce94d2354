import Zway.Stream.Engine
import Zway.Stream.Reassembly

/-!
# Stream delivery

Two engines and the packets between them. Senders are added at any time, also from
the callbacks of other senders; rounds emit packets, and the packets are handed to
the receiving engine one by one in the order they were emitted.

A stream is followed through two counters: `k` parts have been emitted, `j` have
arrived. The sender has sent exactly its first `k` blocks, what is on the way are
the packets `j + 1` to `k` in order, and the receiver holds the first `j` blocks.
Every step moves the counters of one stream and leaves the others alone.
-/

namespace Zway

/-- Two engines, and the packets that were emitted but not yet handed over. -/
structure Link where
  sending : SenderTable MemoryBuffer
  wire : List Packet
  receiving : ReceiverTable

namespace Link

/-- A packet callback that accepts everything. -/
def accept (pkt : Packet) (out : List Packet) : Bool × List Packet := (true, out ++ [pkt])

/-- A round of the sending engine. -/
def round (posts : Nat → List BufferSender) (l : Link) : Link :=
  let r := processStreamSenders BufferSender.virtuals posts true accept l.sending l.wire
  { l with sending := r.table, wire := r.out }

section

variable (read : Ubj.Value → Bytes → Bool × Ubj.Value) (behind : Nat → UInt8)

/-- A `UbjSender` of a document that can be decoded again. -/
def Postable (s : BufferSender) : Prop :=
  s.id ≠ 0 ∧ ∃ v, s = UbjSender.create s.id Packet.Request v
    ∧ 0 < (Ubj.Writer.write v).length ∧ (Ubj.Writer.write v).length ≤ 65535 * 65536
    ∧ read .null (Ubj.Writer.write v) = (true, v)

/-- New senders: their ids are new, and distinct. -/
structure New (objects : List BufferSender) (senders : List BufferSender) : Prop where
  postable : ∀ s ∈ senders, Postable read s
  distinct : (senders.map (·.id)).Nodup
  unused : ∀ s ∈ senders, s.id ∉ objects.map (·.id)

/-- What can happen. -/
inductive Step : Link → Link → Prop where
  | add (l : Link) (s : BufferSender) : New read l.sending.objects [s] →
      Step l { l with sending := l.sending.addStreamSender s }
  | round (l : Link) (posts : Nat → List BufferSender) :
      (∀ h, New read l.sending.objects (posts h)) → Step l (l.round posts)
  | deliver (l : Link) (pkt : Packet) (rest : List Packet) : l.wire = pkt :: rest →
      Step l { l with
        wire := rest
        receiving := (l.receiving.processIncomingPacket read behind pkt).2 }

def init : Link := { sending := .empty, wire := [], receiving := .empty }

inductive Reachable : Link → Prop where
  | init : Reachable init
  | tail {l l' : Link} : Reachable l → Step read behind l l' → Reachable l'

end

end Link

/-- The sender `s` after `k` of its parts. -/
def BufferSender.after (s : BufferSender) (k : Nat) : BufferSender :=
  { s with part := UInt32.ofNat k, status := if k = s.parts.toNat then .completed else .idle }

namespace Link

variable {read : Ubj.Value → Bytes → Bool × Ubj.Value} {behind : Nat → UInt8}

/-! ## The invariant -/

/-- Sender `i`, which was created as `s`, has emitted `k` parts. -/
structure SendInv (t : SenderTable MemoryBuffer) (i : Nat) (s : BufferSender) (k : Nat) :
    Prop where
  object : t.objects[i]? = some (s.after k)
  le : k ≤ s.parts.toNat
  /-- It is in the list until its last part is out. -/
  listed : i ∈ t.streamSenders ↔ k < s.parts.toNat
  /-- Its callback ran when its last part was out. -/
  callbacks : t.callbacks.filter (fun c => c.1 = i)
    = if k = s.parts.toNat then [(i, .completed)] else []

/-- The packets of one stream. -/
def onWire (wire : List Packet) (id : UInt32) : List Packet :=
  wire.filter (fun p => p.head.streamId = id)

theorem onWire_cons_self {p : Packet} {id : UInt32} (h : p.head.streamId = id)
    (wire : List Packet) : onWire (p :: wire) id = p :: onWire wire id :=
  List.filter_cons_of_pos (by simp [h])

theorem onWire_cons_of_ne {p : Packet} {id : UInt32} (h : p.head.streamId ≠ id)
    (wire : List Packet) : onWire (p :: wire) id = onWire wire id :=
  List.filter_cons_of_neg (by simp [h])

theorem onWire_append (wire wire' : List Packet) (id : UInt32) :
    onWire (wire ++ wire') id = onWire wire id ++ onWire wire' id := List.filter_append ..

/-- The reports about one stream. -/
def reportsOf (t : ReceiverTable) (id : UInt32) : List UbjReceiver :=
  t.reports.filter (fun r => r.id = id)

/-- The receiving engine has got `j` parts of the stream of `s`. -/
structure RecvInv (read : Ubj.Value → Bytes → Bool × Ubj.Value) (t : ReceiverTable)
    (s : BufferSender) (j : Nat) : Prop where
  /-- There is a receiver while the stream is on its way. -/
  opened : 0 < j → j < s.parts.toNat →
    ∃ r, OrdMap.find? t.streamReceivers s.id = some r ∧ r.Holds s j ∧ r.status = .idle
      ∧ r.sub = .null
  closed : j = 0 ∨ j = s.parts.toNat → OrdMap.find? t.streamReceivers s.id = none
  pending : j < s.parts.toNat → reportsOf t s.id = []
  /-- It reports once, with the whole stream. -/
  reported : j = s.parts.toNat →
    ∃ r, reportsOf t s.id = [r] ∧ r.status = .completed ∧ r.Holds s j
      ∧ r.sub = (read .null s.sub.data).2

/-- The stream of sender `i`, of which `k` parts are out and `j` have arrived. -/
structure StreamInv (read : Ubj.Value → Bytes → Bool × Ubj.Value) (l : Link) (i : Nat)
    (s : BufferSender) (k j : Nat) : Prop where
  postable : Postable read s
  sending : SendInv l.sending i s k
  le : j ≤ k
  wire : onWire l.wire s.id = (List.range' j (k - j)).map s.packet
  receiving : RecvInv read l.receiving s j

/-- Nothing anywhere mentions the id. -/
structure Unseen (l : Link) (id : UInt32) : Prop where
  wire : onWire l.wire id = []
  receiver : OrdMap.find? l.receiving.streamReceivers id = none
  reports : reportsOf l.receiving id = []

structure Inv (read : Ubj.Value → Bytes → Bool × Ubj.Value) (l : Link) : Prop where
  stream : ∀ i, i < l.sending.objects.length → ∃ s k j, StreamInv read l i s k j
  distinct : (l.sending.objects.map (·.id)).Nodup
  listed : ∀ h ∈ l.sending.streamSenders, h < l.sending.objects.length
  nodup : l.sending.streamSenders.Nodup
  called : ∀ c ∈ l.sending.callbacks, c.1 < l.sending.objects.length
  unseen : ∀ id, id ∉ l.sending.objects.map (·.id) → Unseen l id

/-- The buffer of a postable sender is its document. -/
theorem Postable.document {s : BufferSender} (h : Postable read s) :
    ∃ v, s.sub.data = Ubj.Writer.write v ∧ read .null s.sub.data = (true, v) := by
  obtain ⟨-, v, hs, -, hle, hread⟩ := h
  have hsub := (BufferSender.create_fields s.id Packet.Request
    (MemoryBuffer.ofData (Ubj.Writer.write v))).2.2.2
  have hdata : s.sub.data = Ubj.Writer.write v := by
    rw [hs]
    show (BufferSender.create _ _ _).sub.data = _
    rw [hsub, MemoryBuffer.ofData_data (by omega)]
  refine ⟨v, hdata, ?_⟩
  rw [hdata, hread]

theorem Postable.fields {s : BufferSender} (h : Postable read s) :
    s.type = Packet.Request ∧ s.status = .idle := by
  obtain ⟨-, v, hs, -⟩ := h
  obtain ⟨-, htype, hstatus, -⟩ := BufferSender.create_fields s.id Packet.Request
    (MemoryBuffer.ofData (Ubj.Writer.write v))
  rw [hs]
  exact ⟨htype, hstatus⟩

/-- A postable sender has not begun. -/
theorem Postable.at_zero {s : BufferSender} (h : Postable read s) : s.At 0 := by
  obtain ⟨-, v, hs, hpos, hle, -⟩ := h
  have hdata : (MemoryBuffer.ofData (Ubj.Writer.write v)).size = (Ubj.Writer.write v).length := by
    unfold MemoryBuffer.size
    rw [MemoryBuffer.ofData_data (by omega)]
  rw [hs]
  exact BufferSender.create_at (by rw [hdata]; exact hpos) (by rw [hdata]; exact hle)

theorem Postable.parts_pos {s : BufferSender} (h : Postable read s) : 0 < s.parts.toNat := by
  rw [h.at_zero.parts]
  exact blockCount_pos (by decide) h.at_zero.pos

/-- A sender that has not begun is what it was created as. -/
theorem Postable.after_zero {s : BufferSender} (h : Postable read s) : s.after 0 = s := by
  have hpart : s.part = UInt32.ofNat 0 := UInt32.toNat_inj.mp h.at_zero.part
  have hpos := h.parts_pos
  unfold BufferSender.after
  rw [if_neg (by omega), ← hpart, ← h.fields.2]

theorem at_after {s : BufferSender} (h : s.At 0) {k : Nat} (hk : k ≤ s.parts.toNat) :
    (s.after k).At k := by
  have hp := h.parts_le
  refine ⟨h.size, h.pos, h.le, h.parts, ?_⟩
  show (UInt32.ofNat k).toNat = k
  rw [UInt32.toNat_ofNat']
  omega

/-- Processing a sender takes it one part further. -/
theorem process_after {s : BufferSender} (h : s.At 0) {k : Nat} (hk : k < s.parts.toNat) :
    (s.after k).process BufferSender.virtuals
      = ⟨true, some (s.packet k), s.after (k + 1), decide (k + 1 = s.parts.toNat)⟩ := by
  have hp := h.parts_le
  have hpart : UInt32.ofNat k + 1 = UInt32.ofNat (k + 1) := by
    rw [← UInt32.toNat_inj, UInt32.toNat_add, UInt32.toNat_ofNat', UInt32.toNat_ofNat']
    show (k % 2 ^ 32 + 1) % 2 ^ 32 = (k + 1) % 2 ^ 32
    omega
  have hprocess := (at_after h (Nat.le_of_lt hk)).process_eq hk
  rw [hprocess]
  show (if k + 1 = s.parts.toNat then _ else _) = _
  unfold BufferSender.after
  rw [if_neg (show ¬ k = s.parts.toNat by omega)]
  dsimp only
  rw [hpart]
  by_cases hlast : k + 1 = s.parts.toNat
  · rw [if_pos hlast, if_pos hlast, decide_eq_true hlast]
    rfl
  · rw [if_neg hlast, if_neg hlast, decide_eq_false hlast]
    rfl

/-! ## A packet arrives -/

/-- The receiver that gets the next packet of a stream. -/
theorem RecvInv.receiverFor {t : ReceiverTable} {s : BufferSender} {j : Nat}
    (hs : Postable read s) (h : RecvInv read t s j) (hj : j < s.parts.toNat) :
    ∃ r, t.receiverFor (s.packet j) = some r ∧ r.Holds s j ∧ r.status = .idle
      ∧ r.sub = .null := by
  unfold ReceiverTable.receiverFor
  rw [show (s.packet j).head.streamId = s.id from rfl]
  rcases Nat.eq_zero_or_pos j with h0 | h0
  · rw [h.closed (.inl h0)]
    have hcreate : ReceiverTable.createStreamReceiver (s.packet j)
        = some (UbjReceiver.create (s.packet j)) := by
      unfold ReceiverTable.createStreamReceiver
      rw [show (s.packet j).head.streamType = s.type from rfl, hs.fields.1, if_pos rfl]
    subst h0
    exact ⟨_, hcreate, BufferReceiver.init_holds hs.at_zero _, rfl, rfl⟩
  · obtain ⟨r, hfind, hrest⟩ := h.opened h0 hj
    rw [hfind]
    exact ⟨r, rfl, hrest⟩

/-- What the engine keeps of a part in the middle. -/
theorem processReceiver_middle {t : ReceiverTable} {r r' : UbjReceiver} {pkt : Packet}
    {accesses : List Access}
    (hp : UbjReceiver.process read behind r pkt = ⟨true, r', accesses, false⟩)
    (hstatus : r'.status ≠ .completed) :
    t.processReceiver read behind r pkt =
      (true, { t with
        streamReceivers := OrdMap.insert pkt.head.streamId r' t.streamReceivers
        accesses := t.accesses ++ accesses }) := by
  unfold ReceiverTable.processReceiver
  rw [hp]
  dsimp only
  rw [if_neg (show ¬ false = true by decide)]
  rw [if_neg (by simp [hstatus])]

/-- What it keeps of a receiver that has reported. -/
theorem processReceiver_last {t : ReceiverTable} {r r' : UbjReceiver} {pkt : Packet}
    {accesses : List Access}
    (hp : UbjReceiver.process read behind r pkt = ⟨true, r', accesses, true⟩)
    (hstatus : r'.status = .completed) :
    ∃ requests calls, t.processReceiver read behind r pkt =
      (true,
        { streamReceivers :=
            OrdMap.erase r'.id (OrdMap.insert pkt.head.streamId r' t.streamReceivers)
          requests := requests
          calls := calls
          reports := t.reports ++ [r']
          accesses := t.accesses ++ accesses }) := by
  obtain ⟨requests, calls, hcall⟩ := ReceiverTable.onReceived_eq { t with
    streamReceivers := OrdMap.insert pkt.head.streamId r' t.streamReceivers
    accesses := t.accesses ++ accesses } r'
  refine ⟨requests, calls, ?_⟩
  unfold ReceiverTable.processReceiver
  rw [hp]
  dsimp only
  rw [if_pos rfl, hcall, if_pos (.inr hstatus)]

/-- **The next packet of a stream takes its receiver one part further**, and no other stream
notices. -/
theorem RecvInv.deliver {t : ReceiverTable} {s : BufferSender} {j : Nat}
    (hs : Postable read s) (h : RecvInv read t s j) (hj : j < s.parts.toNat) :
    RecvInv read (t.processIncomingPacket read behind (s.packet j)).2 s (j + 1) ∧
      ∀ id, id ≠ s.id →
        OrdMap.find? (t.processIncomingPacket read behind (s.packet j)).2.streamReceivers id
            = OrdMap.find? t.streamReceivers id
          ∧ reportsOf (t.processIncomingPacket read behind (s.packet j)).2 id = reportsOf t id := by
  obtain ⟨r, hfor, hholds, hidle, hsub⟩ := h.receiverFor hs hj
  have hpend := h.pending hj
  unfold ReceiverTable.processIncomingPacket
  rw [hfor]
  dsimp only
  by_cases hlast : j + 1 = s.parts.toNat
  · obtain ⟨r', accesses, hp, hholds', hstatus, hsub'⟩ :=
      UbjReceiver.process_last hs.at_zero hholds hlast
    obtain ⟨requests, calls, hkeep⟩ := processReceiver_last (t := t) hp hstatus
    rw [hkeep]
    constructor
    · refine ⟨fun _ hlt => absurd hlt (by omega), fun _ => ?_, fun hlt => absurd hlt (by omega),
        fun _ => ⟨r', ?_, hstatus, hholds', by rw [hsub', hsub]⟩⟩
      · rw [← hholds'.id]
        exact OrdMap.find?_erase_self _ _
      · show List.filter _ (t.reports ++ [r']) = [r']
        rw [List.filter_append, show List.filter _ t.reports = [] from hpend, List.nil_append,
          List.filter_cons_of_pos (by simp [hholds'.id]), List.filter_nil]
    · intro id hne
      constructor
      · rw [hholds'.id]
        exact (OrdMap.find?_erase_of_ne _ hne).trans (OrdMap.find?_insert_of_ne _ _ hne)
      · show List.filter _ (t.reports ++ [r']) = List.filter _ t.reports
        rw [List.filter_append, List.filter_cons_of_neg (by simp [hholds'.id, Ne.symm hne]),
          List.filter_nil, List.append_nil]
  · obtain ⟨r', accesses, hp, hholds', hstatus, hsub'⟩ :=
      UbjReceiver.process_middle hs.at_zero hholds (by omega)
    rw [hidle] at hstatus
    rw [processReceiver_middle hp (by rw [hstatus]; decide)]
    constructor
    · refine ⟨fun _ _ => ⟨r', ?_, hholds', hstatus, by rw [hsub', hsub]⟩, fun hc => ?_,
        fun _ => hpend, fun he => absurd he hlast⟩
      · exact OrdMap.find?_insert_self _ _ _
      · rcases hc with hc | hc
        · exact absurd hc (by omega)
        · exact absurd hc hlast
    · intro id hne
      exact ⟨OrdMap.find?_insert_of_ne _ _ hne, rfl⟩

/-! ## Which stream an id belongs to -/

/-- The ids of all senders. -/
abbrev ids (l : Link) : List UInt32 := l.sending.objects.map (·.id)

theorem StreamInv.id_eq {l : Link} {i k j : Nat} {s : BufferSender} (h : StreamInv read l i s k j) :
    l.ids[i]? = some s.id := by
  rw [List.getElem?_map, h.sending.object]
  rfl

/-- Two streams do not share an id. -/
theorem Inv.id_ne {l : Link} (h : Inv read l) {i i' k j k' j' : Nat} {s s' : BufferSender}
    (hs : StreamInv read l i s k j) (hs' : StreamInv read l i' s' k' j') (hne : i ≠ i') :
    s.id ≠ s'.id := by
  intro he
  obtain ⟨hi, hget⟩ := List.getElem?_eq_some_iff.mp hs.id_eq
  obtain ⟨hi', hget'⟩ := List.getElem?_eq_some_iff.mp hs'.id_eq
  exact hne ((List.Nodup.getElem_inj_iff h.distinct).mp (by rw [hget, hget', he]))

/-- A packet on the wire is the next one of some stream. -/
theorem Inv.head {l : Link} (h : Inv read l) {pkt : Packet} {rest : List Packet}
    (hw : l.wire = pkt :: rest) :
    ∃ i s k j, StreamInv read l i s k j ∧ j < k ∧ pkt = s.packet j
      ∧ onWire rest s.id = (List.range' (j + 1) (k - (j + 1))).map s.packet := by
  have hmem : pkt.head.streamId ∈ l.ids := by
    by_contra hno
    have hnone := (h.unseen _ hno).wire
    rw [hw, onWire_cons_self rfl] at hnone
    exact absurd hnone (by simp)
  obtain ⟨i, hi, hget⟩ := List.getElem_of_mem hmem
  rw [List.length_map] at hi
  obtain ⟨s, k, j, hinv⟩ := h.stream i hi
  have hid : s.id = pkt.head.streamId := by
    have := hinv.id_eq
    rw [List.getElem?_eq_getElem (by rw [List.length_map]; exact hi), hget] at this
    exact (Option.some.inj this).symm
  have hwire := hinv.wire
  rw [hw, onWire_cons_self hid.symm] at hwire
  obtain ⟨m, hm⟩ : ∃ m, k - j = m + 1 := by
    rcases Nat.eq_zero_or_pos (k - j) with h0 | h0
    · rw [h0] at hwire
      exact absurd hwire (by simp)
    · exact ⟨k - j - 1, by omega⟩
  rw [hm, List.range'_succ, List.map_cons] at hwire
  obtain ⟨h1, h2⟩ := List.cons.inj hwire
  refine ⟨i, s, k, j, hinv, by omega, h1, ?_⟩
  rw [show k - (j + 1) = m by omega]
  exact h2

/-- A stream only depends on what is said about its id. -/
theorem RecvInv.frame {t t' : ReceiverTable} {s : BufferSender} {j : Nat} (h : RecvInv read t s j)
    (hfind : OrdMap.find? t'.streamReceivers s.id = OrdMap.find? t.streamReceivers s.id)
    (hreports : reportsOf t' s.id = reportsOf t s.id) : RecvInv read t' s j :=
  ⟨by rw [hfind]; exact h.opened, by rw [hfind]; exact h.closed, by rw [hreports]; exact h.pending,
    by rw [hreports]; exact h.reported⟩

/-- **Handing over a packet keeps the invariant.** -/
theorem Inv.deliver {l : Link} (h : Inv read l) {pkt : Packet} {rest : List Packet}
    (hw : l.wire = pkt :: rest) :
    Inv read { l with
      wire := rest
      receiving := (l.receiving.processIncomingPacket read behind pkt).2 } := by
  obtain ⟨i, s, k, j, hinv, hjk, rfl, hrest⟩ := h.head hw
  have hj : j < s.parts.toNat := Nat.lt_of_lt_of_le hjk hinv.sending.le
  obtain ⟨hrecv, hframe⟩ :=
    @RecvInv.deliver read behind _ _ _ hinv.postable hinv.receiving hj
  have hother : ∀ id, id ≠ s.id → onWire rest id = onWire l.wire id := by
    intro id hne
    have hskip : (s.packet j).head.streamId ≠ id := Ne.symm hne
    rw [hw, onWire_cons_of_ne hskip]
  refine ⟨?_, h.distinct, h.listed, h.nodup, h.called, ?_⟩
  · intro i' hi'
    by_cases hii : i = i'
    · subst hii
      exact ⟨s, k, j + 1, hinv.postable, hinv.sending, hjk, hrest, hrecv⟩
    · obtain ⟨s', k', j', hinv'⟩ := h.stream i' hi'
      have hne : s'.id ≠ s.id := Ne.symm (h.id_ne hinv hinv' hii)
      obtain ⟨hfind, hreports⟩ := hframe _ hne
      refine ⟨s', k', j', hinv'.postable, hinv'.sending, hinv'.le, ?_,
        hinv'.receiving.frame hfind hreports⟩
      show onWire rest s'.id = _
      rw [hother _ hne]
      exact hinv'.wire
  · intro id hid
    have hne : id ≠ s.id := by
      intro he
      exact hid (he ▸ List.mem_of_getElem? hinv.id_eq)
    obtain ⟨hfind, hreports⟩ := hframe _ hne
    have hun := h.unseen id hid
    exact ⟨(hother id hne).trans hun.wire, hfind.trans hun.receiver, hreports.trans hun.reports⟩

/-! ## A sender is added -/

theorem addStreamSender_eq {s : BufferSender} (hs : Postable read s)
    (t : SenderTable MemoryBuffer) :
    t.addStreamSender s = { t with
      objects := t.objects ++ [s]
      streamSenders := t.streamSenders ++ [t.objects.length] } := by
  unfold SenderTable.addStreamSender
  rw [if_neg hs.1]

/-- **Adding a sender keeps the invariant.** -/
theorem Inv.add {l : Link} (h : Inv read l) {s : BufferSender} (hs : Postable read s)
    (hnew : s.id ∉ l.ids) : Inv read { l with sending := l.sending.addStreamSender s } := by
  have hun := h.unseen _ hnew
  have hpos := hs.parts_pos
  have hcb : l.sending.callbacks.filter (fun c => c.1 = l.sending.objects.length) = [] := by
    refine List.filter_eq_nil_iff.mpr (fun c hc => ?_)
    have := h.called c hc
    simp only [decide_eq_true_eq]
    omega
  rw [addStreamSender_eq hs]
  refine ⟨?_, ?_, ?_, ?_, ?_, ?_⟩
  · intro i hi
    by_cases hlast : i = l.sending.objects.length
    · subst hlast
      refine ⟨s, 0, 0, hs, ⟨?_, Nat.zero_le _, ?_, ?_⟩, Nat.le_refl _, hun.wire, ?_⟩
      · rw [hs.after_zero]
        exact List.getElem?_concat_length
      · exact ⟨fun _ => hpos, fun _ => List.mem_append_right _ (List.mem_singleton_self _)⟩
      · rw [if_neg (by omega)]
        exact hcb
      · exact ⟨fun h0 => absurd h0 (by omega), fun _ => hun.receiver, fun _ => hun.reports,
          fun he => absurd he (by omega)⟩
    · have hi' : i < l.sending.objects.length := by
        rw [List.length_append, List.length_singleton] at hi
        omega
      obtain ⟨s', k, j, hinv⟩ := h.stream i hi'
      refine ⟨s', k, j, hinv.postable, ⟨?_, hinv.sending.le, ?_, hinv.sending.callbacks⟩, hinv.le,
        hinv.wire, hinv.receiving⟩
      · rw [List.getElem?_append_left hi']
        exact hinv.sending.object
      · rw [← hinv.sending.listed, List.mem_append, List.mem_singleton]
        exact ⟨fun hc => hc.resolve_right hlast, .inl⟩
  · rw [List.map_append, List.nodup_append]
    refine ⟨h.distinct, by simp, ?_⟩
    intro a ha b hb hab
    rw [List.map_singleton, List.mem_singleton] at hb
    exact hnew (hb ▸ hab ▸ ha)
  · intro i hi
    rw [List.length_append, List.length_singleton]
    rcases List.mem_append.mp hi with hm | hm
    · have := h.listed i hm
      omega
    · rw [List.mem_singleton.mp hm]
      omega
  · rw [List.nodup_append]
    refine ⟨h.nodup, by simp, ?_⟩
    intro a ha b hb hab
    have := h.listed a ha
    rw [List.mem_singleton] at hb
    omega
  · intro c hc
    have := h.called c hc
    rw [List.length_append]
    omega
  · intro id hid
    rw [List.map_append, List.mem_append] at hid
    have hun' := h.unseen id (fun hm => hid (.inl hm))
    exact ⟨hun'.wire, hun'.receiver, hun'.reports⟩

/-- The same for all that a callback adds. -/
theorem Inv.addAll : ∀ (senders : List BufferSender) {l : Link}, Inv read l →
    New read l.sending.objects senders →
    Inv read { l with sending := senders.foldl SenderTable.addStreamSender l.sending }
  | [], _, h, _ => h
  | s :: senders, l, h, hnew => by
      have hs := hnew.postable s (List.mem_cons_self ..)
      have hdistinct := List.nodup_cons.mp hnew.distinct
      have hadd := h.add hs (hnew.unused s (List.mem_cons_self ..))
      have hrest : New read (l.sending.addStreamSender s).objects senders := by
        rw [addStreamSender_eq hs]
        refine ⟨fun s' hs' => hnew.postable s' (List.mem_cons_of_mem _ hs'), hdistinct.2, ?_⟩
        intro s' hs' hm
        rw [List.map_append, List.mem_append, List.map_singleton, List.mem_singleton] at hm
        rcases hm with hm | hm
        · exact hnew.unused s' (List.mem_cons_of_mem _ hs') hm
        · have hmem : s'.id ∈ senders.map (·.id) := List.mem_map_of_mem hs'
          rw [hm] at hmem
          exact hdistinct.1 hmem
      exact Inv.addAll senders hadd hrest

/-! ## A packet is emitted -/

/-- The table after sender `i` emitted its part `k + 1`, before its callback added anything. -/
def advance (t : SenderTable MemoryBuffer) (i : Nat) (s : BufferSender) (k : Nat) :
    SenderTable MemoryBuffer :=
  if k + 1 = s.parts.toNat then
    { objects := t.objects.set i (s.after (k + 1))
      streamSenders := t.streamSenders.filter (· ≠ i)
      callbacks := t.callbacks ++ [(i, .completed)] }
  else { t with objects := t.objects.set i (s.after (k + 1)) }

theorem advance_objects (t : SenderTable MemoryBuffer) (i : Nat) (s : BufferSender) (k : Nat) :
    (advance t i s k).objects = t.objects.set i (s.after (k + 1)) := by
  unfold advance
  split <;> rfl

/-- The new state of a sender does not change its id. -/
theorem SendInv.advance_ids {t : SenderTable MemoryBuffer} {i k : Nat} {s : BufferSender}
    (h : SendInv t i s k) : (advance t i s k).objects.map (·.id) = t.objects.map (·.id) := by
  have hget : (t.objects.map (·.id))[i]? = some (s.after (k + 1)).id := by
    rw [List.getElem?_map, h.object]
    rfl
  obtain ⟨hi, hi'⟩ := List.getElem?_eq_some_iff.mp hget
  rw [advance_objects, List.map_set, ← hi']
  exact List.set_getElem_self hi

/-- Removing a sender and adding others commute. -/
theorem removeStreamSender_addAll {δ : Type} (i : Nat) : ∀ (senders : List (StreamSender δ))
    (t : SenderTable δ), i < t.objects.length →
    (senders.foldl SenderTable.addStreamSender t).removeStreamSender i
      = senders.foldl SenderTable.addStreamSender (t.removeStreamSender i)
  | [], _, _ => rfl
  | s :: senders, t, hi => by
      have hadd : (t.addStreamSender s).removeStreamSender i
          = (t.removeStreamSender i).addStreamSender s := by
        unfold SenderTable.addStreamSender SenderTable.removeStreamSender
        by_cases h0 : s.id = 0
        · rw [if_pos h0, if_pos h0]
        · rw [if_neg h0, if_neg h0]
          dsimp only
          rw [List.filter_append, List.filter_cons_of_pos (by simp; omega), List.filter_nil]
      have hlen : i < (t.addStreamSender s).objects.length := by
        unfold SenderTable.addStreamSender
        split
        · exact hi
        · rw [List.length_append]
          omega
      rw [List.foldl_cons, List.foldl_cons, removeStreamSender_addAll i senders _ hlen, hadd]

/-- **One turn of the loop**: the sender emits its next packet. If it was the last one, what its
callback added is there, it is gone from the list, and the round is over. -/
theorem SendInv.turn {t : SenderTable MemoryBuffer} {i k : Nat} {s : BufferSender}
    (hs : Postable read s) (h : SendInv t i s k) (hk : k < s.parts.toNat)
    (posts : Nat → List BufferSender) (out : List Packet) (res : Nat) :
    processStreamSender BufferSender.virtuals posts true accept i ⟨t, out, res⟩ =
      (decide (k + 1 ≠ s.parts.toNat),
        { table :=
            if k + 1 = s.parts.toNat then
              (posts i).foldl SenderTable.addStreamSender (advance t i s k)
            else advance t i s k
          out := out ++ [s.packet k]
          res := res + 1 }) := by
  have hi : i < t.objects.length := (List.getElem?_eq_some_iff.mp h.object).1
  unfold processStreamSender
  rw [h.object]
  dsimp only
  rw [process_after hs.at_zero hk]
  dsimp only [accept]
  rw [if_pos rfl, BufferSender.packet_copy]
  by_cases hlast : k + 1 = s.parts.toNat
  · have hstatus : (s.after (k + 1)).status = .completed := if_pos hlast
    have hlen : i < (t.objects.set i (s.after (k + 1))).length := by
      rw [List.length_set]
      exact hi
    rw [if_pos hstatus, if_pos hlast, decide_eq_true hlast]
    unfold storeSent
    rw [if_pos rfl, hstatus, removeStreamSender_addAll i _ _ hlen, advance, if_pos hlast]
    simp [hlast, SenderTable.removeStreamSender]
  · have hstatus : (s.after (k + 1)).status ≠ .completed := by
      show (if k + 1 = s.parts.toNat then _ else _) ≠ _
      rw [if_neg hlast]
      decide
    rw [if_neg hstatus, if_neg hlast, decide_eq_false hlast]
    unfold storeSent
    rw [if_neg (by simp), advance, if_neg hlast]
    simp [hlast]

/-- **Emitting a packet keeps the invariant.** -/
theorem Inv.emit {l : Link} (h : Inv read l) {i k j : Nat} {s : BufferSender}
    (hinv : StreamInv read l i s k j) (hk : k < s.parts.toNat) :
    Inv read { l with
      sending := advance l.sending i s k
      wire := l.wire ++ [s.packet k] } := by
  have hi : i < l.sending.objects.length := (List.getElem?_eq_some_iff.mp hinv.sending.object).1
  have hids : (advance l.sending i s k).objects.map (·.id) = l.ids := hinv.sending.advance_ids
  have hsub : ∀ h ∈ (advance l.sending i s k).streamSenders, h ∈ l.sending.streamSenders := by
    intro h' hm
    unfold advance at hm
    split at hm
    · exact (List.mem_filter.mp hm).1
    · exact hm
  have hlen : (advance l.sending i s k).objects.length = l.sending.objects.length := by
    rw [advance_objects, List.length_set]
  refine ⟨?_, by rw [hids]; exact h.distinct, ?_, ?_, ?_, ?_⟩
  · intro i' hi'
    rw [hlen] at hi'
    by_cases hii : i = i'
    · subst hii
      refine ⟨s, k + 1, j, hinv.postable, ⟨?_, hk, ?_, ?_⟩, Nat.le_succ_of_le hinv.le, ?_,
        hinv.receiving⟩
      · rw [advance_objects]
        exact List.getElem?_set_self hi
      · unfold advance
        by_cases hlast : k + 1 = s.parts.toNat
        · rw [if_pos hlast]
          simp [hlast]
        · rw [if_neg hlast]
          exact ⟨fun _ => by omega, fun _ => hinv.sending.listed.mpr hk⟩
      · have hcb := hinv.sending.callbacks
        rw [if_neg (by omega)] at hcb
        unfold advance
        by_cases hlast : k + 1 = s.parts.toNat
        · rw [if_pos hlast, if_pos hlast]
          dsimp only
          rw [List.filter_append, hcb, List.filter_cons_of_pos (by simp)]
          rfl
        · rw [if_neg hlast, if_neg hlast]
          exact hcb
      · have hjk := hinv.le
        rw [onWire_append, hinv.wire, show k + 1 - j = (k - j) + 1 by omega, List.range'_1_concat,
          List.map_append, show j + (k - j) = k by omega]
        exact congrArg (_ ++ ·) (onWire_cons_self rfl [])
    · obtain ⟨s', k', j', hinv'⟩ := h.stream i' hi'
      have hne : s.id ≠ s'.id := h.id_ne hinv hinv' hii
      refine ⟨s', k', j', hinv'.postable, ⟨?_, hinv'.sending.le, ?_, ?_⟩, hinv'.le, ?_,
        hinv'.receiving⟩
      · rw [advance_objects, List.getElem?_set_ne hii]
        exact hinv'.sending.object
      · rw [← hinv'.sending.listed]
        unfold advance
        split
        · simp [Ne.symm hii]
        · exact Iff.rfl
      · rw [← hinv'.sending.callbacks]
        unfold advance
        split
        · dsimp only
          rw [List.filter_append, List.filter_cons_of_neg (by simpa using hii), List.filter_nil,
            List.append_nil]
        · rfl
      · have hskip : (s.packet k).head.streamId ≠ s'.id := hne
        rw [onWire_append, onWire_cons_of_ne hskip, hinv'.wire]
        exact List.append_nil _
  · intro h' hm
    rw [hlen]
    exact h.listed h' (hsub h' hm)
  · unfold advance
    split
    · exact h.nodup.filter _
    · exact h.nodup
  · intro c hc
    rw [hlen]
    unfold advance at hc
    split at hc
    · rcases List.mem_append.mp hc with hm | hm
      · exact h.called c hm
      · rw [List.mem_singleton.mp hm]
        exact hi
    · exact h.called c hc
  · intro id hid
    rw [hids] at hid
    have hun := h.unseen id hid
    have hskip : (s.packet k).head.streamId ≠ id := by
      intro he
      exact hid (he ▸ List.mem_of_getElem? hinv.id_eq)
    refine ⟨?_, hun.receiver, hun.reports⟩
    rw [onWire_append, onWire_cons_of_ne hskip, hun.wire]
    rfl

/-! ## Rounds -/

theorem New.congr {objects objects' senders : List BufferSender} (h : New read objects senders)
    (hids : objects'.map (·.id) = objects.map (·.id)) : New read objects' senders :=
  ⟨h.postable, h.distinct, by rw [hids]; exact h.unused⟩

/-- The sender whose turn it is has a part left. -/
theorem Inv.turn {l : Link} (h : Inv read l) {i : Nat} (hi : i ∈ l.sending.streamSenders) :
    ∃ s k j, StreamInv read l i s k j ∧ k < s.parts.toNat := by
  obtain ⟨s, k, j, hinv⟩ := h.stream i (h.listed i hi)
  exact ⟨s, k, j, hinv, hinv.sending.listed.mp hi⟩

/-- The loop over a snapshot keeps the invariant: the list does not change before the round is
over. -/
theorem Inv.snapshot {posts : Nat → List BufferSender} {receiving : ReceiverTable} :
    ∀ (hs : List Nat) (r : Round MemoryBuffer (List Packet)),
      Inv read ⟨r.table, r.out, receiving⟩ → (∀ h ∈ hs, h ∈ r.table.streamSenders) →
      (∀ h, New read r.table.objects (posts h)) →
      Inv read
        ⟨(processSnapshot BufferSender.virtuals posts true accept hs r).table,
          (processSnapshot BufferSender.virtuals posts true accept hs r).out, receiving⟩
  | [], _, h, _, _ => h
  | i :: hs, ⟨t, out, res⟩, h, hmem, hnew => by
      obtain ⟨s, k, j, hinv, hk⟩ := h.turn (hmem i (List.mem_cons_self ..))
      have hsend : SendInv t i s k := hinv.sending
      have hemit := h.emit hinv hk
      have hnew' : ∀ h', New read (advance t i s k).objects (posts h') :=
        fun h' => (hnew h').congr hsend.advance_ids
      rw [processSnapshot, hsend.turn hinv.postable hk]
      by_cases hlast : k + 1 = s.parts.toNat
      · rw [decide_eq_false (not_not.mpr hlast), if_pos hlast]
        exact hemit.addAll (posts i) (hnew' i)
      · rw [decide_eq_true hlast, if_neg hlast]
        refine Inv.snapshot hs _ hemit ?_ hnew'
        intro h' hm
        unfold advance
        rw [if_neg hlast]
        exact hmem h' (List.mem_cons_of_mem _ hm)

/-- **A round keeps the invariant.** -/
theorem Inv.round {l : Link} (h : Inv read l) {posts : Nat → List BufferSender}
    (hnew : ∀ h, New read l.sending.objects (posts h)) : Inv read (l.round posts) :=
  Inv.snapshot l.sending.streamSenders ⟨l.sending, l.wire, 0⟩ h (fun _ hm => hm) hnew

theorem inv_init : Inv read init where
  stream := fun i hi => absurd hi (Nat.not_lt_zero i)
  distinct := List.nodup_nil
  listed := fun _ hm => absurd hm List.not_mem_nil
  nodup := List.nodup_nil
  called := fun _ hm => absurd hm List.not_mem_nil
  unseen := fun _ _ => ⟨rfl, rfl, rfl⟩

theorem inv_step {l l' : Link} (h : Inv read l) (hs : Step read behind l l') : Inv read l' := by
  cases hs with
  | add s hnew =>
    have hmem := List.mem_singleton_self s
    exact h.add (hnew.postable s hmem) (hnew.unused s hmem)
  | round posts hnew => exact h.round hnew
  | deliver pkt rest hw => exact h.deliver hw

theorem inv_reachable {l : Link} (h : Reachable read behind l) : Inv read l := by
  induction h with
  | init => exact inv_init
  | tail _ hs ih => exact inv_step ih hs

/-! ## The rounds come to an end -/

/-- Rounds in which no callback adds anything. -/
def rounds : Nat → Link → Link
  | 0, l => l
  | n + 1, l => rounds n (l.round (fun _ => []))

/-- The parts that are not out yet. -/
def remaining (t : SenderTable MemoryBuffer) : Nat :=
  (t.objects.map (fun s => s.parts.toNat - s.part.toNat)).sum

theorem sum_map_set_lt {α : Type} (f : α → Nat) :
    ∀ (xs : List α) (i : Nat) (a b : α), xs[i]? = some a → f b < f a →
      ((xs.set i b).map f).sum < (xs.map f).sum
  | [], _, _, _, h, _ => absurd h (by simp)
  | x :: xs, 0, a, b, h, hlt => by
      have hx : x = a := by simpa using h
      rw [List.set_cons_zero, List.map_cons, List.map_cons, List.sum_cons, List.sum_cons, hx]
      omega
  | x :: xs, i + 1, a, b, h, hlt => by
      have ih := sum_map_set_lt f xs i a b (by simpa using h) hlt
      rw [List.set_cons_succ, List.map_cons, List.map_cons, List.sum_cons, List.sum_cons]
      omega

theorem SendInv.remaining_lt {t : SenderTable MemoryBuffer} {i k : Nat} {s : BufferSender}
    (hs : Postable read s) (h : SendInv t i s k) (hk : k < s.parts.toNat) :
    remaining (advance t i s k) < remaining t := by
  unfold remaining
  rw [advance_objects]
  refine sum_map_set_lt _ _ _ _ _ h.object ?_
  have h1 := (at_after hs.at_zero (Nat.le_of_lt hk)).part
  have h2 := (at_after hs.at_zero hk).part
  show s.parts.toNat - (s.after (k + 1)).part.toNat < s.parts.toNat - (s.after k).part.toNat
  rw [h1, h2]
  omega

/-- A round without additions emits something as long as there are senders, and keeps them. -/
theorem Inv.snapshot_remaining {receiving : ReceiverTable} :
    ∀ (hs : List Nat) (r : Round MemoryBuffer (List Packet)),
      Inv read ⟨r.table, r.out, receiving⟩ → (∀ h ∈ hs, h ∈ r.table.streamSenders) →
      remaining (processSnapshot BufferSender.virtuals (fun _ => []) true accept hs r).table
          + (if hs = [] then 0 else 1) ≤ remaining r.table
        ∧ (processSnapshot BufferSender.virtuals (fun _ => []) true accept hs r).table.objects.map
          (·.id) = r.table.objects.map (·.id)
  | [], _, _, _ => ⟨Nat.le_refl _, rfl⟩
  | i :: hs, ⟨t, out, res⟩, h, hmem => by
      obtain ⟨s, k, j, hinv, hk⟩ := h.turn (hmem i (List.mem_cons_self ..))
      have hsend : SendInv t i s k := hinv.sending
      have hlt := hsend.remaining_lt hinv.postable hk
      rw [processSnapshot, hsend.turn hinv.postable hk, if_neg (List.cons_ne_nil _ _)]
      by_cases hlast : k + 1 = s.parts.toNat
      · rw [decide_eq_false (not_not.mpr hlast), if_pos hlast]
        exact ⟨hlt, hsend.advance_ids⟩
      · rw [decide_eq_true hlast, if_neg hlast]
        have hkeep : ∀ h' ∈ hs, h' ∈ (advance t i s k).streamSenders := by
          intro h' hm
          unfold advance
          rw [if_neg hlast]
          exact hmem h' (List.mem_cons_of_mem _ hm)
        obtain ⟨hle, hids⟩ := Inv.snapshot_remaining hs
          ⟨advance t i s k, out ++ [s.packet k], res + 1⟩ (h.emit hinv hk) hkeep
        refine ⟨?_, hids.trans hsend.advance_ids⟩
        dsimp only at hle ⊢
        split at hle <;> omega

theorem new_nil (objects : List BufferSender) : New read objects [] :=
  ⟨fun _ h => absurd h List.not_mem_nil, List.nodup_nil, fun _ h => absurd h List.not_mem_nil⟩

theorem Inv.rounds_empty : ∀ (n : Nat) {l : Link}, Inv read l → remaining l.sending ≤ n →
    ∃ m, (rounds m l).sending.streamSenders = [] ∧ (rounds m l).ids = l.ids
  | 0, l, h, hn => by
      refine ⟨0, List.eq_nil_iff_forall_not_mem.mpr (fun i hi => ?_), rfl⟩
      obtain ⟨s, k, j, hinv, hk⟩ := h.turn hi
      have := hinv.sending.remaining_lt hinv.postable hk
      omega
  | n + 1, l, h, hn => by
      by_cases hnil : l.sending.streamSenders = []
      · exact ⟨0, hnil, rfl⟩
      · have hround : Inv read (l.round (fun _ => [])) := h.round (fun _ => new_nil _)
        obtain ⟨hlt, hids⟩ := Inv.snapshot_remaining l.sending.streamSenders
          ⟨l.sending, l.wire, 0⟩ h (fun _ hm => hm)
        rw [if_neg hnil] at hlt
        have hle : remaining (l.round (fun _ => [])).sending ≤ n :=
          Nat.le_of_lt_succ (Nat.lt_of_lt_of_le hlt hn)
        obtain ⟨m, hm, hids'⟩ := Inv.rounds_empty n hround hle
        exact ⟨m + 1, hm, hids'.trans hids⟩

theorem Reachable.rounds : ∀ (n : Nat) {l : Link}, Reachable read behind l →
    Reachable read behind (Link.rounds n l)
  | 0, _, h => h
  | n + 1, l, h => Reachable.rounds n (h.tail (.round l _ (fun _ => new_nil _)))

/-- What is on the wire can be handed over. -/
theorem Reachable.deliverAll : ∀ (wire : List Packet) {l : Link}, l.wire = wire →
    Reachable read behind l → ∃ l', Reachable read behind l' ∧ l'.wire = []
      ∧ l'.sending = l.sending
  | [], l, hw, h => ⟨l, h, hw, rfl⟩
  | pkt :: rest, l, hw, h => by
      obtain ⟨l', hr, hw', hs⟩ := Reachable.deliverAll rest rfl (h.tail (.deliver l pkt rest hw))
      exact ⟨l', hr, hw', hs⟩

/-! ## Delivery -/

/-- **Every stream is delivered.** From any reachable state the rounds empty the list of senders.
Once it is empty and everything on the wire was handed over, each stream has been reported exactly
once, as completed and with exactly the sender's bytes; the sender's callback ran once; and neither
engine has anything left of it. -/
theorem streams_delivered {l : Link} (hr : Reachable read behind l) :
    (∃ n, (rounds n l).sending.streamSenders = [] ∧ (rounds n l).ids = l.ids) ∧
    (l.sending.streamSenders = [] → l.wire = [] →
      ∀ i s, l.sending.objects[i]? = some s →
        (∃ r v, reportsOf l.receiving s.id = [r] ∧ r.status = .completed
          ∧ r.bytesReceived.toNat = s.sub.size ∧ r.buffer.data.take s.sub.size = s.sub.data
          ∧ s.sub.data = Ubj.Writer.write v ∧ r.sub = v)
        ∧ l.sending.callbacks.filter (fun c => c.1 = i) = [(i, .completed)]
        ∧ OrdMap.find? l.receiving.streamReceivers s.id = none) := by
  have h := inv_reachable hr
  refine ⟨h.rounds_empty _ (Nat.le_refl _), ?_⟩
  intro hempty hwire i s' hobj
  obtain ⟨s, k, j, hinv⟩ := h.stream i (List.getElem?_eq_some_iff.mp hobj).1
  obtain rfl : s.after k = s' := by
    have := hinv.sending.object
    rw [hobj] at this
    exact (Option.some.inj this).symm
  -- nothing to send and nothing on the way
  have hk : k = s.parts.toNat := by
    have hle := hinv.sending.le
    have hlisted := hinv.sending.listed
    rw [hempty] at hlisted
    have : ¬ k < s.parts.toNat := fun hlt => absurd (hlisted.mpr hlt) List.not_mem_nil
    omega
  have hj : j = s.parts.toNat := by
    have hle := hinv.le
    have hw := hinv.wire
    rw [hwire] at hw
    have hlen := congrArg List.length hw
    rw [List.length_map, List.length_range'] at hlen
    have : k - j = 0 := hlen.symm
    omega
  obtain ⟨r, hreports, hstatus, hholds, hsub⟩ := hinv.receiving.reported hj
  rw [hj] at hholds
  obtain ⟨hbytes, hdata⟩ := hholds.complete hinv.postable.at_zero
  obtain ⟨v, hdoc, hread⟩ := hinv.postable.document
  refine ⟨⟨r, v, hreports, hstatus, hbytes, hdata, hdoc, ?_⟩, ?_,
    hinv.receiving.closed (.inr hj)⟩
  · rw [hsub, hread]
  · rw [hinv.sending.callbacks, if_pos hk]

/-- One stream with the object `{"a": true}`, read by the reader itself. -/
theorem streams_delivered_object :
    ∃ (l : Link) (s : BufferSender) (r : UbjReceiver), l.sending.objects[0]? = some s ∧ s.id = 7
      ∧ reportsOf l.receiving s.id = [r] ∧ r.status = .completed
      ∧ r.buffer.data.take s.sub.size = s.sub.data := by
  have hpost : Postable (Ubj.Value.read ⟨0, fun _ => 0⟩ 20)
      (UbjSender.create 7 Packet.Request (.object [([0x61], .bool true)])) :=
    ⟨by decide, .object [([0x61], .bool true)], rfl, by decide, by decide, rfl⟩
  have hnew : New (Ubj.Value.read ⟨0, fun _ => 0⟩ 20) init.sending.objects
      [UbjSender.create 7 Packet.Request (.object [([0x61], .bool true)])] :=
    ⟨fun s hs => List.mem_singleton.mp hs ▸ hpost, List.nodup_singleton _,
      fun _ _ => List.not_mem_nil⟩
  have hstart : Reachable (Ubj.Value.read ⟨0, fun _ => 0⟩ 20) (fun _ => 0) _ :=
    Reachable.init.tail (.add _ _ hnew)
  obtain ⟨⟨n, hempty, hids⟩, -⟩ := streams_delivered hstart
  obtain ⟨l, hr, hwire, hsending⟩ := Reachable.deliverAll _ rfl (hstart.rounds n)
  have hid : (l.sending.objects.map (·.id))[0]? = some 7 := by
    rw [hsending]
    exact congrArg (·[0]?) hids
  rw [List.getElem?_map] at hid
  obtain ⟨s, hs, hseven⟩ := Option.map_eq_some_iff.mp hid
  obtain ⟨⟨r, v, hreport, hstatus, -, hdata, -⟩, -⟩ :=
    (streams_delivered hr).2 (by rw [hsending]; exact hempty) hwire 0 s hs
  exact ⟨l, s, r, hs, hseven, hreport, hstatus, hdata⟩

end Link

end Zway
