import Mathlib.Algebra.Order.Ring.Nat
import Zway.Lib.Run
import Zway.Ubj.RoundTrip

/-!
# The inbox of a contact

`Store::updateInbox` appends the ids that are not in the inbox yet, and counts them. It
looks into a map of the ids that were there before, and the loop does not add to that map,
so an id that comes twice is appended twice. For a contact that is not in the store
everything is new, and is counted, and nothing is stored.

Operations of the store succeed here; the list goes through the encoded record and comes
back as it was (`stored_roundTrip`).
-/

namespace Zway.Client

open Ubj (Value)

/-- A row of `contacts`, with the columns that are looked at. -/
structure InboxRow where
  id : BitVec 32
  /-- `inbox`, which is null if the record has no such field. -/
  inbox : Value

/-- The table `contacts`. -/
structure InboxStore where
  contacts : List InboxRow

namespace InboxStore

/-- `contact["inbox"]` after `query` of the contact. -/
def inbox (s : InboxStore) (contactId : BitVec 32) : Value :=
  ((s.contacts.find? (·.id = contactId)).map (·.inbox)).getD .null

/-- `update` of `inbox`. -/
def update (s : InboxStore) (contactId : BitVec 32) (inbox : Value) : InboxStore where
  contacts := s.contacts.map fun row => if row.id = contactId then { row with inbox := inbox } else row

/-- The ids in a list of values. -/
def ids (items : List Value) : List (BitVec 32) := items.map Value.toInt

/-- The loop of `Store::updateInbox`, with the keys of its map. -/
def insertNew (map : List (BitVec 32)) (currentInbox : List Value) (numInserted : UInt32) :
    List Value → List Value × UInt32
  | [] => (currentInbox, numInserted)
  | it :: inbox =>
      let messageId := it.toInt
      if messageId ∈ map then insertNew map currentInbox numInserted inbox
      else insertNew map (currentInbox ++ [.int32 messageId]) (numInserted + 1) inbox

/-- `Store::updateInbox`. -/
def updateInbox (s : InboxStore) (contactId : BitVec 32) (inbox : List Value) :
    UInt32 × InboxStore :=
  let currentInbox := (s.inbox contactId).toArray
  let r := insertNew (ids currentInbox) currentInbox 0 inbox
  (r.2, s.update contactId (.array r.1))

/-- `Store::resetInbox`. -/
def resetInbox (s : InboxStore) (contactId : BitVec 32) : UInt32 × InboxStore :=
  (0, s.update contactId (.array []))

/-- `Store::numInboxMessages`. -/
def numInboxMessages (s : InboxStore) (contactId : BitVec 32) : UInt32 :=
  (s.inbox contactId).numItems

end InboxStore

inductive InboxCall where
  | update (contactId : BitVec 32) (inbox : List Value)
  | reset (contactId : BitVec 32)

namespace InboxStore

def step (s : InboxStore) : InboxCall → Option InboxStore
  | .update contactId inbox => some (s.updateInbox contactId inbox).2
  | .reset contactId => some (s.resetInbox contactId).2

/-- A contact with the id. -/
def Has (s : InboxStore) (contactId : BitVec 32) : Prop := ∃ row ∈ s.contacts, row.id = contactId

/-- No inbox has an id twice. -/
def Distinct (s : InboxStore) : Prop := ∀ row ∈ s.contacts, (ids row.inbox.toArray).Nodup

/-- Nothing has come in yet. -/
def Fresh (s : InboxStore) : Prop := ∀ row ∈ s.contacts, row.inbox = .null ∨ row.inbox = .array []

/-- What `updateInbox` owes its caller. -/
structure Updated (s : InboxStore) (contactId : BitVec 32) (inbox : List Value) : Prop where
  distinct : (s.updateInbox contactId inbox).2.Distinct
  contents : ∀ row ∈ (s.updateInbox contactId inbox).2.contacts, row.id = contactId →
    ∀ id, id ∈ ids row.inbox.toArray ↔ id ∈ ids (s.inbox contactId).toArray ∨ id ∈ ids inbox
  /-- The returned number is the increase. -/
  returned : (s.updateInbox contactId inbox).1
    = (s.updateInbox contactId inbox).2.numInboxMessages contactId - s.numInboxMessages contactId

/-- Of the ids that are not in the inbox yet none comes twice; for a contact that is not there the
list is empty, as far as a `uint32_t` counts. -/
def Regular (s : InboxStore) (contactId : BitVec 32) (inbox : List Value) : Prop :=
  (s.Has contactId →
      ∀ id, id ∉ ids (s.inbox contactId).toArray → (ids inbox).count id ≤ 1) ∧
    (¬ s.Has contactId → UInt32.ofNat inbox.length = 0)

/-- Such a call in a run. -/
def RegularCall (s : InboxStore) : InboxCall → Prop
  | .update contactId inbox => s.Regular contactId inbox
  | .reset _ => True

/-- What the loop appends, and what it counts. -/
theorem insertNew_eq (map : List (BitVec 32)) (inbox : List Value) :
    ∀ (currentInbox : List Value) (numInserted : UInt32),
    insertNew map currentInbox numInserted inbox =
      (currentInbox ++ ((ids inbox).filter (· ∉ map)).map .int32,
        numInserted + UInt32.ofNat ((ids inbox).filter (· ∉ map)).length) := by
  induction inbox with
  | nil =>
    intro currentInbox numInserted
    show (currentInbox, numInserted) = (currentInbox ++ [], numInserted + 0)
    rw [List.append_nil, UInt32.add_zero]
  | cons it inbox ih =>
    intro currentInbox numInserted
    have hids : ids (it :: inbox) = it.toInt :: ids inbox := rfl
    have hnext : insertNew map currentInbox numInserted (it :: inbox) =
        if it.toInt ∈ map then insertNew map currentInbox numInserted inbox
        else insertNew map (currentInbox ++ [.int32 it.toInt]) (numInserted + 1) inbox := rfl
    rw [hnext, hids]
    by_cases hmem : it.toInt ∈ map
    · rw [if_pos hmem, List.filter_cons_of_neg (by simp [hmem]), ih]
    · rw [if_neg hmem, List.filter_cons_of_pos (by simp [hmem]), ih, List.map_cons,
        List.length_cons, List.append_assoc, UInt32.add_assoc]
      have hone : 1 + UInt32.ofNat ((ids inbox).filter (· ∉ map)).length
          = UInt32.ofNat (((ids inbox).filter (· ∉ map)).length + 1) := by
        rw [UInt32.ofNat_add, UInt32.add_comm]
        rfl
      rw [hone]
      rfl

theorem ids_int32 (l : List (BitVec 32)) : ids (l.map .int32) = l := by
  unfold ids
  rw [List.map_map]
  exact List.map_id l

/-! ## What is stored -/

section

variable {s : InboxStore} {contactId : BitVec 32}

/-- An update leaves the ids of the contacts alone. -/
theorem update_has {contactId' : BitVec 32} {inbox : Value} :
    (s.update contactId inbox).Has contactId' ↔ s.Has contactId' := by
  have hid : ∀ row : InboxRow,
      (if row.id = contactId then { row with inbox := inbox } else row).id = row.id := by
    intro row
    split <;> rfl
  constructor
  · rintro ⟨row, hrow, hrowId⟩
    obtain ⟨row', hrow', rfl⟩ := List.mem_map.mp hrow
    exact ⟨row', hrow', (hid row').symm.trans hrowId⟩
  · rintro ⟨row, hrow, hrowId⟩
    exact ⟨_, List.mem_map.mpr ⟨row, hrow, rfl⟩, (hid row).trans hrowId⟩

/-- What is stored after an update, in every row. -/
theorem mem_update {inbox : Value} {row : InboxRow} (h : row ∈ (s.update contactId inbox).contacts) :
    (row.id = contactId ∧ row.inbox = inbox) ∨ (row.id ≠ contactId ∧ row ∈ s.contacts) := by
  obtain ⟨row', hrow', rfl⟩ := List.mem_map.mp h
  by_cases hid : row'.id = contactId
  · rw [if_pos hid]
    exact .inl ⟨hid, rfl⟩
  · rw [if_neg hid]
    exact .inr ⟨hid, hrow'⟩

/-- What is found is stored. -/
theorem inbox_cases (s : InboxStore) (contactId : BitVec 32) :
    (∃ row ∈ s.contacts, row.id = contactId ∧ s.inbox contactId = row.inbox) ∨
      (¬ s.Has contactId ∧ s.inbox contactId = .null) := by
  cases hfind : s.contacts.find? (·.id = contactId) with
  | some row =>
    refine .inl ⟨row, List.mem_of_find?_eq_some hfind, by simpa using List.find?_some hfind, ?_⟩
    unfold inbox
    rw [hfind]
    rfl
  | none =>
    refine .inr ⟨?_, ?_⟩
    · rintro ⟨row, hrow, hid⟩
      exact absurd (decide_eq_true hid) (List.find?_eq_none.mp hfind row hrow)
    · unfold inbox
      rw [hfind]
      rfl

/-- What is found after an update. -/
theorem inbox_update (h : s.Has contactId) (inbox : Value) :
    (s.update contactId inbox).inbox contactId = inbox := by
  rcases inbox_cases (s.update contactId inbox) contactId with ⟨row, hrow, hid, hinbox⟩ | ⟨hno, -⟩
  · rw [hinbox]
    rcases mem_update hrow with ⟨-, hsame⟩ | ⟨hne, -⟩
    · exact hsame
    · exact absurd hid hne
  · exact absurd (update_has.mpr h) hno

/-- Without the contact an update does nothing. -/
theorem update_of_not_has (h : ¬ s.Has contactId) (inbox : Value) : s.update contactId inbox = s := by
  have hmap : (s.contacts.map fun row =>
      if row.id = contactId then { row with inbox := inbox } else row) = s.contacts := by
    refine (List.map_congr_left fun row hrow => ?_).trans (List.map_id _)
    exact if_neg fun hid => h ⟨row, hrow, hid⟩
  unfold update
  rw [hmap]

end

/-- The inboxes are lists of `uint32_t`. -/
def Plain (s : InboxStore) : Prop :=
  ∀ row ∈ s.contacts, row.inbox = .null ∨ ∃ l : List (BitVec 32), row.inbox = .array (l.map .int32)

/-- The invariant of a run. -/
structure Inv (s : InboxStore) : Prop where
  plain : s.Plain
  distinct : s.Distinct

section

variable {s : InboxStore}

theorem Fresh.inv (h : s.Fresh) : s.Inv := by
  refine ⟨fun row hrow => (h row hrow).imp_right fun harray => ⟨[], harray⟩, fun row hrow => ?_⟩
  rcases h row hrow with hnull | harray
  · rw [hnull]
    exact List.nodup_nil
  · rw [harray]
    exact List.nodup_nil

/-- The inbox that is found. -/
theorem Inv.inbox (h : s.Inv) (contactId : BitVec 32) :
    ∃ l : List (BitVec 32), (s.inbox contactId).toArray = l.map .int32 ∧ l.Nodup ∧
      s.numInboxMessages contactId = UInt32.ofNat l.length := by
  unfold numInboxMessages
  rcases inbox_cases s contactId with ⟨row, hrow, -, hinbox⟩ | ⟨-, hinbox⟩
  · rw [hinbox]
    have hnodup := h.distinct row hrow
    rcases h.plain row hrow with hnull | ⟨l, harray⟩
    · rw [hnull]
      exact ⟨[], rfl, List.nodup_nil, rfl⟩
    · rw [harray] at hnodup ⊢
      change (ids (l.map .int32)).Nodup at hnodup
      rw [ids_int32] at hnodup
      refine ⟨l, rfl, hnodup, ?_⟩
      show UInt32.ofNat (l.map Value.int32).length = _
      rw [List.length_map]
  · rw [hinbox]
    exact ⟨[], rfl, List.nodup_nil, rfl⟩

/-- An update with a list of ids keeps the rows plain. -/
theorem Plain.update (h : s.Plain) (contactId : BitVec 32) (l : List (BitVec 32)) :
    (s.update contactId (.array (l.map .int32))).Plain := by
  intro row hrow
  rcases mem_update hrow with ⟨-, hinbox⟩ | ⟨-, hold⟩
  · exact .inr ⟨l, hinbox⟩
  · exact h row hold

/-- It stores an id twice only if the list has it twice, or if there is no row for it. -/
theorem Distinct.update_iff (h : s.Distinct) (contactId : BitVec 32) (l : List (BitVec 32)) :
    (s.update contactId (.array (l.map .int32))).Distinct ↔ (s.Has contactId → l.Nodup) := by
  constructor
  · intro hdistinct hhas
    obtain ⟨row, hrow, hid⟩ := update_has.mpr hhas
    have hnodup := hdistinct row hrow
    rcases mem_update hrow with ⟨-, hinbox⟩ | ⟨hne, -⟩
    · rw [hinbox] at hnodup
      change (ids (l.map .int32)).Nodup at hnodup
      rwa [ids_int32] at hnodup
    · exact absurd hid hne
  · intro hnodup row hrow
    rcases mem_update hrow with ⟨hid, hinbox⟩ | ⟨-, hold⟩
    · rw [hinbox]
      show (ids (l.map .int32)).Nodup
      rw [ids_int32]
      refine hnodup ?_
      exact update_has.mp ⟨row, hrow, hid⟩
    · exact h row hold

theorem nodup_new_iff (l new : List (BitVec 32)) :
    (new.filter (· ∉ l)).Nodup ↔ ∀ id, id ∉ l → new.count id ≤ 1 := by
  rw [List.nodup_iff_count_le_one]
  refine forall_congr' fun id => ?_
  by_cases hmem : id ∈ l
  · have hnone : id ∉ new.filter (· ∉ l) := by simp [hmem]
    rw [List.count_eq_zero_of_not_mem hnone]
    exact ⟨fun _ hno => absurd hmem hno, fun _ => Nat.zero_le 1⟩
  · rw [List.count_filter (by simp [hmem])]
    exact ⟨fun h _ => h, fun h => h hmem⟩

/-- What a call of `updateInbox` stores and returns. -/
theorem Inv.updateInbox_eq (h : s.Inv) (contactId : BitVec 32) (inbox : List Value) :
    ∃ l : List (BitVec 32), (s.inbox contactId).toArray = l.map .int32 ∧ l.Nodup ∧
      s.numInboxMessages contactId = UInt32.ofNat l.length ∧
      s.updateInbox contactId inbox =
        (UInt32.ofNat ((ids inbox).filter (· ∉ l)).length,
          s.update contactId (.array ((l ++ (ids inbox).filter (· ∉ l)).map .int32))) := by
  obtain ⟨l, hl, hnodup, hnum⟩ := h.inbox contactId
  refine ⟨l, hl, hnodup, hnum, ?_⟩
  unfold updateInbox
  dsimp only
  rw [insertNew_eq, hl, ids_int32, ← List.map_append, UInt32.zero_add]

theorem Inv.call (h : s.Inv) {c : InboxCall} (hgood : s.RegularCall c) {s' : InboxStore}
    (hstep : s.step c = some s') : s'.Inv := by
  cases c with
  | update contactId inbox =>
    obtain ⟨l, hl, hnodup, -, heq⟩ := h.updateInbox_eq contactId inbox
    obtain rfl := Option.some.inj hstep
    rw [heq]
    refine ⟨h.plain.update contactId _, (h.distinct.update_iff contactId _).mpr fun hhas => ?_⟩
    have hnew := hgood.1 hhas
    rw [hl, ids_int32, ← nodup_new_iff] at hnew
    exact hnodup.append hnew fun id hid hmem => by
      simpa [hid] using (List.mem_filter.mp hmem).2
  | reset contactId =>
    obtain rfl := Option.some.inj hstep
    exact ⟨h.plain.update contactId [],
      (h.distinct.update_iff contactId []).mpr fun _ => List.nodup_nil⟩

/-- **When `updateInbox` keeps its promise.** -/
theorem Inv.updated_iff (h : s.Inv) (contactId : BitVec 32) (inbox : List Value) :
    s.Updated contactId inbox ↔ s.Regular contactId inbox := by
  obtain ⟨l, hl, hnodup, hnum, heq⟩ := h.updateInbox_eq contactId inbox
  have hdistinct : (s.updateInbox contactId inbox).2.Distinct ↔
      (s.Has contactId → ((ids inbox).filter (· ∉ l)).Nodup) := by
    rw [heq, h.distinct.update_iff]
    refine forall_congr' fun _ => ?_
    rw [List.nodup_append]
    refine ⟨fun hall => hall.2.1, fun hnew => ⟨hnodup, hnew, fun id hid id' hmem he => ?_⟩⟩
    rw [← he] at hmem
    simpa [hid] using (List.mem_filter.mp hmem).2
  have hreturned : (s.updateInbox contactId inbox).1
      = (s.updateInbox contactId inbox).2.numInboxMessages contactId
        - s.numInboxMessages contactId ↔
      (¬ s.Has contactId → UInt32.ofNat inbox.length = 0) := by
    rw [heq]
    dsimp only
    by_cases hhas : s.Has contactId
    · rw [hnum]
      unfold numInboxMessages
      rw [inbox_update hhas]
      show UInt32.ofNat _ = UInt32.ofNat (List.map Value.int32 _).length - _ ↔ _
      rw [List.length_map, List.length_append, UInt32.ofNat_add, UInt32.add_comm,
        UInt32.add_sub_cancel]
      exact ⟨fun _ hno => absurd hhas hno, fun _ => rfl⟩
    · rw [update_of_not_has hhas, UInt32.sub_self]
      rcases inbox_cases s contactId with ⟨row, hrow, hid, -⟩ | ⟨-, hnull⟩
      · exact absurd ⟨row, hrow, hid⟩ hhas
      · rw [hnull] at hl
        have hempty : l = [] := List.map_eq_nil_iff.mp hl.symm
        have hall : (ids inbox).filter (· ∉ l) = ids inbox := by
          rw [hempty]
          exact List.filter_eq_self.mpr fun _ _ => by simp
        rw [hall]
        unfold ids
        rw [List.length_map]
        exact ⟨fun hzero _ => hzero, fun hzero => hzero hhas⟩
  unfold Regular
  rw [hl, ids_int32, ← nodup_new_iff]
  constructor
  · intro hupdated
    exact ⟨hdistinct.mp hupdated.distinct, hreturned.mp hupdated.returned⟩
  · rintro ⟨hnew, hzero⟩
    refine ⟨hdistinct.mpr hnew, ?_, hreturned.mpr hzero⟩
    intro row hrow hid id
    rw [heq] at hrow
    rcases mem_update hrow with ⟨-, hinbox⟩ | ⟨hne, -⟩
    · rw [hinbox, hl]
      show id ∈ ids (List.map Value.int32 _) ↔ _
      rw [ids_int32, ids_int32, List.mem_append, List.mem_filter]
      by_cases hmem : id ∈ l <;> simp [hmem]
    · exact absurd hid hne

theorem inv_of_run {s₀ : InboxStore} (hfresh : s₀.Fresh) {calls : List InboxCall}
    (hmeets : Steps.Meets step RegularCall s₀ calls) (hrun : Steps.run step s₀ calls = some s) :
    s.Inv :=
  Steps.run_invariant_of_meets (fun _ _ _ h hgood hstep => h.call hgood hstep) hfresh.inv hmeets hrun

/-- **After regular calls, every inbox is a set, and the next call is right just if it is
regular.** -/
theorem updated_iff_of_run {s₀ : InboxStore} (hfresh : s₀.Fresh) {calls : List InboxCall}
    (hmeets : Steps.Meets step RegularCall s₀ calls) (hrun : Steps.run step s₀ calls = some s) :
    s.Distinct ∧
      ∀ contactId inbox, s.Updated contactId inbox ↔ s.Regular contactId inbox := by
  have hinv := inv_of_run hfresh hmeets hrun
  exact ⟨hinv.distinct, hinv.updated_iff⟩

/-- An update and a reset. -/
theorem updated_iff_two :
    (InboxStore.mk [⟨7, .array []⟩]).Distinct ∧
      ∀ contactId inbox, (InboxStore.mk [⟨7, .array []⟩]).Updated contactId inbox ↔
        (InboxStore.mk [⟨7, .array []⟩]).Regular contactId inbox :=
  @updated_iff_of_run _ ⟨[⟨7, .null⟩]⟩ (fun row hrow => by
      rw [List.mem_singleton.mp hrow]
      exact .inl rfl)
    [.update 7 [.int32 5, .int32 6], .reset 7]
    (.cons ⟨fun _ id _ => List.nodup_iff_count_le_one.mp (by decide) id, fun hno => absurd ⟨_, List.mem_singleton_self _, rfl⟩ hno⟩ rfl
      (.cons trivial rfl trivial)) rfl

/-- The same id twice. -/
theorem not_updated : ¬ (InboxStore.mk [⟨7, .null⟩]).Updated 7 [.int32 5, .int32 5] ∧
    ¬ (InboxStore.mk [⟨7, .null⟩]).Updated 9 [.int32 5] := by
  refine ⟨fun h => ?_, fun h => ?_⟩
  · have hdistinct := h.distinct _ (List.mem_singleton_self _)
    exact absurd hdistinct (by decide)
  · exact absurd h.returned (by decide)

end

/-! ## The record -/

/-- A stored inbox is read back as it was written. -/
theorem stored_roundTrip {s : InboxStore} (h : s.Inv) {row : InboxRow} (hrow : row ∈ s.contacts)
    (hnull : row.inbox ≠ .null) (hlen : (Ubj.Writer.collect row.inbox).length < 2 ^ 32)
    (env : Ubj.UbjrEnv) (val : Value) {fuel : Nat} (hf : Ubj.fuelOf row.inbox ≤ fuel) :
    Ubj.Reader.read env fuel val (Ubj.Writer.write row.inbox) = .ok (true, row.inbox) := by
  obtain ⟨l, harray⟩ := (h.plain row hrow).resolve_left hnull
  have hitems : ∀ l : List (BitVec 32), Ubj.RoundTripItems (l.map .int32) := by
    intro l
    induction l with
    | nil => exact .nil
    | cons i l ih => exact .cons (.int32 i) ih
  have hdepth : ∀ l : List (BitVec 32), Ubj.depthItems (l.map .int32) = 0 := by
    intro l
    induction l with
    | nil => rfl
    | cons i l ih =>
      show max 0 (Ubj.depthItems (l.map .int32)) = 0
      rw [ih]
      rfl
  have hv : Ubj.RoundTrip row.inbox := harray ▸ .array (hitems l)
  have hroot : row.inbox.isContainer = true := by rw [harray]; rfl
  have hdeep : Ubj.depth row.inbox ≤ 63 := by
    rw [harray, Ubj.depth, hdepth]
    decide
  obtain ⟨hwrite, hshort⟩ := Ubj.write_eq_encode hv hroot hdeep hlen
  have hread := Ubj.read_encode hv hroot hshort env val [] hf
  rw [List.append_nil] at hread
  rw [hwrite]
  exact hread

end InboxStore

end Zway.Client
