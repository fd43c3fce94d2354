import Mathlib.Order.Defs.Unbundled
import Mathlib.Data.List.Basic

/-!
# Ordered maps

`std::map` as an association list kept in strictly increasing key order. The list
is the traversal order of the map, so a loop over the map is a recursion over the
list, and inserting in increasing order is appending.
-/

namespace Zway.OrdMap

variable {κ α : Type} [LT κ] [DecidableLT κ]

/-- Bind `k` to `a`, replacing what was bound before. -/
def insert (k : κ) (a : α) : List (κ × α) → List (κ × α)
  | [] => [(k, a)]
  | (k', a') :: m =>
      if k < k' then (k, a) :: (k', a') :: m
      else if k' < k then (k', a') :: insert k a m
      else (k, a) :: m

/-- What `k` is bound to. -/
def find? [DecidableEq κ] : List (κ × α) → κ → Option α
  | [], _ => none
  | (k', a) :: m, k => if k' = k then some a else find? m k

/-- Unbind `k`. -/
def erase [DecidableEq κ] (k : κ) (m : List (κ × α)) : List (κ × α) := m.filter (fun p => p.1 ≠ k)

/-- Strictly increasing in key. -/
def Sorted (m : List (κ × α)) : Prop := m.Pairwise (fun a b => a.1 < b.1)

instance (m : List (κ × α)) : Decidable (Sorted m) :=
  inferInstanceAs (Decidable (m.Pairwise (fun a b => a.1 < b.1)))

omit [LT κ] [DecidableLT κ] in
/-- A binding at the end counts where there is none before. -/
theorem find?_append [DecidableEq κ] (m : List (κ × α)) (k k' : κ) (a : α) :
    find? (m ++ [(k', a)]) k = (find? m k).or (if k' = k then some a else none) := by
  induction m with
  | nil => rfl
  | cons p m ih =>
    rw [List.cons_append, find?, find?, ih]
    split
    · rfl
    · rfl

omit [LT κ] [DecidableLT κ] in
theorem find?_eq_none [DecidableEq κ] {m : List (κ × α)} {k : κ} (h : ∀ p ∈ m, p.1 ≠ k) :
    find? m k = none := by
  induction m with
  | nil => rfl
  | cons p m ih =>
    rw [find?, if_neg (h p (List.mem_cons_self ..))]
    exact ih (fun q hq => h q (List.mem_cons_of_mem _ hq))

omit [LT κ] [DecidableLT κ] in
theorem find?_erase_self [DecidableEq κ] (m : List (κ × α)) (k : κ) :
    find? (erase k m) k = none := by
  refine find?_eq_none (fun p hp => ?_)
  exact of_decide_eq_true (List.mem_filter.mp hp).2

omit [LT κ] [DecidableLT κ] in
theorem find?_erase_of_ne [DecidableEq κ] (m : List (κ × α)) {k j : κ} (h : j ≠ k) :
    find? (erase k m) j = find? m j := by
  induction m with
  | nil => rfl
  | cons p m ih =>
    by_cases hp : p.1 = k
    · have hne : p.1 ≠ j := fun hj => h (hj.symm.trans hp)
      rw [erase, List.filter_cons_of_neg (by simp [hp]), find?, if_neg hne]
      exact ih
    · rw [erase, List.filter_cons_of_pos (by simp [hp]), find?, find?]
      by_cases hj : p.1 = j
      · rw [if_pos hj, if_pos hj]
      · rw [if_neg hj, if_neg hj]
        exact ih

/-! ## Values -/

theorem map_insert {β : Type} (f : α → β) (k : κ) (a : α) (m : List (κ × α)) :
    (insert k a m).map (fun p => (p.1, f p.2)) = insert k (f a) (m.map fun p => (p.1, f p.2)) := by
  induction m with
  | nil => rfl
  | cons p m ih =>
    rw [List.map_cons, insert, insert]
    split
    · rw [List.map_cons, List.map_cons]
    · split
      · rw [List.map_cons, ih]
      · rw [List.map_cons]

omit [LT κ] [DecidableLT κ] in
theorem map_erase [DecidableEq κ] {β : Type} (f : α → β) (k : κ) (m : List (κ × α)) :
    (erase k m).map (fun p => (p.1, f p.2)) = erase k (m.map fun p => (p.1, f p.2)) := by
  unfold erase
  rw [List.filter_map]
  rfl

variable [IsStrictTotalOrder κ (· < ·)]

/-- A key above everything bound goes at the end. -/
theorem insert_of_lt {m : List (κ × α)} {k : κ} (a : α) (h : ∀ p ∈ m, p.1 < k) :
    insert k a m = m ++ [(k, a)] := by
  induction m with
  | nil => rfl
  | cons p m ih =>
    have hp : p.1 < k := h p (List.mem_cons_self ..)
    have hn : ¬ k < p.1 := fun hk => irrefl k (IsTrans.trans _ _ _ hk hp)
    rw [insert, if_neg hn, if_pos hp, ih (fun q hq => h q (List.mem_cons_of_mem _ hq))]
    rfl

theorem find?_insert_self [DecidableEq κ] (m : List (κ × α)) (k : κ) (a : α) :
    find? (insert k a m) k = some a := by
  induction m with
  | nil => simp [insert, find?]
  | cons p m ih =>
    rw [insert]
    split
    · simp [find?]
    · split
      · rename_i hlt
        have hne : p.1 ≠ k := fun he => irrefl k (he ▸ hlt)
        rw [find?, if_neg hne, ih]
      · simp [find?]

theorem find?_insert_of_ne [DecidableEq κ] (m : List (κ × α)) {k j : κ} (a : α) (h : j ≠ k) :
    find? (insert k a m) j = find? m j := by
  induction m with
  | nil =>
    show (if k = j then some a else none) = none
    rw [if_neg (Ne.symm h)]
  | cons p m ih =>
    rw [insert]
    split
    · rw [find?, if_neg (Ne.symm h)]
    · split
      · by_cases hj : p.1 = j
        · rw [find?, if_pos hj, find?, if_pos hj]
        · rw [find?, if_neg hj, find?, if_neg hj, ih]
      · -- neither below nor above: the key itself
        rename_i hnlt hngt
        have he : p.1 = k := by
          rcases trichotomous_of (· < ·) p.1 k with h1 | h1 | h1
          · exact absurd h1 hngt
          · exact h1
          · exact absurd h1 hnlt
        have hj : p.1 ≠ j := fun hj => h (hj.symm.trans he)
        rw [find?, if_neg (Ne.symm h), find?, if_neg hj]

/-! ## Maps that are sorted -/

omit [IsStrictTotalOrder κ (· < ·)] in
theorem mem_insert {m : List (κ × α)} {k : κ} {a : α} {p : κ × α} (h : p ∈ insert k a m) :
    p = (k, a) ∨ p ∈ m := by
  induction m with
  | nil => exact .inl (List.mem_singleton.mp h)
  | cons q m ih =>
    rw [insert] at h
    split at h
    · exact List.mem_cons.mp h
    · split at h
      · rcases List.mem_cons.mp h with rfl | h
        · exact .inr (List.mem_cons_self ..)
        · exact (ih h).imp id (List.mem_cons_of_mem _)
      · exact (List.mem_cons.mp h).imp id (List.mem_cons_of_mem _)

theorem Sorted.insert {m : List (κ × α)} (h : Sorted m) (k : κ) (a : α) :
    Sorted (insert k a m) := by
  induction m with
  | nil => exact List.pairwise_singleton ..
  | cons q m ih =>
    obtain ⟨hq, hm⟩ := List.pairwise_cons.mp h
    rw [OrdMap.insert]
    split
    · rename_i hlt
      refine List.pairwise_cons.mpr ⟨fun p hp => ?_, h⟩
      rcases List.mem_cons.mp hp with rfl | hp
      · exact hlt
      · exact IsTrans.trans _ _ _ hlt (hq p hp)
    · split
      · rename_i hlt
        refine List.pairwise_cons.mpr ⟨fun p hp => ?_, ih hm⟩
        rcases mem_insert hp with rfl | hp
        · exact hlt
        · exact hq p hp
      · rename_i hnlt hngt
        have he : q.1 = k := by
          rcases trichotomous_of (· < ·) q.1 k with h1 | h1 | h1
          · exact absurd h1 hngt
          · exact h1
          · exact absurd h1 hnlt
        exact List.pairwise_cons.mpr ⟨fun p hp => he ▸ hq p hp, hm⟩

omit [DecidableLT κ] [IsStrictTotalOrder κ (· < ·)] in
theorem Sorted.erase [DecidableEq κ] {m : List (κ × α)} (h : Sorted m) (k : κ) :
    Sorted (erase k m) := List.Pairwise.filter _ h

/-- What is in a list with different keys is found. -/
theorem find?_of_mem_of_nodup {κ α : Type} [DecidableEq κ] {m : List (κ × α)}
    (h : (m.map (·.1)).Nodup) {p : κ × α} (hp : p ∈ m) : find? m p.1 = some p.2 := by
  induction m with
  | nil => cases hp
  | cons q m ih =>
    obtain ⟨hq, hm⟩ := List.nodup_cons.mp h
    rw [find?]
    rcases List.mem_cons.mp hp with rfl | hp
    · exact if_pos rfl
    · have hne : q.1 ≠ p.1 := fun he => hq (List.mem_map.mpr ⟨p, hp, he.symm⟩)
      rw [if_neg hne]
      exact ih hm hp

/-- What is found among some of the pairs. -/
theorem find?_filter {κ α : Type} [DecidableEq κ] {m : List (κ × α)} (h : (m.map (·.1)).Nodup)
    (p : κ × α → Bool) (k : κ) : find? (m.filter p) k = (find? m k).filter (fun a => p (k, a)) := by
  induction m with
  | nil => rfl
  | cons q m ih =>
    obtain ⟨hq, hm⟩ := List.nodup_cons.mp h
    rw [List.filter_cons, find?]
    by_cases hk : q.1 = k
    · subst hk
      have hnone : find? (m.filter p) q.1 = none := by
        refine find?_eq_none (fun r hr hkey => hq ?_)
        exact List.mem_map.mpr ⟨r, List.mem_of_mem_filter hr, hkey⟩
      rw [if_pos rfl, Option.filter_some]
      split
      · rw [find?, if_pos rfl]
      · exact hnone
    · rw [if_neg hk, ← ih hm]
      split
      · rw [find?, if_neg hk]
      · rfl

omit [DecidableLT κ] in
/-- The keys of a map are different. -/
theorem Sorted.nodup {m : List (κ × α)} (h : Sorted m) : (m.map (·.1)).Nodup := by
  refine List.pairwise_map.mpr (h.imp (fun {a b} hlt he => ?_))
  rw [he] at hlt
  exact irrefl b.1 hlt

omit [DecidableLT κ] in
/-- What is in a map is found. -/
theorem find?_of_mem [DecidableEq κ] {m : List (κ × α)} (h : Sorted m) {p : κ × α} (hp : p ∈ m) :
    find? m p.1 = some p.2 := find?_of_mem_of_nodup h.nodup hp

/-- Where a new key goes. -/
theorem insert_split [DecidableEq κ] {m : List (κ × α)} (h : Sorted m) {k : κ}
    (hnew : ∀ p ∈ m, p.1 ≠ k) (a : α) :
    ∃ before behind, m = before ++ behind ∧ insert k a m = before ++ (k, a) :: behind ∧
      (∀ p ∈ before, p.1 < k) ∧ ∀ p ∈ behind, k < p.1 := by
  induction m with
  | nil => exact ⟨[], [], rfl, rfl, fun _ hp => absurd hp List.not_mem_nil,
      fun _ hp => absurd hp List.not_mem_nil⟩
  | cons q m ih =>
    obtain ⟨hq, hm⟩ := List.pairwise_cons.mp h
    rcases trichotomous_of (· < ·) q.1 k with hlt | he | hgt
    · obtain ⟨before, behind, hsplit, hinsert, hbefore, hbehind⟩ :=
        ih hm fun p hp => hnew p (List.mem_cons_of_mem _ hp)
      refine ⟨q :: before, behind, by rw [hsplit]; rfl, ?_, ?_, hbehind⟩
      · rw [OrdMap.insert, if_neg (fun hk => irrefl k (IsTrans.trans _ _ _ hk hlt)), if_pos hlt,
          hinsert]
        rfl
      · intro p hp
        rcases List.mem_cons.mp hp with rfl | hp
        · exact hlt
        · exact hbefore p hp
    · exact absurd he (hnew q (List.mem_cons_self ..))
    · refine ⟨[], q :: m, rfl, ?_, fun _ hp => absurd hp List.not_mem_nil, ?_⟩
      · rw [OrdMap.insert, if_pos hgt]
        rfl
      · intro p hp
        rcases List.mem_cons.mp hp with rfl | hp
        · exact hgt
        · exact IsTrans.trans _ _ _ hgt (hq p hp)

/-- What a new key adds. -/
theorem mem_insert_iff [DecidableEq κ] {m : List (κ × α)} (h : Sorted m) {k : κ}
    (hnew : ∀ p ∈ m, p.1 ≠ k) (a : α) {p : κ × α} : p ∈ insert k a m ↔ p = (k, a) ∨ p ∈ m := by
  obtain ⟨before, behind, rfl, hinsert, _, _⟩ := insert_split h hnew a
  rw [hinsert, List.mem_append, List.mem_cons, List.mem_append]
  exact or_left_comm

omit [LT κ] [DecidableLT κ] [IsStrictTotalOrder κ (· < ·)] in
theorem mem_of_find? [DecidableEq κ] {m : List (κ × α)} {k : κ} {a : α} (h : find? m k = some a) :
    (k, a) ∈ m := by
  induction m with
  | nil => cases h
  | cons q m ih =>
    rw [find?] at h
    split at h
    · rename_i he
      obtain rfl := Option.some.inj h
      exact he ▸ List.mem_cons_self ..
    · exact List.mem_cons_of_mem _ (ih h)

omit [LT κ] [DecidableLT κ] [IsStrictTotalOrder κ (· < ·)] in
theorem ne_of_find?_none [DecidableEq κ] {m : List (κ × α)} {k : κ} (h : find? m k = none) :
    ∀ p ∈ m, p.1 ≠ k := by
  induction m with
  | nil => exact fun _ hp => absurd hp List.not_mem_nil
  | cons q m ih =>
    rw [find?] at h
    split at h
    · cases h
    · rename_i hne
      intro p hp
      rcases List.mem_cons.mp hp with rfl | hp
      · exact hne
      · exact ih h p hp

end Zway.OrdMap
