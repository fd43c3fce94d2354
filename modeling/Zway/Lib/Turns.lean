import Mathlib.Data.Finset.Card
import Mathlib.Data.List.Dedup
import Mathlib.Order.Interval.Finset.Nat

/-!
# Taking turns

Items have a number of turns to go. In a round they have their turns one after another,
but the item that has its last turn leaves, and the round is over with it: those behind it
have to wait for the next round.

So at most one item leaves in a round, and an item has a turn in each round in which none
of those in front of it leaves. That determines a timetable: `due i` is the round in which
item `i` leaves. What is added later goes behind and changes nothing (`Timed.extend`).
-/

namespace Zway.Turns

variable {ι : Type}

/-- A round, over the items with the turns they have to go. -/
def round : List (ι × Nat) → List (ι × Nat)
  | [] => []
  | (i, c) :: xs => if c ≤ 1 then xs else (i, c - 1) :: round xs

/-! ## Rounds that are free -/

/-- The rounds after `t`, up to `d`, that are not in `taken`. -/
def free (taken : Finset Nat) (t d : Nat) : Nat := ((Finset.Ioc t d).filter (· ∉ taken)).card

variable {taken : Finset Nat} {t d : Nat}

theorem free_add {s : Nat} (hts : t ≤ s) (hsd : s ≤ d) :
    free taken t d = free taken t s + free taken s d := by
  unfold free
  rw [← Finset.Ioc_union_Ioc_eq_Ioc hts hsd, Finset.filter_union]
  refine Finset.card_union_of_disjoint ?_
  refine Finset.disjoint_filter_filter (Finset.disjoint_left.mpr ?_)
  intro e he he'
  have hle := (Finset.mem_Ioc.mp he).2
  have hlt := (Finset.mem_Ioc.mp he').1
  omega

/-- Only what is taken in between counts. -/
theorem free_congr {taken' : Finset Nat} (h : ∀ e, t < e → e ≤ d → (e ∈ taken ↔ e ∈ taken')) :
    free taken t d = free taken' t d := by
  unfold free
  refine congrArg Finset.card (Finset.filter_congr ?_)
  intro e he
  obtain ⟨hlt, hle⟩ := Finset.mem_Ioc.mp he
  exact not_congr (h e hlt hle)

theorem Ioc_succ (t : Nat) : Finset.Ioc t (t + 1) = {t + 1} := by
  ext e
  rw [Finset.mem_Ioc, Finset.mem_singleton]
  omega

theorem free_succ_of_mem (h : t + 1 ∈ taken) : free taken t (t + 1) = 0 := by
  unfold free
  rw [Ioc_succ, Finset.filter_singleton, if_neg (not_not_intro h)]
  rfl

theorem free_succ_of_notMem (h : t + 1 ∉ taken) : free taken t (t + 1) = 1 := by
  unfold free
  rw [Ioc_succ, Finset.filter_singleton, if_pos h]
  rfl

theorem free_pos (hlt : t < d) (hfree : d ∉ taken) : 0 < free taken t d := by
  refine Finset.card_pos.mpr ⟨d, Finset.mem_filter.mpr ⟨?_, hfree⟩⟩
  exact Finset.mem_Ioc.mpr ⟨hlt, Nat.le_refl d⟩

/-- There is a next round that is free, -/
theorem exists_next (taken : Finset Nat) (t : Nat) :
    ∃ d, t < d ∧ d ∉ taken ∧ free taken t d = 1 := by
  have hsome : ∃ d, t < d ∧ d ∉ taken := by
    refine ⟨t + taken.sup id + 1, by omega, fun hmem => ?_⟩
    have hle : t + taken.sup id + 1 ≤ taken.sup id := Finset.le_sup (f := id) hmem
    omega
  obtain ⟨hlt, hfree⟩ := Nat.find_spec hsome
  refine ⟨Nat.find hsome, hlt, hfree, ?_⟩
  have hsingle : (Finset.Ioc t (Nat.find hsome)).filter (· ∉ taken) = {Nat.find hsome} := by
    ext e
    rw [Finset.mem_filter, Finset.mem_Ioc, Finset.mem_singleton]
    constructor
    · rintro ⟨⟨hte, hle⟩, hnot⟩
      exact Nat.le_antisymm hle (Nat.find_min' hsome ⟨hte, hnot⟩)
    · rintro rfl
      exact ⟨⟨hlt, Nat.le_refl _⟩, hfree⟩
  unfold free
  rw [hsingle]
  rfl

/-- and one after any number of them. -/
theorem exists_free (taken : Finset Nat) (t : Nat) : ∀ c, 0 < c →
    ∃ d, t < d ∧ d ∉ taken ∧ free taken t d = c
  | 1, _ => exists_next taken t
  | c + 2, _ => by
      obtain ⟨s, hts, -, hcount⟩ := exists_free taken t (c + 1) (Nat.succ_pos c)
      obtain ⟨d, hsd, hfree, hnext⟩ := exists_next taken s
      refine ⟨d, hts.trans hsd, hfree, ?_⟩
      rw [free_add hts.le hsd.le, hcount, hnext]

/-- How many rounds are free if those that are taken are listed. -/
theorem free_toFinset {ds : List Nat} (hnodup : ds.Nodup) (hlt : ∀ e ∈ ds, t < e) (d : Nat) :
    free ds.toFinset t d + (ds.filter (· ≤ d)).length = d - t := by
  have htaken : (Finset.Ioc t d).filter (· ∈ ds.toFinset) = (ds.filter (· ≤ d)).toFinset := by
    ext e
    rw [Finset.mem_filter, Finset.mem_Ioc, List.mem_toFinset, List.mem_toFinset, List.mem_filter,
      decide_eq_true_eq]
    constructor
    · rintro ⟨⟨-, hle⟩, hmem⟩
      exact ⟨hmem, hle⟩
    · rintro ⟨hmem, hle⟩
      exact ⟨⟨hlt e hmem, hle⟩, hmem⟩
  have hcard := Finset.card_filter_add_card_filter_not (s := Finset.Ioc t d) (· ∈ ds.toFinset)
  rw [htaken, List.toFinset_card_of_nodup (hnodup.filter _), Nat.card_Ioc] at hcard
  unfold free
  omega

/-! ## Timetables -/

/-- At time `t` the turns that the items have to go agree with the rounds they are due to leave in:
an item has its turns in the rounds in which none in front of it leaves. In the rounds of `taken`
the round does not get to the list at all. -/
def Timed (due : ι → Nat) (t : Nat) : Finset Nat → List (ι × Nat) → Prop
  | _, [] => True
  | taken, (i, c) :: xs =>
      t < due i ∧ due i ∉ taken ∧ c = free taken t (due i) ∧ Timed due t (insert (due i) taken) xs

variable {due : ι → Nat}

/-- What lies in the past does not matter, -/
theorem Timed.congr_taken : ∀ {xs : List (ι × Nat)} {taken taken' : Finset Nat},
    (∀ e, t < e → (e ∈ taken ↔ e ∈ taken')) → Timed due t taken xs → Timed due t taken' xs
  | [], _, _, _, _ => trivial
  | (i, c) :: xs, taken, taken', hsame, ⟨hlt, hfree, hcount, hrest⟩ => by
      refine ⟨hlt, fun hmem => hfree ((hsame _ hlt).mpr hmem), ?_, ?_⟩
      · rw [hcount]
        exact free_congr fun e hte _ => hsame e hte
      · refine hrest.congr_taken fun e hte => ?_
        rw [Finset.mem_insert, Finset.mem_insert, hsame e hte]

/-- nor what the timetable says about others. -/
theorem Timed.congr {due' : ι → Nat} : ∀ {xs : List (ι × Nat)} {taken : Finset Nat},
    (∀ p ∈ xs, due' p.1 = due p.1) → Timed due t taken xs → Timed due' t taken xs
  | [], _, _, _ => trivial
  | (i, c) :: xs, taken, hsame, ⟨hlt, hfree, hcount, hrest⟩ => by
      have hdue : due' i = due i := hsame (i, c) (List.mem_cons_self ..)
      unfold Timed
      rw [hdue]
      exact ⟨hlt, hfree, hcount, hrest.congr fun p hp => hsame p (List.mem_cons_of_mem _ hp)⟩

theorem Timed.lt : ∀ {xs : List (ι × Nat)} {taken : Finset Nat}, Timed due t taken xs →
    ∀ i ∈ xs.map (·.1), t < due i
  | (i, c) :: xs, taken, ⟨hlt, _, _, hrest⟩, j, hj => by
      rcases List.mem_cons.mp hj with rfl | hj
      · exact hlt
      · exact hrest.lt j hj

/-- **A round that does not get to the list** leaves it as it is. -/
theorem Timed.wait : ∀ {xs : List (ι × Nat)} {taken : Finset Nat}, t + 1 ∈ taken →
    Timed due t taken xs → Timed due (t + 1) taken xs
  | [], _, _, _ => trivial
  | (i, c) :: xs, taken, hmem, ⟨hlt, hfree, hcount, hrest⟩ => by
      have hne : due i ≠ t + 1 := fun he => hfree (he ▸ hmem)
      have hle : t + 1 ≤ due i := hlt
      refine ⟨Nat.lt_of_le_of_ne hle hne.symm, hfree, ?_, hrest.wait (Finset.mem_insert_of_mem hmem)⟩
      rw [hcount, free_add (Nat.le_add_right t 1) hle, free_succ_of_mem hmem, Nat.zero_add]

/-- The item that is due next has one turn to go, and those behind it are not concerned. -/
theorem Timed.last {i : ι} {c : Nat} {xs : List (ι × Nat)} (hnext : t + 1 ∉ taken)
    (h : Timed due t taken ((i, c) :: xs)) (hdue : due i = t + 1) :
    c = 1 ∧ Timed due (t + 1) taken xs := by
  obtain ⟨-, -, hcount, hrest⟩ := h
  rw [hdue] at hcount hrest
  refine ⟨hcount.trans (free_succ_of_notMem hnext), ?_⟩
  refine (hrest.wait (Finset.mem_insert_self ..)).congr_taken fun e he => ?_
  have hne : e ≠ t + 1 := Nat.ne_of_gt he
  rw [Finset.mem_insert]
  exact ⟨fun hmem => hmem.resolve_left hne, Or.inr⟩

/-- Any other has a turn, which is not its last one. -/
theorem Timed.turn {i : ι} {c : Nat} {xs : List (ι × Nat)} (hnext : t + 1 ∉ taken)
    (h : Timed due t taken ((i, c) :: xs)) (hdue : due i ≠ t + 1) :
    t + 1 < due i ∧ 2 ≤ c ∧ c - 1 = free taken (t + 1) (due i) ∧
      t + 1 ∉ insert (due i) taken := by
  obtain ⟨hlt, hfree, hcount, -⟩ := h
  have hle : t + 1 ≤ due i := hlt
  have hlt' : t + 1 < due i := Nat.lt_of_le_of_ne hle hdue.symm
  rw [free_add (Nat.le_add_right t 1) hle, free_succ_of_notMem hnext] at hcount
  have hpos := free_pos hlt' hfree
  refine ⟨hlt', by omega, by omega, fun hmem => ?_⟩
  rcases Finset.mem_insert.mp hmem with he | he
  · exact hdue he.symm
  · exact hnext he

/-- **A round keeps to the timetable.** -/
theorem Timed.round : ∀ {xs : List (ι × Nat)} {taken : Finset Nat}, t + 1 ∉ taken →
    Timed due t taken xs → Timed due (t + 1) taken (round xs)
  | [], _, _, _ => trivial
  | (i, c) :: xs, taken, hnext, h => by
      rw [Turns.round]
      by_cases hdue : due i = t + 1
      · obtain ⟨rfl, hrest⟩ := h.last hnext hdue
        rw [if_pos (Nat.le_refl 1)]
        exact hrest
      · obtain ⟨hlt, hmany, hcount, hnext'⟩ := h.turn hnext hdue
        rw [if_neg (by omega)]
        exact ⟨hlt, h.2.1, hcount, h.2.2.2.round hnext'⟩

/-- **Who is left after a round**: all but the one that was due. -/
theorem Timed.round_items : ∀ {xs : List (ι × Nat)} {taken : Finset Nat}, t + 1 ∉ taken →
    Timed due t taken xs →
    (Turns.round xs).map (·.1) = (xs.map (·.1)).filter fun i => t + 1 < due i
  | [], _, _, _ => rfl
  | (i, c) :: xs, taken, hnext, h => by
      rw [Turns.round, List.map_cons]
      by_cases hdue : due i = t + 1
      · obtain ⟨rfl, hrest⟩ := h.last hnext hdue
        have hall : (xs.map (·.1)).filter (fun i => t + 1 < due i) = xs.map (·.1) :=
          List.filter_eq_self.mpr fun j hj => decide_eq_true (hrest.lt j hj)
        rw [if_pos (Nat.le_refl 1), List.filter_cons_of_neg (by simp [hdue]), hall]
      · obtain ⟨hlt, hmany, -, hnext'⟩ := h.turn hnext hdue
        rw [if_neg (by omega), List.filter_cons_of_pos (by simp [hlt]), List.map_cons,
          h.2.2.2.round_items hnext']

/-! ## What a timetable says -/

/-- Different items leave in different rounds. -/
theorem Timed.nodup : ∀ {xs : List (ι × Nat)} {taken : Finset Nat}, Timed due t taken xs →
    (xs.map fun p => due p.1).Nodup ∧ ∀ p ∈ xs, due p.1 ∉ taken
  | [], _, _ => ⟨List.nodup_nil, fun _ hp => absurd hp List.not_mem_nil⟩
  | (i, c) :: xs, taken, ⟨_, hfree, _, hrest⟩ => by
      obtain ⟨hnodup, hnot⟩ := hrest.nodup
      refine ⟨List.nodup_cons.mpr ⟨fun hmem => ?_, hnodup⟩, fun p hp => ?_⟩
      · obtain ⟨p, hp, he⟩ := List.mem_map.mp hmem
        exact hnot p hp (he ▸ Finset.mem_insert_self ..)
      · rcases List.mem_cons.mp hp with rfl | hp
        · exact hfree
        · exact fun hmem => hnot p hp (Finset.mem_insert_of_mem hmem)

/-- The turns an item has to go are the free rounds up to the one in which it leaves. -/
theorem Timed.count : ∀ {before behind : List (ι × Nat)} {taken : Finset Nat} {i : ι} {c : Nat},
    Timed due t taken (before ++ (i, c) :: behind) →
    c = free (taken ∪ (before.map fun p => due p.1).toFinset) t (due i)
  | [], _, taken, i, c, ⟨_, _, hcount, _⟩ => by
      rw [List.map_nil, List.toFinset_nil, Finset.union_empty]
      exact hcount
  | (j, b) :: before, _, taken, i, c, ⟨_, _, _, hrest⟩ => by
      rw [hrest.count, List.map_cons, List.toFinset_cons, Finset.insert_union, Finset.union_insert]

/-- The timetable of those in front. -/
theorem Timed.before : ∀ {before behind : List (ι × Nat)} {taken : Finset Nat},
    Timed due t taken (before ++ behind) → Timed due t taken before
  | [], _, _, _ => trivial
  | _ :: _, _, _, ⟨hlt, hfree, hcount, hrest⟩ => ⟨hlt, hfree, hcount, hrest.before⟩

/-- Of the first rounds, each is free, or an item leaves in it. -/
theorem Timed.free_add_left {xs : List (ι × Nat)} (h : Timed due 0 taken xs) (d : Nat) :
    free (xs.map fun p => due p.1).toFinset 0 d + ((xs.map fun p => due p.1).filter (· ≤ d)).length
      = d := by
  refine free_toFinset h.nodup.1 (fun e he => ?_) d
  obtain ⟨p, hp, rfl⟩ := List.mem_map.mp he
  exact h.lt p.1 (List.mem_map_of_mem hp)

/-- **When an item leaves**: after the turns it has to go, and one round for each of those in front
of it that leave earlier. -/
theorem Timed.due_eq {before behind : List (ι × Nat)} {i : ι} {c : Nat}
    (h : Timed due 0 ∅ (before ++ (i, c) :: behind)) :
    due i = c + ((before.map (·.1)).filter fun j => due j < due i).length := by
  have hcount := h.count
  have hfree := h.before.free_add_left (due i)
  rw [Finset.empty_union] at hcount
  rw [← hcount] at hfree
  have hsame : ((before.map fun p => due p.1).filter (· ≤ due i)).length
      = ((before.map (·.1)).filter fun j => due j < due i).length := by
    have hne : ∀ j ∈ before.map (·.1), due j ≠ due i := by
      intro j hj he
      obtain ⟨p, hp, rfl⟩ := List.mem_map.mp hj
      have hnodup := h.nodup.1
      rw [List.map_append, List.map_cons, List.nodup_append] at hnodup
      exact hnodup.2.2 _ (List.mem_map_of_mem (f := fun p => due p.1) hp) _ (List.mem_cons_self ..) he
    have hmap : before.map (fun p => due p.1) = (before.map (·.1)).map due := by
      rw [List.map_map]
      rfl
    rw [hmap, List.filter_map, List.length_map]
    refine congrArg List.length (List.filter_congr fun j hj => ?_)
    have hj' := hne j hj
    simp only [Function.comp_apply, decide_eq_decide]
    omega
  omega

/-- **How far an item has got** after `n` rounds: it had a turn in each of them, but for those in
which one in front of it left. -/
theorem Timed.progress {due' : ι → Nat} {before behind before' behind' : List (ι × Nat)} {i : ι}
    {c c' n : Nat} (h : Timed due 0 ∅ (before ++ (i, c) :: behind))
    (h' : Timed due' n ∅ (before' ++ (i, c') :: behind'))
    (hbefore : before'.map (·.1) = (before.map (·.1)).filter fun j => n < due j)
    (hsame : ∀ j ∈ i :: before.map (·.1), due' j = due j) :
    c = c' + (n - ((before.map (·.1)).filter fun j => due j ≤ n).length) := by
  have hi : due' i = due i := hsame i (List.mem_cons_self ..)
  have hlt : n < due i := by
    rw [← hi]
    exact h'.lt i (List.mem_map.mpr ⟨_, List.mem_append_right _ (List.mem_cons_self ..), rfl⟩)
  have hcount := h.count
  have hcount' := h'.count
  have hfree := h.before.free_add_left n
  have hmap : ∀ (due : ι → Nat) (xs : List (ι × Nat)),
      xs.map (fun p => due p.1) = (xs.map (·.1)).map due := fun due xs => (List.map_map ..).symm
  rw [Finset.empty_union, hmap] at hcount hcount'
  rw [hmap, List.filter_map, List.length_map] at hfree
  -- of those in front only the ones that are left count from now on
  have hlater : free ((before'.map (·.1)).map due').toFinset n (due i)
      = free ((before.map (·.1)).map due).toFinset n (due i) := by
    refine free_congr fun e hne _ => ?_
    rw [List.mem_toFinset, List.mem_toFinset, hbefore, List.mem_map, List.mem_map]
    constructor
    · rintro ⟨j, hj, rfl⟩
      have hmem := (List.mem_filter.mp hj).1
      exact ⟨j, hmem, (hsame j (List.mem_cons_of_mem _ hmem)).symm⟩
    · rintro ⟨j, hj, rfl⟩
      exact ⟨j, List.mem_filter.mpr ⟨hj, decide_eq_true hne⟩, hsame j (List.mem_cons_of_mem _ hj)⟩
  rw [hi, hlater] at hcount'
  rw [free_add (Nat.zero_le n) hlt.le, ← hcount'] at hcount
  change free _ 0 n + ((before.map (·.1)).filter fun j => due j ≤ n).length = n at hfree
  omega

/-! ## Timetables for those that are added -/

/-- There is a timetable for what is behind. -/
theorem exists_timed [DecidableEq ι] (t : Nat) : ∀ {xs : List (ι × Nat)} (taken : Finset Nat),
    (xs.map (·.1)).Nodup → (∀ p ∈ xs, 0 < p.2) → ∃ due : ι → Nat, Timed due t taken xs
  | [], _, _, _ => ⟨fun _ => 0, trivial⟩
  | (i, c) :: xs, taken, hnodup, hpos => by
      obtain ⟨hnew, hnodup⟩ := List.nodup_cons.mp hnodup
      obtain ⟨d, hlt, hfree, hcount⟩ := exists_free taken t c (hpos (i, c) (List.mem_cons_self ..))
      obtain ⟨due, hrest⟩ := exists_timed t (insert d taken) hnodup
        fun p hp => hpos p (List.mem_cons_of_mem _ hp)
      refine ⟨Function.update due i d, ?_⟩
      unfold Timed
      rw [Function.update_self]
      refine ⟨hlt, hfree, hcount.symm, hrest.congr fun p hp => Function.update_of_ne ?_ _ _⟩
      rintro rfl
      exact hnew (List.mem_map.mpr ⟨p, hp, rfl⟩)

/-- **What is added behind** does not change the timetable of the others. -/
theorem Timed.extend [DecidableEq ι] {ys : List (ι × Nat)} : ∀ {xs : List (ι × Nat)}
    {taken : Finset Nat}, Timed due t taken xs → ((xs ++ ys).map (·.1)).Nodup →
    (∀ p ∈ ys, 0 < p.2) →
    ∃ due' : ι → Nat, (∀ i, i ∉ ys.map (·.1) → due' i = due i) ∧ Timed due' t taken (xs ++ ys)
  | xs, taken, h, hnodup, hpos => by
      have hbehind : ∀ {xs : List (ι × Nat)} {taken : Finset Nat}, Timed due t taken xs →
          ∃ taken', ∀ {due' : ι → Nat}, (∀ p ∈ xs, due' p.1 = due p.1) →
            Timed due' t taken' ys → Timed due' t taken (xs ++ ys) := by
        intro xs
        induction xs with
        | nil => exact fun {taken} _ => ⟨taken, fun _ hys => hys⟩
        | cons p xs ih =>
          rintro taken ⟨hlt, hfree, hcount, hrest⟩
          obtain ⟨taken', htaken⟩ := ih hrest
          refine ⟨taken', fun {due'} hsame hys => ?_⟩
          have hp : due' p.1 = due p.1 := hsame p (List.mem_cons_self ..)
          have hxs := htaken (fun q hq => hsame q (List.mem_cons_of_mem _ hq)) hys
          rw [← hp] at hlt hfree hcount hxs
          exact ⟨hlt, hfree, hcount, hxs⟩
      obtain ⟨taken', htaken⟩ := hbehind h
      rw [List.map_append, List.nodup_append] at hnodup
      obtain ⟨-, hys, hapart⟩ := hnodup
      obtain ⟨later, hlater⟩ := exists_timed t taken' hys hpos
      refine ⟨fun i => if i ∈ ys.map (·.1) then later i else due i, fun i hi => if_neg hi, ?_⟩
      refine htaken (fun p hp => if_neg fun hmem => ?_) (hlater.congr fun p hp => ?_)
      · exact hapart _ (List.mem_map_of_mem hp) _ hmem rfl
      · exact if_pos (List.mem_map_of_mem hp)

end Zway.Turns
