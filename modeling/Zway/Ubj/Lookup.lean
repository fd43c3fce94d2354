import Zway.Ubj.Reader

/-!
# Looking fields up

`ubjr_object_lookup` sorts the fields by key once and searches them. A key that occurs once
is found wherever its field was; of a key that occurs twice the search finds one of the two,
and which one depends on the positions the search meets.
-/

namespace Zway.Ubj

theorem strcmp_self (a : Bytes) : strcmp a a = .eq := by
  unfold strcmp
  rw [if_neg (irrefl a), if_neg (irrefl a)]

theorem strcmp_lt {a b : Bytes} (h : a < b) : strcmp a b = .lt := by
  unfold strcmp
  rw [if_pos h]

theorem strcmp_gt {a b : Bytes} (h : b < a) : strcmp a b = .gt := by
  unfold strcmp
  rw [if_neg (asymm h), if_pos h]

theorem buildSortedKeys_of_le {α : Type} {m : List (Bytes × α)}
    (h : m.Pairwise (fun a b => a.1 ≤ b.1)) :
    privUbjrObjectBuildSortedKeys (m.map Prod.fst) (m.map Prod.snd) = m := by
  unfold privUbjrObjectBuildSortedKeys
  have hzip : (m.map Prod.fst).zip (m.map Prod.snd) = m := (List.zip_of_prod rfl rfl).symm
  rw [hzip]
  exact List.Pairwise.insertionSort_eq h

/-- The comparison of `ubjr_object_lookup` with the field at `j`. -/
def fieldOrder {α : Type} (m : List (Bytes × α)) (key : Bytes) (j : Nat) : Ordering :=
  match m[j]? with
  | some p => strcmp key p.1
  | none => .lt

theorem lookup_eq {α : Type} {m : List (Bytes × α)} (h : m.Pairwise (fun a b => a.1 ≤ b.1))
    (key : Bytes) : ubjrObjectLookup (m.map Prod.fst) (m.map Prod.snd) key
      = (bsearch (fieldOrder m key) m.length).bind fun i => m[i]?.map Prod.snd := by
  unfold ubjrObjectLookup
  rw [buildSortedKeys_of_le h]
  dsimp only
  split
  · rename_i i hi
    exact (congrArg (fun o => Option.bind o fun i => m[i]?.map Prod.snd) hi).symm
  · rename_i hi
    exact (congrArg (fun o => Option.bind o fun i => m[i]?.map Prod.snd) hi).symm

theorem lt_of_le_ne {a b : Bytes} (hle : a ≤ b) (hne : a ≠ b) : a < b := by
  rcases @trichotomous_of Bytes (· < ·) _ a b with hlt | he | hgt
  · exact hlt
  · exact absurd he hne
  · exact absurd hgt hle

/-- How a key compares with those of sorted fields: it is that of the fields from `a` up to `b`. -/
theorem fieldOrder_block {α : Type} {m : List (Bytes × α)} (h : m.Pairwise (fun a b => a.1 ≤ b.1))
    {key : Bytes} {a b : Nat} (hab : a < b) (hb : b ≤ m.length)
    (heq : ∀ j (hj : j < m.length), a ≤ j ∧ j < b ↔ m[j].1 = key) (j : Nat) :
    fieldOrder m key j = if j < a then Ordering.gt else if j < b then .eq else .lt := by
  have hle : ∀ i j (hi : i < m.length) (hj : j < m.length), i ≤ j → m[i].1 ≤ m[j].1 := by
    intro i j hi hj hij
    rcases Nat.lt_or_eq_of_le hij with hlt | rfl
    · exact List.pairwise_iff_getElem.mp h i j hi hj hlt
    · exact List.le_refl _
  have hkey : m[a].1 = key := (heq a (by omega)).mp ⟨Nat.le_refl _, hab⟩
  unfold fieldOrder
  by_cases hj : j < m.length
  · rw [List.getElem?_eq_getElem hj]
    dsimp only
    by_cases hlow : j < a
    · rw [if_pos hlow]
      refine strcmp_gt (lt_of_le_ne (hkey ▸ hle j a hj (by omega) (by omega)) ?_)
      intro he
      exact absurd ((heq j hj).mpr he).1 (by omega)
    · rw [if_neg hlow]
      by_cases hhigh : j < b
      · rw [if_pos hhigh, (heq j hj).mp ⟨by omega, hhigh⟩]
        exact strcmp_self key
      · rw [if_neg hhigh]
        refine strcmp_lt (lt_of_le_ne (hkey ▸ hle a j (by omega) hj (by omega)) ?_)
        intro he
        exact absurd ((heq j hj).mpr he.symm).2 hhigh
  · rw [List.getElem?_eq_none (by omega), if_neg (by omega), if_neg (by omega)]

/-- The comparisons of a search for what stands at `i` and once more behind it. -/
def twinOrder (i j : Nat) : Ordering := if j < i then .gt else if j < i + 2 then .eq else .lt

/-- Only fields of the key compare equal with it. -/
theorem getElem_key {α : Type} {before mid behind : List (Bytes × α)} {key : Bytes}
    (hbefore : ∀ p ∈ before, p.1 ≠ key) (hmid : ∀ p ∈ mid, p.1 = key)
    (hbehind : ∀ p ∈ behind, p.1 ≠ key) (j : Nat) (hj : j < (before ++ (mid ++ behind)).length) :
    before.length ≤ j ∧ j < before.length + mid.length
      ↔ ((before ++ (mid ++ behind))[j]).1 = key := by
  rw [List.getElem_append]
  split
  · rename_i hlow
    exact ⟨fun h => by omega, fun h => absurd h (hbefore _ (List.getElem_mem hlow))⟩
  · rw [List.getElem_append]
    split
    · rename_i hmiddle
      exact ⟨fun _ => hmid _ (List.getElem_mem hmiddle), fun _ => by omega⟩
    · rename_i hhigh
      rw [List.length_append, List.length_append] at hj
      exact ⟨fun h => by omega,
        fun h => absurd h (hbehind _ (List.getElem_mem (by omega)))⟩

/-- A key that occurs once is found. -/
theorem lookup_unique {α : Type} {before behind : List (Bytes × α)} {key : Bytes} {a : α}
    (h : (before ++ (key, a) :: behind).Pairwise (fun a b => a.1 ≤ b.1))
    (hbefore : ∀ p ∈ before, p.1 ≠ key) (hbehind : ∀ p ∈ behind, p.1 ≠ key) :
    ubjrObjectLookup ((before ++ (key, a) :: behind).map Prod.fst)
      ((before ++ (key, a) :: behind).map Prod.snd) key = some a := by
  have hlen : before.length < (before ++ (key, a) :: behind).length := by simp
  have hcmp := fieldOrder_block h (Nat.lt_succ_self before.length) hlen
    (@getElem_key _ before [(key, a)] behind key hbefore (by simp) hbehind)
  rw [lookup_eq h, funext hcmp, bsearch_found hlen]
  · rw [Option.bind_some, List.getElem?_append_right (Nat.le_refl _), Nat.sub_self]
    rfl
  · intro j hj
    rw [if_pos hj]
  · rw [if_neg (by omega), if_pos (by omega)]
  · intro j hj
    rw [if_neg (by omega), if_neg (by omega)]

/-- In a list with different keys a field is found, in whatever order the fields are. -/
theorem ubjrObjectLookup_eq {α : Type} {m : List (Bytes × α)} (h : (m.map Prod.fst).Nodup)
    {key : Bytes} {a : α} (hm : (key, a) ∈ m) :
    ubjrObjectLookup (m.map Prod.fst) (m.map Prod.snd) key = some a := by
  obtain ⟨s, hs⟩ : ∃ s, m.insertionSort (fun a b => a.1 ≤ b.1) = s := ⟨_, rfl⟩
  have hzip : (m.map Prod.fst).zip (m.map Prod.snd) = m := (List.zip_of_prod rfl rfl).symm
  have hperm : s.Perm m := hs ▸ List.perm_insertionSort _ m
  have hle : s.Pairwise (fun a b => a.1 ≤ b.1) := by
    have : Std.Total fun a b : Bytes × α => a.1 ≤ b.1 := ⟨fun a b => List.le_total a.1 b.1⟩
    have : IsTrans (Bytes × α) fun a b => a.1 ≤ b.1 := ⟨fun _ _ _ => List.le_trans⟩
    exact hs ▸ List.pairwise_insertionSort _ m
  have hsort : ubjrObjectLookup (m.map Prod.fst) (m.map Prod.snd) key
      = ubjrObjectLookup (s.map Prod.fst) (s.map Prod.snd) key := by
    unfold ubjrObjectLookup
    rw [buildSortedKeys_of_le hle]
    unfold privUbjrObjectBuildSortedKeys
    rw [hzip, hs]
  obtain ⟨before, behind, hsplit⟩ := List.append_of_mem (hperm.mem_iff.mpr hm)
  have hnodup : (s.map Prod.fst).Nodup := (hperm.map Prod.fst).nodup_iff.mpr h
  rw [hsplit, List.map_append, List.map_cons] at hnodup
  obtain ⟨-, hright, hacross⟩ := List.nodup_append.mp hnodup
  rw [hsort, hsplit]
  rw [hsplit] at hle
  refine lookup_unique hle (fun p hp => ?_) (fun p hp he => ?_)
  · exact hacross p.1 (List.mem_map_of_mem hp) key (List.mem_cons_self ..)
  · have hmem : p.1 ∈ behind.map Prod.fst := List.mem_map_of_mem hp
    rw [he] at hmem
    exact (List.nodup_cons.mp hright).1 hmem

/-- Of a key that occurs twice the search finds one. -/
theorem lookup_twins {α : Type} {before behind : List (Bytes × α)} {key : Bytes} {a b : α}
    (h : (before ++ (key, a) :: (key, b) :: behind).Pairwise (fun a b => a.1 ≤ b.1))
    (hbefore : ∀ p ∈ before, p.1 ≠ key) (hbehind : ∀ p ∈ behind, p.1 ≠ key) :
    ubjrObjectLookup ((before ++ (key, a) :: (key, b) :: behind).map Prod.fst)
        ((before ++ (key, a) :: (key, b) :: behind).map Prod.snd) key
      = if bsearch (twinOrder before.length) (before.length + behind.length + 2)
          = some before.length then some a else some b := by
  have hlength : (before ++ (key, a) :: (key, b) :: behind).length
      = before.length + behind.length + 2 := by
    rw [List.length_append, List.length_cons, List.length_cons]
    omega
  have horder : fieldOrder (before ++ (key, a) :: (key, b) :: behind) key
      = twinOrder before.length :=
    funext (fieldOrder_block h (b := before.length + 2) (by omega) (by rw [hlength]; omega)
      (@getElem_key _ before [(key, a), (key, b)] behind key hbefore (by simp) hbehind))
  obtain ⟨j, hl, hu, hj⟩ := @bsearch_block (twinOrder before.length) before.length
    (before.length + 2) (before.length + behind.length + 2)
    (fun j hj => if_pos hj)
    (fun j hl hu => by rw [twinOrder, if_neg (by omega), if_pos hu])
    (fun j hj => by rw [twinOrder, if_neg (by omega), if_neg (by omega)])
    (by omega) (by omega)
  rw [lookup_eq h, horder, hlength, hj, Option.bind_some, List.getElem?_append_right hl]
  by_cases hij : j = before.length
  · rw [if_pos (congrArg some hij), hij, Nat.sub_self]
    rfl
  · obtain rfl : j = before.length + 1 := by omega
    rw [if_neg (fun he => hij (Option.some.inj he)), Nat.add_sub_cancel_left]
    rfl

/-- Reading what is found is finding what was to be read. -/
theorem lookup_map {α β : Type} {m : List (Bytes × α)} (h : m.Pairwise (fun a b => a.1 ≤ b.1))
    (g : α → β) (key : Bytes) :
    ubjrObjectLookup (m.map Prod.fst) (m.map fun f => g f.2) key
      = (ubjrObjectLookup (m.map Prod.fst) (m.map Prod.snd) key).map g := by
  have hsorted : (m.map fun f => (f.1, g f.2)).Pairwise (fun a b => a.1 ≤ b.1) :=
    List.pairwise_map.mpr h
  have hlook := lookup_eq hsorted key
  rw [List.map_map, List.map_map] at hlook
  have horder : fieldOrder (m.map fun f => (f.1, g f.2)) key = fieldOrder m key := by
    funext j
    unfold fieldOrder
    rw [List.getElem?_map]
    cases m[j]? with
    | none => rfl
    | some p => rfl
  refine hlook.trans ?_
  rw [horder, List.length_map, lookup_eq h]
  cases bsearch (fieldOrder m key) m.length with
  | none => rfl
  | some i =>
    rw [Option.bind_some, Option.bind_some, List.getElem?_map, Option.map_map, Option.map_map]
    rfl

/-! ## The loop over the keys -/

/-- What the loop over the keys leaves under one of them. -/
theorem find?_readObject {keys : List Bytes} {reads : List (Value → Value)} {key : Bytes}
    {u : Value} {read : Value → Value} (hlook : ubjrObjectLookup keys reads key = some read)
    (hnull : read .null = u) (hsame : read u = u) : ∀ (ks : List Bytes) (res : Object),
    OrdMap.find? res key = none ∧ key ∈ ks ∨ OrdMap.find? res key = some u →
    OrdMap.find? (Reader.readObject keys reads ks res) key = some u
  | [], res, h => by
      rcases h with ⟨-, h⟩ | h
      · cases h
      · exact h
  | k :: ks, res, h => by
      rw [Reader.readObject]
      refine find?_readObject hlook hnull hsame ks _ ?_
      by_cases hk : key = k
      · subst hk
        rw [hlook, OrdMap.find?_insert_self]
        dsimp only
        rcases h with ⟨hfree, -⟩ | hbound
        · rw [hfree]
          exact Or.inr (congrArg some hnull)
        · rw [hbound]
          exact Or.inr (congrArg some hsame)
      · rw [OrdMap.find?_insert_of_ne _ _ hk]
        rcases h with ⟨hfree, hmem⟩ | hbound
        · exact Or.inl ⟨hfree, (List.mem_cons.mp hmem).resolve_left hk⟩
        · exact Or.inr hbound

end Zway.Ubj
