import Mathlib.Data.List.Sort

/-!
# Sorting and binary search

The C library's `qsort` and `bsearch`. `bsearch` is written over positions, with
the comparison of the sought element against position `i` as its only access to
the data, so that its correctness is a fact about that comparison alone: it is
`gt` below the sought position, `eq` at it and `lt` above it.
-/

namespace Zway

/-- The search loop on positions `[l, u)`. -/
def bsearchLoop (cmp : Nat → Ordering) : (fuel l u : Nat) → Option Nat
  | 0, _, _ => none
  | fuel + 1, l, u =>
      if l < u then
        match cmp ((l + u) / 2) with
        | .lt => bsearchLoop cmp fuel l ((l + u) / 2)
        | .gt => bsearchLoop cmp fuel ((l + u) / 2 + 1) u
        | .eq => some ((l + u) / 2)
      else none

/-- Search `n` positions. -/
def bsearch (cmp : Nat → Ordering) (n : Nat) : Option Nat := bsearchLoop cmp (n + 1) 0 n

theorem bsearchLoop_found {cmp : Nat → Ordering} {i : Nat}
    (hgt : ∀ j, j < i → cmp j = .gt) (heq : cmp i = .eq) (hlt : ∀ j, i < j → cmp j = .lt) :
    ∀ (fuel l u : Nat), l ≤ i → i < u → u - l < fuel → bsearchLoop cmp fuel l u = some i
  | 0, _, _, _, _, h => by omega
  | fuel + 1, l, u, hl, hu, hf => by
      rw [bsearchLoop, if_pos (by omega)]
      rcases Nat.lt_trichotomy ((l + u) / 2) i with h | h | h
      · rw [hgt _ h]
        exact bsearchLoop_found hgt heq hlt fuel _ _ (by omega) hu (by omega)
      · rw [h, heq]
      · rw [hlt _ h]
        exact bsearchLoop_found hgt heq hlt fuel _ _ hl h (by omega)

/-- **The sought position is found** when the comparison is monotone around it. -/
theorem bsearch_found {cmp : Nat → Ordering} {i n : Nat} (hi : i < n)
    (hgt : ∀ j, j < i → cmp j = .gt) (heq : cmp i = .eq) (hlt : ∀ j, i < j → cmp j = .lt) :
    bsearch cmp n = some i :=
  bsearchLoop_found hgt heq hlt _ _ _ (Nat.zero_le _) hi (by omega)

theorem bsearchLoop_block {cmp : Nat → Ordering} {a b : Nat} (hgt : ∀ j, j < a → cmp j = .gt)
    (heq : ∀ j, a ≤ j → j < b → cmp j = .eq) (hlt : ∀ j, b ≤ j → cmp j = .lt) (hab : a < b) :
    ∀ (fuel l u : Nat), l ≤ a → b ≤ u → u - l < fuel →
      ∃ i, a ≤ i ∧ i < b ∧ bsearchLoop cmp fuel l u = some i
  | 0, _, _, _, _, h => by omega
  | fuel + 1, l, u, hl, hu, hf => by
      rw [bsearchLoop, if_pos (by omega)]
      by_cases hlow : (l + u) / 2 < a
      · rw [hgt _ hlow]
        exact bsearchLoop_block hgt heq hlt hab fuel _ _ (by omega) hu (by omega)
      · by_cases hhigh : (l + u) / 2 < b
        · rw [heq _ (by omega) hhigh]
          exact ⟨_, by omega, hhigh, rfl⟩
        · rw [hlt _ (by omega)]
          exact bsearchLoop_block hgt heq hlt hab fuel _ _ hl (by omega) (by omega)

/-- Of several equal positions one is found. -/
theorem bsearch_block {cmp : Nat → Ordering} {a b n : Nat} (hgt : ∀ j, j < a → cmp j = .gt)
    (heq : ∀ j, a ≤ j → j < b → cmp j = .eq) (hlt : ∀ j, b ≤ j → cmp j = .lt) (hab : a < b)
    (hn : b ≤ n) : ∃ i, a ≤ i ∧ i < b ∧ bsearch cmp n = some i :=
  bsearchLoop_block hgt heq hlt hab _ _ _ (Nat.zero_le _) hn (by omega)

end Zway
