import Mathlib.Algebra.Order.Ring.Nat
import Mathlib.Data.List.Basic

/-!
# Cutting a list into blocks

A list of length `n` is cut into `blockCount c n` blocks of length `c`, of which
only the last may be shorter. Block `i` sits at position `i * c`, so putting the
blocks back at their positions rebuilds the list: `overwrite` is the copy that
does it, clipped at the end of its target.
-/

namespace Zway

variable {α : Type}

/-- Block `i` of size `c`. -/
def block (c i : Nat) (xs : List α) : List α := (xs.drop (i * c)).take c

/-- How many blocks of size `c` cover `n`. -/
def blockCount (c n : Nat) : Nat := n / c + if n % c = 0 then 0 else 1

theorem block_length (c i : Nat) (xs : List α) :
    (block c i xs).length = min c (xs.length - i * c) := by
  rw [block, List.length_take, List.length_drop]

/-- The blocks before `i + 1` are those before `i`, and block `i`. -/
theorem take_append_block (c i : Nat) (xs : List α) :
    xs.take (i * c) ++ block c i xs = xs.take ((i + 1) * c) := by
  rw [block, Nat.succ_mul, List.take_add]

/-- All the blocks together. -/
theorem flatMap_block (c : Nat) (xs : List α) :
    ∀ (k : Nat), (List.range k).flatMap (fun i => block c i xs) = xs.take (k * c)
  | 0 => by rw [List.range_zero, List.flatMap_nil, Nat.zero_mul, List.take_zero]
  | k + 1 => by
      rw [List.range_succ, List.flatMap_append, flatMap_block c xs k, List.flatMap_singleton,
        take_append_block]

theorem le_blockCount_mul {c : Nat} (hc : 0 < c) (n : Nat) : n ≤ blockCount c n * c := by
  have hdiv := Nat.div_add_mod n c
  have hmod := Nat.mod_lt n hc
  unfold blockCount
  rw [Nat.mul_comm] at hdiv
  by_cases h : n % c = 0
  · rw [if_pos h, Nat.add_zero]
    omega
  · rw [if_neg h, Nat.succ_mul]
    omega

/-- The last block is not empty. -/
theorem blockCount_mul_lt {c : Nat} (hc : 0 < c) (n : Nat) : blockCount c n * c < n + c := by
  have hdiv := Nat.div_add_mod n c
  rw [Nat.mul_comm] at hdiv
  unfold blockCount
  by_cases h : n % c = 0
  · rw [if_pos h, Nat.add_zero]
    omega
  · rw [if_neg h, Nat.succ_mul]
    omega

theorem blockCount_pos {c n : Nat} (hc : 0 < c) (hn : 0 < n) : 0 < blockCount c n := by
  have h := le_blockCount_mul hc n
  rcases Nat.eq_zero_or_pos (blockCount c n) with h0 | h0
  · rw [h0] at h
    omega
  · exact h0

theorem blockCount_le {c n m : Nat} (hc : 0 < c) (h : n ≤ m * c) : blockCount c n ≤ m := by
  have hlt := blockCount_mul_lt hc n
  have : blockCount c n * c < (m + 1) * c := by rw [Nat.succ_mul]; omega
  exact Nat.le_of_lt_succ (Nat.lt_of_mul_lt_mul_right this)

/-- Every block begins inside the list. -/
theorem mul_lt_of_lt_blockCount {c n j : Nat} (hc : 0 < c) (hj : j < blockCount c n) :
    j * c < n := by
  have hlt := blockCount_mul_lt hc n
  have hmul : (j + 1) * c ≤ blockCount c n * c := Nat.mul_le_mul_right _ hj
  rw [Nat.succ_mul] at hmul
  omega

theorem blockCount_eq_one {c n : Nat} (hn : 0 < n) (h : n < c) : blockCount c n = 1 := by
  unfold blockCount
  rw [Nat.div_eq_of_lt h, Nat.mod_eq_of_lt h, if_neg (by omega)]

theorem blockCount_mul_of_dvd {c n : Nat} (h : c ∣ n) : blockCount c n * c = n := by
  unfold blockCount
  rw [if_pos (Nat.mod_eq_zero_of_dvd h), Nat.add_zero]
  exact Nat.div_mul_cancel h

/-- After a whole number of blocks the count starts anew. -/
theorem blockCount_add {c n : Nat} (hc : 0 < c) (h : c ∣ n) (k : Nat) :
    blockCount c (n + k) = blockCount c n + blockCount c k := by
  obtain ⟨m, rfl⟩ := h
  unfold blockCount
  rw [Nat.mul_add_div hc, Nat.mul_add_mod, Nat.mul_div_cancel_left _ hc, Nat.mul_mod_right,
    if_pos rfl, Nat.add_zero, Nat.add_assoc]

/-! ## Putting a block somewhere -/

/-- Copy `ys` over `xs` at `off`, as far as there is room. -/
def overwrite (xs : List α) (off : Nat) (ys : List α) : List α :=
  xs.take off ++ ys.take (xs.length - off) ++ xs.drop (off + ys.length)

@[simp] theorem overwrite_length (xs : List α) (off : Nat) (ys : List α) :
    (overwrite xs off ys).length = xs.length := by
  unfold overwrite
  rw [List.length_append, List.length_append, List.length_take, List.length_take,
    List.length_drop]
  omega

theorem take_overwrite {xs ys : List α} {off : Nat} (h : off + ys.length ≤ xs.length) :
    (overwrite xs off ys).take (off + ys.length) = xs.take off ++ ys := by
  have hlen : (xs.take off ++ ys).length = off + ys.length := by
    rw [List.length_append, List.length_take]
    omega
  unfold overwrite
  rw [List.take_of_length_le (l := ys) (by omega), ← hlen, List.take_left]

/-- What lies before the copy is untouched. -/
theorem take_overwrite_of_le {xs ys : List α} {off k : Nat} (hk : k ≤ off)
    (hoff : off ≤ xs.length) : (overwrite xs off ys).take k = xs.take k := by
  unfold overwrite
  rw [List.append_assoc, List.take_append_of_le_length (by rw [List.length_take]; omega),
    List.take_take, Nat.min_eq_left hk]

/-- A target that holds the blocks before `i` holds those before `i + 1` after the copy. -/
theorem take_overwrite_block {c i : Nat} {xs ys : List α}
    (h : i * c + (block c i ys).length ≤ xs.length) (hxs : xs.take (i * c) = ys.take (i * c)) :
    (overwrite xs (i * c) (block c i ys)).take (i * c + (block c i ys).length)
      = ys.take ((i + 1) * c) := by
  rw [take_overwrite h, hxs, take_append_block]

/-- A copy to the beginning. -/
theorem overwrite_zero (xs ys : List α) :
    overwrite xs 0 ys = ys.take xs.length ++ xs.drop ys.length := by
  unfold overwrite
  rw [List.take_zero, List.nil_append, Nat.sub_zero, Nat.zero_add]

/-- All of it is overwritten. -/
theorem overwrite_all {xs ys : List α} (h : ys.length = xs.length) : overwrite xs 0 ys = ys := by
  rw [overwrite_zero, List.take_of_length_le (Nat.le_of_eq h),
    List.drop_of_length_le (Nat.le_of_eq h.symm), List.append_nil]

@[simp] theorem overwrite_nil (xs : List α) (off : Nat) : overwrite xs off [] = xs := by
  unfold overwrite
  rw [List.take_nil, List.append_nil, List.length_nil, Nat.add_zero, List.take_append_drop]

/-- A copy to the beginning, cut off. -/
theorem take_overwrite_zero {xs : List α} (ys : List α) {k : Nat} (hk : k ≤ xs.length) :
    (overwrite xs 0 ys).take k = overwrite (xs.take k) 0 ys := by
  rw [overwrite_zero, overwrite_zero, List.length_take, Nat.min_eq_left hk, List.take_append,
    List.length_take, List.take_take, Nat.min_eq_left hk, List.drop_take]
  congr 2
  omega

theorem drop_overwrite {xs ys : List α} {off : Nat} (h : off + ys.length ≤ xs.length) :
    (overwrite xs off ys).drop (off + ys.length) = xs.drop (off + ys.length) := by
  have hlen : (xs.take off ++ ys).length = off + ys.length := by
    rw [List.length_append, List.length_take]
    omega
  unfold overwrite
  rw [List.take_of_length_le (l := ys) (by omega)]
  nth_rewrite 1 [← hlen]
  rw [List.drop_left]

/-- The second of two copies to one place stays. -/
theorem overwrite_overwrite {xs ys zs : List α} {off : Nat} (h : off + ys.length ≤ xs.length)
    (hlen : ys.length = zs.length) :
    overwrite (overwrite xs off ys) off zs = overwrite xs off zs := by
  have hhead := @take_overwrite_of_le _ xs ys off off (Nat.le_refl off) (by omega)
  have htail := drop_overwrite h
  rw [hlen] at htail
  rw [overwrite, hhead, htail, overwrite_length]
  rfl

/-- Two copies one after the other are one. -/
theorem overwrite_append {xs ys zs : List α} {off : Nat}
    (h : off + ys.length + zs.length ≤ xs.length) :
    overwrite (overwrite xs off ys) (off + ys.length) zs = overwrite xs off (ys ++ zs) := by
  have hhead := @take_overwrite _ xs ys off (by omega)
  have htail := @drop_overwrite _ xs ys off (by omega)
  have hdrop : (overwrite xs off ys).drop (off + ys.length + zs.length)
      = xs.drop (off + ys.length + zs.length) := by
    rw [← List.drop_drop, htail, List.drop_drop]
  rw [overwrite, hhead, hdrop, overwrite_length, overwrite, List.length_append,
    List.take_of_length_le (l := zs) (by omega),
    List.take_of_length_le (l := ys ++ zs) (by rw [List.length_append]; omega), Nat.add_assoc,
    List.append_assoc, List.append_assoc, List.append_assoc, List.append_assoc]

/-- Copying what is `d` at a position over what is `d` there leaves it `d`. -/
theorem getD_overwrite {xs ys : List α} {off x : Nat} {d : α} (hxs : xs.getD x d = d)
    (hys : off ≤ x → ys.getD (x - off) d = d) : (overwrite xs off ys).getD x d = d := by
  by_cases hx : x < xs.length
  · rw [List.getD_eq_getElem?_getD] at hxs ⊢
    unfold overwrite
    by_cases hbefore : x < off
    · rw [List.append_assoc, List.getElem?_append_left (by rw [List.length_take]; omega),
        List.getElem?_take_of_lt hbefore]
      exact hxs
    · have hlen : (xs.take off).length = off := by
        rw [List.length_take]
        omega
      by_cases hin : x - off < ys.length
      · rw [List.append_assoc, List.getElem?_append_right (by omega), hlen,
          List.getElem?_append_left (by rw [List.length_take]; omega),
          List.getElem?_take_of_lt (by omega), ← List.getD_eq_getElem?_getD]
        exact hys (by omega)
      · have hcopy : (xs.take off ++ ys.take (xs.length - off)).length = off + ys.length := by
          rw [List.length_append, List.length_take, List.length_take]
          omega
        rw [List.getElem?_append_right (by omega), hcopy, List.getElem?_drop,
          Nat.add_sub_cancel' (by omega)]
        exact hxs
  · rw [List.getD_eq_getElem?_getD, List.getElem?_eq_none (by rw [overwrite_length]; omega)]
    rfl

end Zway
