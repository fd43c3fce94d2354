import Mathlib.Data.Nat.Digits.Lemmas
import Zway.Lib.Bytes

/-!
# Numbers in base 16

The text of a number, without leading zeros, and the number that a text stands for.
-/

namespace Zway.Hex

/-- `0` to `9` and `a` to `f`. -/
def digit (d : Nat) : UInt8 := if d < 10 then UInt8.ofNat (0x30 + d) else UInt8.ofNat (0x57 + d)

/-- What a digit stands for, in either case. -/
def value (c : UInt8) : Nat :=
  if c.toNat < 0x3A then c.toNat - 0x30
  else if c.toNat < 0x61 then c.toNat - 0x37
  else c.toNat - 0x57

/-- The text of a number. -/
def ofNat (n : Nat) : Bytes := if n = 0 then [0x30] else ((Nat.digits 16 n).map digit).reverse

/-- The number of a text. -/
def toNat (s : Bytes) : Nat := Nat.ofDigits 16 (s.reverse.map value)

example : ofNat 0x1a2f = lit "1a2f" ∧ toNat (lit "1A2f") = 0x1a2f := by decide

/-! ## Digits -/

theorem value_digit : ∀ d < 16, value (digit d) = d := by decide

theorem digit_ne_zero : ∀ d < 16, digit d ≠ 0 := by decide

theorem map_value_digit {ds : List Nat} (h : ∀ d ∈ ds, d < 16) : (ds.map digit).map value = ds := by
  rw [List.map_map]
  calc ds.map (value ∘ digit) = ds.map id := List.map_congr_left (fun d hd => value_digit d (h d hd))
    _ = ds := List.map_id ds

/-! ## Numbers -/

/-- A number comes back from its text. -/
theorem toNat_ofNat (n : Nat) : toNat (ofNat n) = n := by
  unfold toNat ofNat
  by_cases hn : n = 0
  · rw [if_pos hn, hn]
    rfl
  · rw [if_neg hn, List.reverse_reverse, map_value_digit (fun d hd => Nat.digits_lt_base (by decide) hd)]
    exact Nat.ofDigits_digits 16 n

theorem ofNat_ne_nil (n : Nat) : ofNat n ≠ [] := by
  unfold ofNat
  by_cases hn : n = 0
  · rw [if_pos hn]
    exact List.cons_ne_nil _ _
  · rw [if_neg hn, Ne, List.reverse_eq_nil_iff, List.map_eq_nil_iff]
    exact Nat.digits_ne_nil_iff_ne_zero.mpr hn

theorem ofNat_nulFree (n : Nat) : NulFree (ofNat n) := by
  unfold ofNat
  by_cases hn : n = 0
  · rw [if_pos hn]
    decide
  · rw [if_neg hn]
    intro c hc
    obtain ⟨d, hd, rfl⟩ := List.mem_map.mp (List.mem_reverse.mp hc)
    exact digit_ne_zero d (Nat.digits_lt_base (by decide) hd)

/-- A power of 16 is a one and so many zeros. -/
theorem length_ofNat_pow (k : Nat) : (ofNat (16 ^ k)).length = k + 1 := by
  have hpos : 16 ^ k ≠ 0 := Nat.ne_of_gt (Nat.pow_pos (by decide))
  unfold ofNat
  rw [if_neg hpos, List.length_reverse, List.length_map, Nat.length_digits 16 _ (by decide) hpos,
    Nat.log_pow (by decide)]

end Zway.Hex
