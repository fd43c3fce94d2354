import Mathlib.Algebra.Order.Ring.Nat
import Mathlib.Order.Bounds.Defs
import Zway.Lib.OrdMap

/-!
# First fit

Blocks of bytes in a pool, as a map from the address of a block to its length. In order
of address the blocks leave gaps, and `firstFit` is the beginning of the first gap that is
long enough: the lowest free address (`firstFit_isLeast`), if there is one
(`firstFit_eq_none_iff`). A block goes into free bytes and comes out again without
disturbing the order (`Packed.insert`, `Packed.erase`).
-/

namespace Zway.FirstFit

/-- One block is behind the other. -/
def Apart (b c : Nat × Nat) : Prop := b.1 + b.2 ≤ c.1 ∨ c.1 + c.2 ≤ b.1

instance (b c : Nat × Nat) : Decidable (Apart b c) :=
  inferInstanceAs (Decidable (b.1 + b.2 ≤ c.1 ∨ c.1 + c.2 ≤ b.1))

theorem Apart.symm {b c : Nat × Nat} (h : Apart b c) : Apart c b := Or.symm h

/-- The `n` bytes at `o` are between `low` and `limit`, and outside the blocks. -/
def FreeAt (low limit : Nat) (bs : List (Nat × Nat)) (n o : Nat) : Prop :=
  low ≤ o ∧ o + n ≤ limit ∧ ∀ b ∈ bs, Apart (o, n) b

/-- Blocks one behind the other, between `low` and `limit`. -/
def Packed : Nat → Nat → List (Nat × Nat) → Prop
  | low, limit, [] => low ≤ limit
  | low, limit, b :: bs => low ≤ b.1 ∧ 0 < b.2 ∧ Packed (b.1 + b.2) limit bs

/-- Where the first gap of `n` bytes begins. -/
def firstFit (limit n : Nat) : Nat → List (Nat × Nat) → Option Nat
  | low, [] => if low + n ≤ limit then some low else none
  | low, b :: bs => if low + n ≤ b.1 then some low else firstFit limit n (b.1 + b.2) bs

variable {low limit n o : Nat} {bs : List (Nat × Nat)}

theorem FreeAt.of_subset {cs : List (Nat × Nat)} (h : FreeAt low limit bs n o)
    (hsub : ∀ b ∈ cs, b ∈ bs) : FreeAt low limit cs n o :=
  ⟨h.1, h.2.1, fun b hb => h.2.2 b (hsub b hb)⟩

theorem Packed.le : ∀ {bs : List (Nat × Nat)} {low : Nat}, Packed low limit bs → low ≤ limit
  | [], _, h => h
  | b :: bs, _, ⟨hlow, _, hrest⟩ => by
      have := Packed.le hrest
      omega

theorem Packed.mono {low' : Nat} (h : Packed low limit bs) (hle : low' ≤ low) :
    Packed low' limit bs := by
  cases bs with
  | nil => exact Nat.le_trans hle h
  | cons b bs => exact ⟨Nat.le_trans hle h.1, h.2⟩

/-- Every block is in the pool. -/
theorem Packed.mem {b : Nat × Nat} (h : Packed low limit bs) (hb : b ∈ bs) :
    low ≤ b.1 ∧ 0 < b.2 ∧ b.1 + b.2 ≤ limit := by
  induction bs generalizing low with
  | nil => cases hb
  | cons c bs ih =>
    obtain ⟨hlow, hpos, hrest⟩ := h
    rcases List.mem_cons.mp hb with rfl | hb
    · exact ⟨hlow, hpos, hrest.le⟩
    · obtain ⟨hb1, hb2, hb3⟩ := ih hrest hb
      exact ⟨by omega, hb2, hb3⟩

/-- No two blocks overlap. -/
theorem Packed.apart (h : Packed low limit bs) : bs.Pairwise Apart := by
  induction bs generalizing low with
  | nil => exact List.Pairwise.nil
  | cons b bs ih =>
    obtain ⟨_, _, hrest⟩ := h
    exact List.pairwise_cons.mpr ⟨fun c hc => .inl (hrest.mem hc).1, ih hrest⟩

/-- The blocks are no longer than the pool. -/
theorem Packed.sum_le (h : Packed low limit bs) : low + (bs.map (·.2)).sum ≤ limit := by
  induction bs generalizing low with
  | nil => exact h
  | cons b bs ih =>
    obtain ⟨hlow, _, hrest⟩ := h
    have := ih hrest
    rw [List.map_cons, List.sum_cons]
    omega

theorem Packed.sorted (h : Packed low limit bs) : OrdMap.Sorted bs := by
  induction bs generalizing low with
  | nil => exact List.Pairwise.nil
  | cons b bs ih =>
    obtain ⟨_, hpos, hrest⟩ := h
    refine List.pairwise_cons.mpr ⟨fun c hc => ?_, ih hrest⟩
    have := (hrest.mem hc).1
    omega

/-! ## The search -/

/-- Free bytes that are not before the first block are behind it. -/
theorem FreeAt.behind {b : Nat × Nat} (h : FreeAt low limit (b :: bs) n o) (hb : b.1 < o + n) :
    FreeAt (b.1 + b.2) limit bs n o := by
  obtain ⟨_, hlimit, hapart⟩ := h
  refine ⟨?_, hlimit, fun c hc => hapart c (List.mem_cons_of_mem _ hc)⟩
  rcases hapart b (List.mem_cons_self ..) with hbefore | hbehind
  · change o + n ≤ b.1 at hbefore
    omega
  · exact hbehind

/-- What the search finds is free. -/
theorem firstFit_free (h : Packed low limit bs) (hfit : firstFit limit n low bs = some o) :
    FreeAt low limit bs n o := by
  induction bs generalizing low with
  | nil =>
    rw [firstFit] at hfit
    split at hfit
    · rename_i hroom
      obtain rfl := Option.some.inj hfit
      exact ⟨Nat.le_refl _, hroom, fun _ hb => absurd hb List.not_mem_nil⟩
    · cases hfit
  | cons b bs ih =>
    obtain ⟨hlow, hpos, hrest⟩ := h
    rw [firstFit] at hfit
    split at hfit
    · rename_i hroom
      obtain rfl := Option.some.inj hfit
      have hle := hrest.le
      refine ⟨Nat.le_refl _, by omega, fun c hc => .inl ?_⟩
      -- the first block begins before all the others
      rcases List.mem_cons.mp hc with rfl | hc
      · exact hroom
      · have := (hrest.mem hc).1
        show low + n ≤ c.1
        omega
    · obtain ⟨hfrom, hlimit, hapart⟩ := ih hrest hfit
      refine ⟨by omega, hlimit, fun c hc => ?_⟩
      rcases List.mem_cons.mp hc with rfl | hc
      · exact .inr hfrom
      · exact hapart c hc

/-- Nothing below it is free. -/
theorem firstFit_le (hfit : firstFit limit n low bs = some o) {o' : Nat}
    (hfree : FreeAt low limit bs n o') : o ≤ o' := by
  induction bs generalizing low with
  | nil =>
    rw [firstFit] at hfit
    split at hfit
    · obtain rfl := Option.some.inj hfit
      exact hfree.1
    · cases hfit
  | cons b bs ih =>
    rw [firstFit] at hfit
    split at hfit
    · obtain rfl := Option.some.inj hfit
      exact hfree.1
    · rename_i hroom
      have hlow := hfree.1
      exact ih hfit (hfree.behind (by omega))

theorem exists_firstFit (hfree : FreeAt low limit bs n o) : ∃ o', firstFit limit n low bs = some o' := by
  induction bs generalizing low with
  | nil =>
    have hroom : low + n ≤ limit := Nat.le_trans (Nat.add_le_add_right hfree.1 n) hfree.2.1
    exact ⟨low, by rw [firstFit, if_pos hroom]⟩
  | cons b bs ih =>
    by_cases hroom : low + n ≤ b.1
    · exact ⟨low, by rw [firstFit, if_pos hroom]⟩
    · have hlow := hfree.1
      rw [firstFit, if_neg hroom]
      exact ih (hfree.behind (by omega))

/-- **The search finds the lowest free address.** -/
theorem firstFit_isLeast (h : Packed low limit bs) (hfit : firstFit limit n low bs = some o) :
    IsLeast {o | FreeAt low limit bs n o} o :=
  ⟨firstFit_free h hfit, fun _ hfree => firstFit_le hfit hfree⟩

/-- **And it finds none only where there is none.** -/
theorem firstFit_eq_none_iff (h : Packed low limit bs) :
    firstFit limit n low bs = none ↔ ¬ ∃ o, FreeAt low limit bs n o := by
  constructor
  · rintro hnone ⟨o, hfree⟩
    obtain ⟨o', hfit⟩ := exists_firstFit hfree
    rw [hnone] at hfit
    cases hfit
  · intro hno
    cases hfit : firstFit limit n low bs with
    | none => rfl
    | some o => exact absurd ⟨o, firstFit_free h hfit⟩ hno

/-! ## Blocks come and go -/

/-- A block in free bytes. -/
theorem Packed.insert (h : Packed low limit bs) (hn : 0 < n) (hfree : FreeAt low limit bs n o) :
    Packed low limit (OrdMap.insert o n bs) := by
  induction bs generalizing low with
  | nil => exact ⟨hfree.1, hn, hfree.2.1⟩
  | cons b bs ih =>
    obtain ⟨hlow, hpos, hrest⟩ := h
    have hfrom := hfree.1
    rcases hfree.2.2 b (List.mem_cons_self ..) with hbefore | hbehind
    · change o + n ≤ b.1 at hbefore
      rw [OrdMap.insert, if_pos (by omega)]
      exact ⟨hfrom, hn, hbefore, hpos, hrest⟩
    · change b.1 + b.2 ≤ o at hbehind
      rw [OrdMap.insert, if_neg (by omega), if_pos (by omega)]
      exact ⟨hlow, hpos, ih hrest (hfree.behind (by omega))⟩

theorem Packed.filter (h : Packed low limit bs) (keep : Nat × Nat → Bool) :
    Packed low limit (bs.filter keep) := by
  induction bs generalizing low with
  | nil => exact h
  | cons b bs ih =>
    obtain ⟨hlow, hpos, hrest⟩ := h
    by_cases hkeep : keep b
    · rw [List.filter_cons_of_pos hkeep]
      exact ⟨hlow, hpos, ih hrest⟩
    · rw [List.filter_cons_of_neg hkeep]
      exact (ih hrest).mono (by omega)

/-- A block taken out. -/
theorem Packed.erase (h : Packed low limit bs) (o : Nat) : Packed low limit (OrdMap.erase o bs) :=
  h.filter _

end Zway.FirstFit
