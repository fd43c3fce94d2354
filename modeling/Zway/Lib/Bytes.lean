import Mathlib.Algebra.Order.Ring.Nat
import Mathlib.Order.Defs.Unbundled

/-!
# Byte strings and fixed-width numbers

Everything a program puts on a wire or in a file is a list of bytes, so this
module fixes that type, the two byte orders a number can be laid out in, and the
order `std::string` compares by.

A number of `k` bytes is only faithful below `256 ^ k`. The round-trip lemmas say
so with a `%` rather than with a hypothesis: that is what a C cast does, and the
callers that need the number back discharge the bound where they know it.
-/

namespace Zway

/-- A byte string. -/
abbrev Bytes := List UInt8

/-- The bytes of an ASCII literal. -/
def lit (s : String) : Bytes := s.toList.map (fun c => c.toNat.toUInt8)

/-- A C string ends at its first NUL. -/
def cstr (s : Bytes) : Bytes := s.takeWhile (· != 0)

/-- No NUL byte inside. -/
def NulFree (s : Bytes) : Prop := ∀ b ∈ s, b ≠ 0

instance (s : Bytes) : Decidable (NulFree s) := List.decidableBAll (fun b => b ≠ 0) s

theorem cstr_of_nulFree {s : Bytes} (h : NulFree s) : cstr s = s := by
  induction s with
  | nil => rfl
  | cons b s ih =>
    have hb : b ≠ 0 := h b (List.mem_cons_self ..)
    have hs : cstr s = s := ih (fun c hc => h c (List.mem_cons_of_mem _ hc))
    simp only [cstr, List.takeWhile_cons, bne_iff_ne, ne_eq, hb, not_false_eq_true, if_true]
    exact congrArg (b :: ·) hs

theorem cstr_nulFree (s : Bytes) : NulFree (cstr s) := by
  intro b hb
  have h := List.all_eq_true.mp (List.all_takeWhile (l := s) (p := fun b => b != 0)) b hb
  simpa using h

theorem cstr_cstr (s : Bytes) : cstr (cstr s) = cstr s := cstr_of_nulFree (cstr_nulFree s)

/-- A C string and what is behind its NUL. -/
theorem cstr_terminated {s : Bytes} (h : NulFree s) (rest : Bytes) : cstr (s ++ 0 :: rest) = s := by
  unfold cstr
  rw [List.takeWhile_append_of_pos (fun b hb => bne_iff_ne.mpr (h b hb)),
    List.takeWhile_cons_of_neg (by decide), List.append_nil]

/-! ## Big-endian -/

/-- The `k` low bytes of `n`, most significant first. -/
def beBytes : Nat → Nat → Bytes
  | 0, _ => []
  | k + 1, n => UInt8.ofNat (n / 256 ^ k) :: beBytes k n

/-- The number a big-endian byte string denotes. -/
def beNat : Bytes → Nat
  | [] => 0
  | b :: bs => b.toNat * 256 ^ bs.length + beNat bs

@[simp] theorem beBytes_length (k n : Nat) : (beBytes k n).length = k := by
  induction k with
  | zero => rfl
  | succ k ih => simp [beBytes, ih]

theorem beNat_beBytes (k n : Nat) : beNat (beBytes k n) = n % 256 ^ k := by
  induction k with
  | zero => simp [beBytes, beNat, Nat.mod_one]
  | succ k ih =>
    rw [beBytes, beNat, beBytes_length, ih]
    have hb : (UInt8.ofNat (n / 256 ^ k)).toNat = n / 256 ^ k % 256 := by simp
    rw [hb, Nat.pow_succ, Nat.mod_mul, Nat.mul_comm]
    omega

theorem beNat_lt (bs : Bytes) : beNat bs < 256 ^ bs.length := by
  induction bs with
  | nil => simp [beNat]
  | cons b bs ih =>
    have hb := b.toNat_lt
    rw [beNat, List.length_cons, Nat.pow_succ]
    have h1 : b.toNat * 256 ^ bs.length ≤ 255 * 256 ^ bs.length :=
      Nat.mul_le_mul_right _ (by omega)
    omega

theorem beNat_append : ∀ (bs cs : Bytes), beNat (bs ++ cs) = beNat bs * 256 ^ cs.length + beNat cs
  | [], cs => by rw [List.nil_append, beNat, Nat.zero_mul, Nat.zero_add]
  | b :: bs, cs => by
      rw [List.cons_append, beNat, beNat, beNat_append bs cs, List.length_append, Nat.pow_add,
        Nat.add_mul, Nat.add_assoc, Nat.mul_assoc]

/-- Only the residue of the number matters. -/
theorem beBytes_mod (k n m : Nat) (h : n % 256 ^ k = m % 256 ^ k) : beBytes k n = beBytes k m := by
  induction k with
  | zero => rfl
  | succ k ih =>
    rw [Nat.pow_succ] at h
    have hlow : n % 256 ^ k = m % 256 ^ k := by
      have := congrArg (· % 256 ^ k) h
      simpa [Nat.mod_mul_right_mod] using this
    have hhigh : n / 256 ^ k % 256 = m / 256 ^ k % 256 := by
      have := congrArg (· / 256 ^ k) h
      simpa [Nat.mod_mul_right_div_self] using this
    rw [beBytes, beBytes, ih hlow]
    refine congrArg (· :: beBytes k m) ?_
    apply UInt8.toNat_inj.mp
    simpa using hhigh

/-- A number is laid out as its high part, then its low part. -/
theorem beBytes_add (j k n : Nat) : beBytes (j + k) n = beBytes j (n / 256 ^ k) ++ beBytes k n := by
  induction j with
  | zero => simp [beBytes]
  | succ j ih =>
    rw [Nat.add_right_comm, beBytes, ih, beBytes, Nat.div_div_eq_div_mul, ← Nat.pow_add,
      Nat.add_comm k j]
    rfl

theorem beBytes_beNat (bs : Bytes) : beBytes bs.length (beNat bs) = bs := by
  induction bs with
  | nil => rfl
  | cons b bs ih =>
    have hlt := beNat_lt bs
    have hpos : 0 < 256 ^ bs.length := Nat.pow_pos (by decide)
    rw [List.length_cons, beBytes, beNat]
    have hhead : (b.toNat * 256 ^ bs.length + beNat bs) / 256 ^ bs.length = b.toNat := by
      rw [Nat.mul_comm, Nat.mul_add_div hpos, Nat.div_eq_of_lt hlt, Nat.add_zero]
    have htail : beBytes bs.length (b.toNat * 256 ^ bs.length + beNat bs) = bs := by
      rw [beBytes_mod _ _ (beNat bs) (by simp)]
      exact ih
    rw [hhead, htail]
    simp

/-! ## Little-endian -/

/-- The `k` low bytes of `n`, least significant first. -/
def leBytes : Nat → Nat → Bytes
  | 0, _ => []
  | k + 1, n => UInt8.ofNat n :: leBytes k (n / 256)

/-- The number a little-endian byte string denotes. -/
def leNat : Bytes → Nat
  | [] => 0
  | b :: bs => b.toNat + 256 * leNat bs

@[simp] theorem leBytes_length (k n : Nat) : (leBytes k n).length = k := by
  induction k generalizing n with
  | zero => rfl
  | succ k ih => simp [leBytes, ih]

theorem leNat_leBytes (k n : Nat) : leNat (leBytes k n) = n % 256 ^ k := by
  induction k generalizing n with
  | zero => simp [leBytes, leNat, Nat.mod_one]
  | succ k ih =>
    rw [leBytes, leNat, ih]
    have hb : (UInt8.ofNat n).toNat = n % 256 := by simp
    rw [hb, Nat.pow_succ, Nat.mul_comm (256 ^ k) 256, Nat.mod_mul]

theorem leNat_lt (bs : Bytes) : leNat bs < 256 ^ bs.length := by
  induction bs with
  | nil => simp [leNat]
  | cons b bs ih =>
    have hb := b.toNat_lt
    rw [leNat, List.length_cons, Nat.pow_succ]
    omega

theorem leBytes_leNat (bs : Bytes) : leBytes bs.length (leNat bs) = bs := by
  induction bs with
  | nil => rfl
  | cons b bs ih =>
    have hb := b.toNat_lt
    rw [List.length_cons, leBytes, leNat]
    have hdiv : (b.toNat + 256 * leNat bs) / 256 = leNat bs := by omega
    rw [hdiv, ih]
    refine congrArg (· :: bs) ?_
    apply UInt8.toNat_inj.mp
    simp

/-! ## The order of `std::string` -/

instance bytesOrder : IsStrictTotalOrder Bytes (· < ·) where
  trichotomous _ _ h1 h2 := Std.le_antisymm (Std.not_lt.mp h2) (Std.not_lt.mp h1)
  irrefl a := List.lt_irrefl a
  trans _ _ _ := List.lt_trans

instance uint32Order : IsStrictTotalOrder UInt32 (· < ·) where
  trichotomous _ _ h1 h2 := UInt32.le_antisymm (UInt32.not_lt.mp h2) (UInt32.not_lt.mp h1)
  irrefl _ := UInt32.lt_irrefl _
  trans _ _ _ := UInt32.lt_trans

end Zway
