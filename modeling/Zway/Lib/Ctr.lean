import Zway.Lib.Bytes
import Zway.Lib.Chunk

/-!
# Counter mode

A block cipher in counter mode XORs the data with a key stream: the cipher applied
to the counter, the counter plus one, and so on modulo `2 ^ 128`. A call uses up
one counter for every block it starts, the last one even if it is cut short.

So a text may be given in pieces, as long as every piece but the last is a whole
number of blocks: `crypt_append` is that law, and `crypt_crypt` says that the mode
is its own inverse.
-/

namespace Zway.Ctr

/-! ## Key streams -/

/-- `bs` XORed with a key stream, from byte `n` of the stream on. -/
def xorFrom (ks : Nat → UInt8) : Nat → Bytes → Bytes
  | _, [] => []
  | n, b :: bs => (b ^^^ ks n) :: xorFrom ks (n + 1) bs

@[simp] theorem xorFrom_length (ks : Nat → UInt8) :
    ∀ (n : Nat) (bs : Bytes), (xorFrom ks n bs).length = bs.length
  | _, [] => rfl
  | n, b :: bs => by rw [xorFrom, List.length_cons, List.length_cons, xorFrom_length ks (n + 1) bs]

theorem xorFrom_append (ks : Nat → UInt8) :
    ∀ (n : Nat) (bs cs : Bytes),
      xorFrom ks n (bs ++ cs) = xorFrom ks n bs ++ xorFrom ks (n + bs.length) cs
  | n, [], cs => rfl
  | n, b :: bs, cs => by
      have ih := xorFrom_append ks (n + 1) bs cs
      rw [Nat.add_right_comm, Nat.add_assoc] at ih
      exact congrArg ((b ^^^ ks n) :: ·) ih

/-- XORing twice is nothing. -/
theorem xorFrom_xorFrom (ks : Nat → UInt8) :
    ∀ (n : Nat) (bs : Bytes), xorFrom ks n (xorFrom ks n bs) = bs
  | _, [] => rfl
  | n, b :: bs => by
      rw [xorFrom, xorFrom, xorFrom_xorFrom ks (n + 1) bs, UInt8.xor_assoc, UInt8.xor_self,
        UInt8.xor_zero]

/-- Two key streams undo each other on a text if they agree there. -/
theorem xorFrom_xorFrom_eq_iff (ks ks' : Nat → UInt8) : ∀ (n : Nat) (bs : Bytes),
    xorFrom ks n (xorFrom ks' n bs) = bs ↔ ∀ i < bs.length, ks (n + i) = ks' (n + i)
  | n, [] => ⟨fun _ _ hi => absurd hi (Nat.not_lt_zero _), fun _ => rfl⟩
  | n, b :: bs => by
      have hbyte : b ^^^ ks' n ^^^ ks n = b ↔ ks n = ks' n := by
        rw [UInt8.xor_assoc]
        constructor
        · intro h
          have hzero : ks' n ^^^ ks n = 0 := (UInt8.xor_right_inj b).mp (h.trans UInt8.xor_zero.symm)
          exact (UInt8.xor_eq_zero_iff.mp hzero).symm
        · intro h
          rw [h, UInt8.xor_self, UInt8.xor_zero]
      rw [xorFrom, xorFrom, List.cons.injEq, hbyte, xorFrom_xorFrom_eq_iff ks ks' (n + 1) bs]
      constructor
      · rintro ⟨hhead, htail⟩ i hi
        cases i with
        | zero => exact hhead
        | succ i =>
          have h := htail i (Nat.lt_of_succ_lt_succ hi)
          rw [Nat.add_assoc, Nat.add_comm 1] at h
          exact h
      · intro hall
        refine ⟨hall 0 (Nat.succ_pos _), fun i hi => ?_⟩
        rw [Nat.add_assoc, Nat.add_comm 1]
        exact hall (i + 1) (Nat.succ_lt_succ hi)

theorem xorFrom_shift {ks ks' : Nat → UInt8} {m : Nat} (h : ∀ i, ks' i = ks (m + i)) :
    ∀ (n : Nat) (bs : Bytes), xorFrom ks' n bs = xorFrom ks (m + n) bs
  | _, [] => rfl
  | n, b :: bs => by
      rw [xorFrom, xorFrom, h, xorFrom_shift h (n + 1) bs, Nat.add_assoc]

/-- A text that was XORed at one place of the stream, XORed at another. -/
theorem xorFrom_xorFrom_at_iff (ks : Nat → UInt8) (m n : Nat) (bs : Bytes) :
    xorFrom ks m (xorFrom ks n bs) = bs ↔ ∀ i < bs.length, ks (m + i) = ks (n + i) := by
  have hm := @xorFrom_shift ks (fun i => ks (m + i)) m (fun _ => rfl) 0 (xorFrom ks n bs)
  have hn := @xorFrom_shift ks (fun i => ks (n + i)) n (fun _ => rfl) 0 bs
  rw [Nat.add_zero] at hm hn
  rw [← hm, ← hn, xorFrom_xorFrom_eq_iff]
  simp only [Nat.zero_add]

theorem take_xorFrom (ks : Nat → UInt8) :
    ∀ (n k : Nat) (bs : Bytes), (xorFrom ks n bs).take k = xorFrom ks n (bs.take k)
  | _, _, [] => by rw [xorFrom, List.take_nil, xorFrom]
  | _, 0, _ :: _ => rfl
  | n, k + 1, b :: bs => by
      rw [xorFrom, List.take_succ_cons, List.take_succ_cons, take_xorFrom ks (n + 1) k bs, xorFrom]

theorem drop_xorFrom (ks : Nat → UInt8) :
    ∀ (n k : Nat) (bs : Bytes), (xorFrom ks n bs).drop k = xorFrom ks (n + k) (bs.drop k)
  | _, _, [] => by rw [xorFrom, List.drop_nil, xorFrom]
  | _, 0, _ :: _ => rfl
  | n, k + 1, b :: bs => by
      rw [xorFrom, List.drop_succ_cons, List.drop_succ_cons, drop_xorFrom ks (n + 1) k bs]
      congr 1
      omega

/-- What is copied to the beginning of a text is XORed by itself. -/
theorem xorFrom_overwrite (ks : Nat → UInt8) (bs cs : Bytes) :
    xorFrom ks 0 (overwrite bs 0 cs) = overwrite (xorFrom ks 0 bs) 0 (xorFrom ks 0 cs) := by
  rw [overwrite_zero, overwrite_zero, xorFrom_append, xorFrom_length, xorFrom_length, take_xorFrom,
    drop_xorFrom, List.length_take]
  congr 1
  by_cases h : cs.length ≤ bs.length
  · rw [Nat.min_eq_right h]
  · rw [List.drop_of_length_le (by omega), xorFrom, xorFrom]

/-! ## Counters -/

section

-- the cipher, on one block
variable (cipher : Bytes → Bytes)

/-- The counter `k` blocks later. -/
def advance (ctr : Bytes) (k : Nat) : Bytes := beBytes 16 (beNat ctr + k)

/-- Byte `i` of the key stream that starts with `ctr`. -/
def keyStream (ctr : Bytes) (i : Nat) : UInt8 := (cipher (advance ctr (i / 16))).getD (i % 16) 0

/-- One call: the counter after it, and the text. -/
def crypt (ctr : Bytes) (data : Bytes) : Bytes × Bytes :=
  (advance ctr (blockCount 16 data.length), xorFrom (keyStream cipher ctr) 0 data)

@[simp] theorem advance_length (ctr : Bytes) (k : Nat) : (advance ctr k).length = 16 :=
  beBytes_length ..

theorem advance_zero {ctr : Bytes} (h : ctr.length = 16) : advance ctr 0 = ctr := by
  unfold advance
  rw [Nat.add_zero, ← h]
  exact beBytes_beNat ctr

theorem advance_advance (ctr : Bytes) (j k : Nat) :
    advance (advance ctr j) k = advance ctr (j + k) := by
  unfold advance
  refine beBytes_mod _ _ _ ?_
  rw [beNat_beBytes, Nat.mod_add_mod, Nat.add_assoc]

theorem keyStream_advance (ctr : Bytes) (k i : Nat) :
    keyStream cipher (advance ctr k) i = keyStream cipher ctr (k * 16 + i) := by
  have hdiv : (k * 16 + i) / 16 = k + i / 16 := by omega
  have hmod : (k * 16 + i) % 16 = i % 16 := by omega
  unfold keyStream
  rw [advance_advance, hdiv, hmod]

@[simp] theorem crypt_length (ctr : Bytes) (data : Bytes) :
    (crypt cipher ctr data).2.length = data.length := xorFrom_length ..

@[simp] theorem crypt_ctr_length (ctr : Bytes) (data : Bytes) :
    (crypt cipher ctr data).1.length = 16 := advance_length ..

theorem crypt_nil {ctr : Bytes} (h : ctr.length = 16) : crypt cipher ctr [] = (ctr, []) := by
  unfold crypt
  rw [List.length_nil, show blockCount 16 0 = 0 from rfl, advance_zero h, xorFrom]

/-- **A text in pieces.** After a whole number of blocks, or with nothing left, the next call goes
on where the last one stopped. -/
theorem crypt_append (ctr : Bytes) {xs ys : Bytes} (h : 16 ∣ xs.length ∨ ys = []) :
    crypt cipher ctr (xs ++ ys) =
      ((crypt cipher (crypt cipher ctr xs).1 ys).1,
        (crypt cipher ctr xs).2 ++ (crypt cipher (crypt cipher ctr xs).1 ys).2) := by
  rcases h with h | rfl
  · have hcount : blockCount 16 xs.length * 16 = xs.length := blockCount_mul_of_dvd h
    have hshift : ∀ i, keyStream cipher (advance ctr (blockCount 16 xs.length)) i
        = keyStream cipher ctr (xs.length + i) := by
      intro i
      rw [keyStream_advance, hcount]
    unfold crypt
    rw [List.length_append, blockCount_add (by decide) h, ← advance_advance, xorFrom_append,
      xorFrom_shift hshift, Nat.zero_add, Nat.add_zero]
  · rw [crypt_nil cipher (crypt_ctr_length ..), List.append_nil, List.append_nil]

/-- Decryption is encryption. -/
theorem crypt_crypt (ctr : Bytes) (data : Bytes) :
    crypt cipher ctr (crypt cipher ctr data).2 = ((crypt cipher ctr data).1, data) := by
  unfold crypt
  rw [xorFrom_xorFrom, xorFrom_length]

/-- A block of the text, from the counter that is reached before it. -/
theorem crypt_block {c : Nat} (h : 16 ∣ c) (ctr : Bytes) (i : Nat) (data : Bytes) :
    (crypt cipher (advance ctr (i * (c / 16))) (block c i data)).2
      = block c i (crypt cipher ctr data).2 := by
  have hpos : i * (c / 16) * 16 = i * c := by rw [Nat.mul_assoc, Nat.div_mul_cancel h]
  have hshift : ∀ k, keyStream cipher (advance ctr (i * (c / 16))) k
      = keyStream cipher ctr (i * c + k) := by
    intro k
    rw [keyStream_advance, hpos]
  unfold crypt block
  dsimp only
  rw [xorFrom_shift hshift, drop_xorFrom, take_xorFrom, Nat.zero_add, Nat.add_zero]

/-- After a full block the next one follows. -/
theorem crypt_block_ctr {c : Nat} (h : 16 ∣ c) (ctr : Bytes) (i : Nat) {data : Bytes}
    (hlen : (block c i data).length = c) :
    (crypt cipher (advance ctr (i * (c / 16))) (block c i data)).1
      = advance ctr ((i + 1) * (c / 16)) := by
  have hcount : blockCount 16 c = c / 16 := by
    unfold blockCount
    rw [if_pos (Nat.mod_eq_zero_of_dvd h), Nat.add_zero]
  unfold crypt
  dsimp only
  rw [hlen, hcount, advance_advance, Nat.succ_mul]

end

/-! ## The counters that are used -/

/-- The counters of a call on `n` bytes: one for every block it starts. -/
def counters (ctr : Bytes) (n : Nat) : List Bytes := (List.range (blockCount 16 n)).map (advance ctr)

/-- The counters of calls one after the other. -/
def allCounters : Bytes → List Nat → List Bytes
  | _, [] => []
  | ctr, n :: ns => counters ctr n ++ allCounters (advance ctr (blockCount 16 n)) ns

/-- A call looks at the cipher at its counters only. -/
theorem crypt_congr {cipher cipher' : Bytes → Bytes} {ctr data : Bytes}
    (h : ∀ c ∈ counters ctr data.length, cipher c = cipher' c) :
    crypt cipher ctr data = crypt cipher' ctr data := by
  have hks : ∀ i < data.length, keyStream cipher ctr (0 + i) = keyStream cipher' ctr (0 + i) := by
    intro i hi
    have hblock : i / 16 < blockCount 16 data.length := by
      have hle := le_blockCount_mul (show 0 < 16 by decide) data.length
      omega
    unfold keyStream
    rw [Nat.zero_add, h _ (List.mem_map.mpr ⟨i / 16, List.mem_range.mpr hblock, rfl⟩)]
  have htext := (xorFrom_xorFrom_eq_iff (keyStream cipher ctr) (keyStream cipher' ctr) 0 data).mpr hks
  unfold crypt
  rw [← xorFrom_xorFrom (keyStream cipher ctr) 0 (xorFrom (keyStream cipher' ctr) 0 data), htext]

/-- The calls take up the counters from the first one on. -/
theorem allCounters_eq : ∀ (ctr : Bytes) (ns : List Nat),
    allCounters ctr ns = (List.range (ns.map (blockCount 16)).sum).map (advance ctr)
  | _, [] => rfl
  | ctr, n :: ns => by
      have hshift : advance (advance ctr (blockCount 16 n)) = advance ctr ∘ (blockCount 16 n + ·) :=
        funext (fun k => advance_advance ctr _ k)
      rw [allCounters, counters, allCounters_eq _ ns, hshift, List.map_cons, List.sum_cons,
        List.range_add, List.map_append, List.map_map]

/-- However the text is cut, there is a counter, and there are not more counters than bytes. -/
theorem sum_blockCount : ∀ (ns : List Nat),
    (ns.map (blockCount 16)).sum ≤ ns.sum ∧ (0 < ns.sum → 0 < (ns.map (blockCount 16)).sum)
  | [] => ⟨Nat.le_refl 0, fun h => h⟩
  | n :: ns => by
      obtain ⟨hle, hpos⟩ := sum_blockCount ns
      have hn : blockCount 16 n ≤ n := blockCount_le (by decide) (by omega)
      rw [List.map_cons, List.sum_cons, List.sum_cons]
      refine ⟨Nat.add_le_add hn hle, fun h => ?_⟩
      rcases Nat.eq_zero_or_pos n with hzero | hn'
      · exact Nat.add_pos_right _ (hpos (by omega))
      · exact Nat.add_pos_left (blockCount_pos (by decide) hn') _

theorem mem_allCounters {ctr c : Bytes} {ns : List Nat} (h : c ∈ allCounters ctr ns) :
    ∃ k < ns.sum, c = advance ctr k := by
  rw [allCounters_eq] at h
  obtain ⟨k, hk, rfl⟩ := List.mem_map.mp h
  exact ⟨k, Nat.lt_of_lt_of_le (List.mem_range.mp hk) (sum_blockCount ns).1, rfl⟩

theorem self_mem_allCounters {ctr : Bytes} (hctr : ctr.length = 16) {ns : List Nat} (hpos : 0 < ns.sum) :
    ctr ∈ allCounters ctr ns := by
  rw [allCounters_eq]
  exact List.mem_map.mpr ⟨0, List.mem_range.mpr ((sum_blockCount ns).2 hpos), advance_zero hctr⟩

/-- **Counters that begin a multiple of `m` apart** stay apart for `m` bytes. -/
theorem allCounters_disjoint_iff {m : Nat} (hm : m ∣ 256 ^ 16) {ctr ctr' : Bytes}
    (hctr : ctr.length = 16) (hctr' : ctr'.length = 16) (hdvd : m ∣ beNat ctr) (hdvd' : m ∣ beNat ctr')
    {ns ns' : List Nat} (hpos : 0 < ns.sum) (hpos' : 0 < ns'.sum) (hle : ns.sum ≤ m) (hle' : ns'.sum ≤ m) :
    (allCounters ctr ns).Disjoint (allCounters ctr' ns') ↔ ctr ≠ ctr' := by
  constructor
  · rintro hdisjoint rfl
    exact hdisjoint (self_mem_allCounters hctr hpos) (self_mem_allCounters hctr hpos')
  · intro hne c hc hc'
    obtain ⟨j, hj, rfl⟩ := mem_allCounters hc
    obtain ⟨k, hk, hadvance⟩ := mem_allCounters hc'
    -- no counter is carried over the end of its multiple of `m`
    have hroom : ∀ {start : Bytes} {i : Nat}, start.length = 16 → m ∣ beNat start → i < m →
        beNat start + i < 256 ^ 16 ∧ (beNat start + i) / m = beNat start / m := by
      intro start i hlen hstart hi
      obtain ⟨t, ht⟩ := hm
      obtain ⟨q, hq⟩ := hstart
      have hlt := beNat_lt start
      rw [hlen, ht, hq] at hlt
      have hqt : q < t := Nat.lt_of_mul_lt_mul_left hlt
      have hsucc : m * (q + 1) ≤ m * t := Nat.mul_le_mul_left m hqt
      rw [Nat.mul_succ] at hsucc
      rw [hq, ht]
      refine ⟨by omega, ?_⟩
      rw [Nat.mul_add_div (by omega), Nat.div_eq_of_lt hi, Nat.add_zero, Nat.mul_div_cancel_left _ (by omega)]
    have hvalue := congrArg beNat hadvance
    obtain ⟨hlt, hquot⟩ := hroom hctr hdvd (Nat.lt_of_lt_of_le hj hle)
    obtain ⟨hlt', hquot'⟩ := hroom hctr' hdvd' (Nat.lt_of_lt_of_le hk hle')
    unfold advance at hvalue
    rw [beNat_beBytes, beNat_beBytes, Nat.mod_eq_of_lt hlt, Nat.mod_eq_of_lt hlt'] at hvalue
    rw [hvalue, hquot'] at hquot
    have heq : beNat ctr = beNat ctr' := by
      rw [← Nat.div_mul_cancel hdvd, ← Nat.div_mul_cancel hdvd', hquot]
    refine hne ?_
    rw [← beBytes_beNat ctr, ← beBytes_beNat ctr', hctr, hctr', heq]

end Zway.Ctr
