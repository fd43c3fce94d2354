import Mathlib.Data.Nat.Basic
import Mathlib.Order.RelClasses
import Zway.Lib.FirstFit
import Zway.Lib.Run

/-!
# Locked memory

`SecMem` hands out blocks of a pool of locked memory. It remembers them in a map from
their addresses to their lengths, and `getOffset` walks over that map with an offset and
the length of the gap before the next block, both `uint32_t`.

As long as the recorded blocks are in order, none of this wraps and `getOffset` is a
first fit (`getOffset_eq`). One call after the other keeps them in order, so the rest is
about the library.
-/

namespace Zway

open FirstFit

/-- `SecMem`, after `setup`. -/
structure SecMem where
  /-- Where the pool begins. -/
  lockedData : Nat
  lockedSize : UInt32
  /-- `std::map<uint8_t*, uint32_t>`. -/
  lockedMallocs : List (Nat × UInt32)
  /-- The bytes of the process, by their addresses. -/
  memory : Nat → UInt8

namespace SecMem

/-- The loop of `SecMem::getOffset` over the map, and what comes after it. Every recorded block is in
the pool, so the difference of the pointers is not negative. -/
def getOffsetFrom (s : SecMem) (size : UInt32) (o gap : UInt32) :
    List (Nat × UInt32) → Option UInt32
  | [] =>
      let o := o + gap
      let gap := s.lockedSize - o
      if gap ≠ 0 ∧ size ≤ gap then some o else none
  | it :: its =>
      let tmp := UInt32.ofNat (it.1 - s.lockedData)
      let gap := if o < tmp then tmp - o else 0
      let o := if o < tmp then o else tmp + it.2
      if size ≤ gap then some o else getOffsetFrom s size (tmp + it.2) 0 its

/-- `SecMem::getOffset`. -/
def getOffset (s : SecMem) (size : UInt32) : Option UInt32 :=
  s.getOffsetFrom size 0 0 s.lockedMallocs

/-- What `SecMem::malloc` does with an offset. -/
def record (s : SecMem) (offset size : UInt32) : SecMem :=
  { s with lockedMallocs := OrdMap.insert (s.lockedData + offset.toNat) size s.lockedMallocs }

/-- `SecMem::malloc`. -/
def malloc (s : SecMem) (size : UInt32) : Option Nat × SecMem :=
  if s.lockedSize ≠ 0 then
    match s.getOffset size with
    | some offset => (some (s.lockedData + offset.toNat), s.record offset size)
    | none => (none, s)
  else (none, s)

/-- `SecMem::free`. -/
def free (s : SecMem) (ptr : Nat) : Bool × SecMem :=
  if s.lockedSize ≠ 0 then
    match OrdMap.find? s.lockedMallocs ptr with
    | some size =>
        (true, { s with
          memory := fun a => if ptr ≤ a ∧ a < ptr + size.toNat then 0 else s.memory a
          lockedMallocs := OrdMap.erase ptr s.lockedMallocs })
    | none => (false, s)
  else (false, s)

/-- `SecMem::getLockedSize`. -/
def getLockedSize (s : SecMem) : UInt32 := s.lockedSize

/-- `SecMem::getLockedSizeUsed`. -/
def getLockedSizeUsed (s : SecMem) : UInt32 :=
  s.lockedMallocs.foldl (fun size it => size + it.2) 0

/-- `SecMem::getLockedSizeAvailable`. -/
def getLockedSizeAvailable (s : SecMem) : UInt32 := s.getLockedSize - s.getLockedSizeUsed

/-- The pool as `setup` leaves it. -/
def setUp (lockedData : Nat) (lockedSize : UInt32) (memory : Nat → UInt8) : SecMem where
  lockedData := lockedData
  lockedSize := lockedSize
  lockedMallocs := []
  memory := memory

/-- A call of the interface. -/
inductive Call where
  | malloc (size : UInt32)
  | free (ptr : Nat)
  deriving Repr, DecidableEq

/-- A call that comes to its end. Nobody asks for no bytes. -/
def call (s : SecMem) : Call → Option SecMem
  | .malloc size => if 0 < size then some (s.malloc size).2 else none
  | .free ptr => some (s.free ptr).2

/-- Where the pool ends. -/
def limit (s : SecMem) : Nat := s.lockedData + s.lockedSize.toNat

/-- The recorded blocks. -/
def blocks (s : SecMem) : List (Nat × Nat) := s.lockedMallocs.map fun p => (p.1, p.2.toNat)

/-- The `size` bytes at `ptr` are in the pool and in no block. -/
def Free (s : SecMem) (size : UInt32) (ptr : Nat) : Prop :=
  FreeAt s.lockedData s.limit s.blocks size.toNat ptr

/-- The recorded blocks are in the pool, one behind the other. -/
def Ordered (s : SecMem) : Prop := Packed s.lockedData s.limit s.blocks

@[simp] theorem record_lockedData (s : SecMem) (offset size : UInt32) :
    (s.record offset size).lockedData = s.lockedData := rfl

@[simp] theorem record_limit (s : SecMem) (offset size : UInt32) :
    (s.record offset size).limit = s.limit := rfl

theorem record_blocks (s : SecMem) (offset size : UInt32) :
    (s.record offset size).blocks
      = OrdMap.insert (s.lockedData + offset.toNat) size.toNat s.blocks :=
  OrdMap.map_insert UInt32.toNat _ _ _

theorem setUp_ordered (lockedData : Nat) (lockedSize : UInt32) (memory : Nat → UInt8) :
    (setUp lockedData lockedSize memory).Ordered :=
  Nat.le_add_right ..

/-- The walk from an offset that is not behind the rest of the blocks. -/
theorem getOffsetFrom_eq {s : SecMem} {size : UInt32} (hsize : 0 < size.toNat) :
    ∀ {its : List (Nat × UInt32)} {o : UInt32},
    Packed (s.lockedData + o.toNat) s.limit (its.map fun p => (p.1, p.2.toNat)) →
    (s.getOffsetFrom size o 0 its).map (fun o => s.lockedData + o.toNat)
      = firstFit s.limit size.toNat (s.lockedData + o.toNat)
          (its.map fun p => (p.1, p.2.toNat)) := by
  intro its
  induction its with
  | nil =>
    intro o h
    have hle : s.lockedData + o.toNat ≤ s.lockedData + s.lockedSize.toNat := h
    have hgap : (s.lockedSize - o).toNat = s.lockedSize.toNat - o.toNat :=
      UInt32.toNat_sub_of_le _ _ (by rw [UInt32.le_iff_toNat_le]; omega)
    have hzero : o + 0 = o := UInt32.add_zero o
    have hcond : (s.lockedSize - o ≠ 0 ∧ size ≤ s.lockedSize - o)
        ↔ s.lockedData + o.toNat + size.toNat ≤ s.limit := by
      rw [ne_eq, ← UInt32.toNat_inj, UInt32.le_iff_toNat_le, hgap]
      show ¬ s.lockedSize.toNat - o.toNat = 0 ∧ _ ↔ _ ≤ s.lockedData + s.lockedSize.toNat
      omega
    rw [getOffsetFrom, List.map_nil, firstFit, hzero]
    by_cases hroom : s.lockedData + o.toNat + size.toNat ≤ s.limit
    · rw [if_pos (hcond.mpr hroom), if_pos hroom, Option.map_some]
    · rw [if_neg (fun h => hroom (hcond.mp h)), if_neg hroom, Option.map_none]
  | cons it its ih =>
    intro o h
    rw [List.map_cons] at h ⊢
    obtain ⟨hlow, hpos, hrest⟩ := h
    have hend : it.1 + it.2.toNat ≤ s.lockedData + s.lockedSize.toNat := hrest.le
    change s.lockedData + o.toNat ≤ it.1 at hlow
    have hL := s.lockedSize.toNat_lt
    have htmp : (UInt32.ofNat (it.1 - s.lockedData)).toNat = it.1 - s.lockedData := by
      rw [UInt32.toNat_ofNat']
      omega
    have hnext : (UInt32.ofNat (it.1 - s.lockedData) + it.2).toNat
        = it.1 - s.lockedData + it.2.toNat := by
      rw [UInt32.toNat_add, htmp]
      omega
    have hbehind : s.lockedData + (UInt32.ofNat (it.1 - s.lockedData) + it.2).toNat
        = it.1 + it.2.toNat := by
      rw [hnext]
      omega
    have hih := @ih (UInt32.ofNat (it.1 - s.lockedData) + it.2) (by rw [hbehind]; exact hrest)
    rw [hbehind] at hih
    rw [getOffsetFrom, firstFit]
    dsimp only
    by_cases hgap : o < UInt32.ofNat (it.1 - s.lockedData)
    · have hlen : (UInt32.ofNat (it.1 - s.lockedData) - o).toNat
          = it.1 - s.lockedData - o.toNat := by
        rw [UInt32.toNat_sub_of_le _ _ (UInt32.le_of_lt hgap), htmp]
      rw [if_pos hgap, if_pos hgap]
      by_cases hroom : s.lockedData + o.toNat + size.toNat ≤ it.1
      · rw [if_pos (by rw [UInt32.le_iff_toNat_le, hlen]; omega), if_pos hroom, Option.map_some]
      · rw [if_neg (by rw [UInt32.le_iff_toNat_le, hlen]; omega), if_neg hroom, hih]
    · -- no gap: the block begins at the offset
      have hat : ¬ o.toNat < it.1 - s.lockedData := by
        rw [UInt32.lt_iff_toNat_lt, htmp] at hgap
        exact hgap
      have hnone : ¬ size ≤ 0 := by
        rw [UInt32.le_iff_toNat_le]
        exact Nat.not_le.mpr hsize
      rw [if_neg hgap, if_neg hnone, if_neg (by omega), hih]

/-- **`getOffset` is a first fit.** -/
theorem getOffset_eq {s : SecMem} (h : s.Ordered) {size : UInt32} (hsize : 0 < size.toNat) :
    (s.getOffset size).map (fun o => s.lockedData + o.toNat)
      = firstFit s.limit size.toNat s.lockedData s.blocks :=
  @getOffsetFrom_eq s size hsize s.lockedMallocs 0 h

/-- An offset that is found is free. -/
theorem Ordered.free_of_getOffset {s : SecMem} (h : s.Ordered) {size offset : UInt32}
    (hsize : 0 < size.toNat) (hoffset : s.getOffset size = some offset) :
    s.Free size (s.lockedData + offset.toNat) := by
  have hfit := getOffset_eq h hsize
  rw [hoffset, Option.map_some] at hfit
  exact firstFit_free h hfit.symm

/-- A block recorded in free bytes. -/
theorem Ordered.record {s : SecMem} (h : s.Ordered) {size offset : UInt32}
    (hsize : 0 < size.toNat) (hfree : s.Free size (s.lockedData + offset.toNat)) :
    (s.record offset size).Ordered := by
  unfold Ordered
  rw [record_blocks]
  exact Packed.insert h hsize hfree

theorem malloc_of_getOffset {s : SecMem} {size offset : UInt32} (hpool : s.lockedSize ≠ 0)
    (hoffset : s.getOffset size = some offset) :
    s.malloc size = (some (s.lockedData + offset.toNat), s.record offset size) := by
  unfold malloc
  rw [if_pos hpool, hoffset]

theorem malloc_of_none {s : SecMem} {size : UInt32} (hoffset : s.getOffset size = none) :
    s.malloc size = (none, s) := by
  unfold malloc
  rw [hoffset]
  split <;> rfl

theorem free_of_find {s : SecMem} {ptr : Nat} {size : UInt32} (hpool : s.lockedSize ≠ 0)
    (hfind : OrdMap.find? s.lockedMallocs ptr = some size) :
    s.free ptr = (true, { s with
      memory := fun a => if ptr ≤ a ∧ a < ptr + size.toNat then 0 else s.memory a
      lockedMallocs := OrdMap.erase ptr s.lockedMallocs }) := by
  unfold free
  rw [if_pos hpool, hfind]

theorem free_of_none {s : SecMem} {ptr : Nat} (hfind : OrdMap.find? s.lockedMallocs ptr = none) :
    s.free ptr = (false, s) := by
  unfold free
  rw [hfind]
  split <;> rfl

/-! ## Call after call -/

/-- What the pool owes its callers. -/
structure Allocates (s : SecMem) : Prop where
  inside : ∀ b ∈ s.blocks, s.lockedData ≤ b.1 ∧ 0 < b.2 ∧ b.1 + b.2 ≤ s.limit
  disjoint : s.blocks.Pairwise Apart
  /-- What is used and what is available are the pool. -/
  available : s.getLockedSizeUsed ≤ s.getLockedSize ∧
    s.getLockedSizeUsed.toNat = (s.blocks.map (·.2)).sum ∧
    s.getLockedSizeAvailable.toNat + (s.blocks.map (·.2)).sum = s.lockedSize.toNat
  /-- Where there is no gap, `malloc` returns null and does nothing. -/
  null_iff : ∀ size, 0 < size → ((s.malloc size).1 = none ↔ ¬ ∃ ptr, s.Free size ptr)
  null : ∀ size, 0 < size → (s.malloc size).1 = none → (s.malloc size).2 = s
  /-- Otherwise it records a block at the lowest free address. -/
  lowest : ∀ size ptr, 0 < size → (s.malloc size).1 = some ptr →
    IsLeast {ptr | s.Free size ptr} ptr ∧
      (∀ b, b ∈ (s.malloc size).2.lockedMallocs ↔ b = (ptr, size) ∨ b ∈ s.lockedMallocs) ∧
      (s.malloc size).2.memory = s.memory
  /-- `free` of a block removes it and zeroes its bytes. -/
  freed : ∀ ptr size, (ptr, size) ∈ s.lockedMallocs →
    (s.free ptr).1 = true ∧
      (∀ b, b ∈ (s.free ptr).2.lockedMallocs ↔ b ∈ s.lockedMallocs ∧ b ≠ (ptr, size)) ∧
      ∀ a, (s.free ptr).2.memory a
        = if ptr ≤ a ∧ a < ptr + size.toNat then 0 else s.memory a
  /-- `free` of anything else does nothing. -/
  ignored : ∀ ptr, (∀ size, (ptr, size) ∉ s.lockedMallocs) → s.free ptr = (false, s)

theorem mem_blocks {s : SecMem} {ptr : Nat} {size : UInt32} (h : (ptr, size) ∈ s.lockedMallocs) :
    (ptr, size.toNat) ∈ s.blocks :=
  List.mem_map.mpr ⟨(ptr, size), h, rfl⟩

theorem Ordered.sorted {s : SecMem} (h : s.Ordered) : OrdMap.Sorted s.lockedMallocs :=
  (List.pairwise_map.mp (Packed.sorted h)).imp fun hlt => hlt

/-- A pool with a block is not empty. -/
theorem Ordered.pool {s : SecMem} (h : s.Ordered) {b : Nat × UInt32} (hb : b ∈ s.lockedMallocs) :
    s.lockedSize ≠ 0 := by
  intro hzero
  obtain ⟨hlow, hpos, hend⟩ := Packed.mem h (mem_blocks hb)
  unfold limit at hend
  rw [hzero] at hend
  change b.1 + b.2.toNat ≤ s.lockedData at hend
  omega

/-- Nor is one with free bytes. -/
theorem pool_of_free {s : SecMem} {size : UInt32} {ptr : Nat} (hsize : 0 < size.toNat)
    (hfree : s.Free size ptr) : s.lockedSize ≠ 0 := by
  intro hzero
  obtain ⟨hlow, hend, -⟩ := hfree
  unfold limit at hend
  rw [hzero] at hend
  change ptr + size.toNat ≤ s.lockedData at hend
  omega

/-- No block begins in free bytes. -/
theorem ne_of_free {s : SecMem} (h : s.Ordered) {size : UInt32} {ptr : Nat}
    (hsize : 0 < size.toNat) (hfree : s.Free size ptr) : ∀ b ∈ s.lockedMallocs, b.1 ≠ ptr := by
  intro b hb he
  have hpos := (Packed.mem h (mem_blocks hb)).2.1
  rcases hfree.2.2 _ (mem_blocks hb) with hbefore | hbehind
  · change ptr + size.toNat ≤ b.1 at hbefore
    omega
  · change b.1 + b.2.toNat ≤ ptr at hbehind
    change 0 < b.2.toNat at hpos
    omega

/-- The lengths do not wrap when they are added up. -/
theorem foldl_used (its : List (Nat × UInt32)) : ∀ used : UInt32,
    used.toNat + (its.map fun p => p.2.toNat).sum < 2 ^ 32 →
    (its.foldl (fun size it => size + it.2) used).toNat
      = used.toNat + (its.map fun p => p.2.toNat).sum := by
  induction its with
  | nil => exact fun _ _ => rfl
  | cons it its ih =>
    intro used h
    rw [List.map_cons, List.sum_cons] at h ⊢
    have hadd : (used + it.2).toNat = used.toNat + it.2.toNat := by
      rw [UInt32.toNat_add]
      omega
    rw [List.foldl_cons, ih _ (by rw [hadd]; omega), hadd, Nat.add_assoc]

theorem Ordered.used {s : SecMem} (h : s.Ordered) :
    s.getLockedSizeUsed.toNat = (s.blocks.map (·.2)).sum ∧
      (s.blocks.map (·.2)).sum ≤ s.lockedSize.toNat := by
  have hsum := Packed.sum_le h
  have hL := s.lockedSize.toNat_lt
  have hlimit : s.limit = s.lockedData + s.lockedSize.toNat := rfl
  have hmap : (s.blocks.map (·.2)) = s.lockedMallocs.map fun p => p.2.toNat := by
    unfold blocks
    rw [List.map_map]
    rfl
  have hzero : (0 : UInt32).toNat = 0 := rfl
  rw [hmap] at hsum ⊢
  refine ⟨?_, by omega⟩
  unfold getLockedSizeUsed
  rw [foldl_used _ _ (by rw [hzero]; omega), hzero, Nat.zero_add]

/-- The two ways in which a call of `malloc` ends. -/
theorem Ordered.malloc_cases {s : SecMem} (h : s.Ordered) {size : UInt32} (hsize : 0 < size.toNat) :
    (s.malloc size = (none, s) ∧ ¬ ∃ ptr, s.Free size ptr) ∨
      ∃ offset, s.malloc size = (some (s.lockedData + offset.toNat), s.record offset size) ∧
        IsLeast {ptr | s.Free size ptr} (s.lockedData + offset.toNat) := by
  have hfit := getOffset_eq h hsize
  cases hoffset : s.getOffset size with
  | none =>
    rw [hoffset, Option.map_none] at hfit
    exact .inl ⟨malloc_of_none hoffset, (firstFit_eq_none_iff h).mp hfit.symm⟩
  | some offset =>
    rw [hoffset, Option.map_some] at hfit
    have hleast := firstFit_isLeast h hfit.symm
    exact .inr ⟨offset, malloc_of_getOffset (pool_of_free hsize hleast.1) hoffset, hleast⟩

theorem Ordered.allocates {s : SecMem} (h : s.Ordered) : Allocates s := by
  obtain ⟨hused, hle⟩ := h.used
  have hused_le : s.getLockedSizeUsed ≤ s.lockedSize := by
    rw [UInt32.le_iff_toNat_le, hused]
    exact hle
  refine ⟨fun b hb => Packed.mem h hb, Packed.apart h, ⟨hused_le, hused, ?_⟩, ?_, ?_, ?_, ?_, ?_⟩
  · have hsub := UInt32.toNat_sub_of_le _ _ hused_le
    show (s.lockedSize - s.getLockedSizeUsed).toNat + _ = _
    omega
  · intro size hsize
    rcases h.malloc_cases hsize with ⟨hmalloc, hno⟩ | ⟨offset, hmalloc, hleast⟩
    · rw [hmalloc]
      exact ⟨fun _ => hno, fun _ => rfl⟩
    · rw [hmalloc]
      exact ⟨fun hnone => absurd hnone (by simp), fun hno => absurd ⟨_, hleast.1⟩ hno⟩
  · intro size hsize hnone
    rcases h.malloc_cases hsize with ⟨hmalloc, _⟩ | ⟨offset, hmalloc, _⟩
    · rw [hmalloc]
    · rw [hmalloc] at hnone
      exact absurd hnone (by simp)
  · intro size ptr hsize hsome
    rcases h.malloc_cases hsize with ⟨hmalloc, _⟩ | ⟨offset, hmalloc, hleast⟩
    · rw [hmalloc] at hsome
      exact absurd hsome (by simp)
    · rw [hmalloc] at hsome ⊢
      obtain rfl := Option.some.inj hsome
      exact ⟨hleast, fun b => OrdMap.mem_insert_iff h.sorted (ne_of_free h hsize hleast.1) size, rfl⟩
  · intro ptr size hb
    have hfind := OrdMap.find?_of_mem h.sorted hb
    rw [free_of_find (h.pool hb) hfind]
    refine ⟨rfl, fun b => ?_, fun a => rfl⟩
    show b ∈ s.lockedMallocs.filter _ ↔ _
    rw [List.mem_filter]
    refine and_congr_right fun hmem => ?_
    rw [decide_eq_true_iff]
    constructor
    · intro hne he
      exact hne (congrArg Prod.fst he)
    · intro hne he
      have hsame := OrdMap.find?_of_mem h.sorted hmem
      rw [he, hfind] at hsame
      exact hne (Prod.ext he (Option.some.inj hsame).symm)
  · intro ptr hnone
    cases hfind : OrdMap.find? s.lockedMallocs ptr with
    | none => exact free_of_none hfind
    | some size => exact absurd (OrdMap.mem_of_find? hfind) (hnone size)

/-- The invariant of a run. -/
structure Inv (lockedData : Nat) (lockedSize : UInt32) (s : SecMem) : Prop where
  lockedData : s.lockedData = lockedData
  lockedSize : s.lockedSize = lockedSize
  ordered : s.Ordered

/-- `free` takes out what begins at the pointer. -/
theorem Ordered.free_blocks {s : SecMem} (h : s.Ordered) (ptr : Nat) :
    (s.free ptr).2.blocks = OrdMap.erase ptr s.blocks := by
  have herase : s.blocks = s.lockedMallocs.map fun p => (p.1, p.2.toNat) := rfl
  cases hfind : OrdMap.find? s.lockedMallocs ptr with
  | none =>
    have hne := OrdMap.ne_of_find?_none hfind
    have hsame : OrdMap.erase ptr s.lockedMallocs = s.lockedMallocs :=
      List.filter_eq_self.mpr fun p hp => decide_eq_true (hne p hp)
    rw [free_of_none hfind, herase, ← OrdMap.map_erase, hsame]
  | some size =>
    rw [free_of_find (h.pool (OrdMap.mem_of_find? hfind)) hfind, herase, ← OrdMap.map_erase]
    exact rfl

theorem free_pool (s : SecMem) (ptr : Nat) :
    (s.free ptr).2.lockedData = s.lockedData ∧ (s.free ptr).2.lockedSize = s.lockedSize := by
  unfold SecMem.free
  split
  · split <;> exact ⟨rfl, rfl⟩
  · exact ⟨rfl, rfl⟩

/-- `free` keeps the order. -/
theorem Ordered.free {s : SecMem} (h : s.Ordered) (ptr : Nat) : (s.free ptr).2.Ordered := by
  obtain ⟨hdata, hsize⟩ := s.free_pool ptr
  unfold Ordered limit
  rw [hdata, hsize, h.free_blocks]
  exact Packed.erase h ptr

theorem Inv.call {lockedData : Nat} {lockedSize : UInt32} {s s' : SecMem} {c : Call}
    (h : Inv lockedData lockedSize s) (hcall : s.call c = some s') :
    Inv lockedData lockedSize s' := by
  cases c with
  | malloc size =>
    change (if 0 < size then some (s.malloc size).2 else none) = some s' at hcall
    split at hcall
    · rename_i hsize
      obtain rfl := Option.some.inj hcall
      rcases h.ordered.malloc_cases hsize with ⟨hmalloc, _⟩ | ⟨offset, hmalloc, hleast⟩
      · rw [hmalloc]
        exact h
      · rw [hmalloc]
        exact ⟨h.lockedData, h.lockedSize, h.ordered.record hsize hleast.1⟩
    · cases hcall
  | free ptr =>
    obtain rfl := Option.some.inj hcall
    obtain ⟨hdata, hsize⟩ := s.free_pool ptr
    exact ⟨hdata.trans h.lockedData, hsize.trans h.lockedSize, h.ordered.free ptr⟩

/-- **After any calls, one at a time, the pool is sound.** -/
theorem allocates_of_run {lockedData : Nat} {lockedSize : UInt32} {memory : Nat → UInt8}
    {calls : List Call} {s : SecMem}
    (hrun : Steps.run call (setUp lockedData lockedSize memory) calls = some s) :
    s.lockedData = lockedData ∧ s.lockedSize = lockedSize ∧ Allocates s := by
  have hinv : Inv lockedData lockedSize s :=
    Steps.run_invariant (fun _ _ _ h hcall => h.call hcall)
      ⟨rfl, rfl, setUp_ordered lockedData lockedSize memory⟩ hrun
  exact ⟨hinv.lockedData, hinv.lockedSize, hinv.ordered.allocates⟩

/-- A hole that is filled, and a call that fails. -/
theorem allocates_hole : ∃ s,
    Steps.run call (setUp 4096 64 fun _ => 7)
        [.malloc 16, .malloc 48, .free 4096, .malloc 17, .malloc 16, .free 5000] = some s ∧
      Allocates s :=
  ⟨_, rfl, (@allocates_of_run 4096 64 (fun _ => 7)
    [.malloc 16, .malloc 48, .free 4096, .malloc 17, .malloc 16, .free 5000] _ rfl).2.2⟩

end SecMem

end Zway
