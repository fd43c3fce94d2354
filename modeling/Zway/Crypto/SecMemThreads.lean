import Mathlib.Logic.Function.Basic
import Zway.Crypto.SecMem

/-!
# Locked memory and threads

`SecMem::malloc` holds the mutex twice: `getOffset` looks for free bytes, and a section of
its own records them. Here these are two steps of a thread, `find` and `record`, and
`SecMem::free` is one. In between, another thread may find the same bytes.

A block that was recorded since is what makes the difference. A `free`, or a search of
another thread, leaves free bytes free.
-/

namespace Zway.SecMem

open FirstFit

/-- What a thread has found and not recorded yet. -/
structure Found where
  offset : UInt32
  size : UInt32
  /-- How many blocks had been recorded by then. -/
  records : Nat
  deriving Repr, DecidableEq

/-- The pool and its threads. -/
structure Threads where
  secMem : SecMem
  /-- The calls of `malloc` between their two sections. -/
  found : Nat → Option Found
  /-- The blocks that `malloc` has returned and nobody has freed yet. -/
  live : List (Nat × Nat)
  /-- How many blocks have been recorded. -/
  records : Nat

/-- A section that holds the mutex, and the thread that holds it. -/
inductive Section where
  | find (thread : Nat) (size : UInt32)
  | record (thread : Nat)
  | free (thread : Nat) (ptr : Nat)
  deriving Repr, DecidableEq

namespace Threads

/-- Threads over a pool as `setup` leaves it. -/
def start (s : SecMem) : Threads := { secMem := s, found := fun _ => none, live := [], records := 0 }

/-- The first section of `malloc`, which is also its last if there is no room. -/
def find (s : Threads) (thread : Nat) (size : UInt32) : Threads :=
  if s.secMem.lockedSize ≠ 0 then
    match s.secMem.getOffset size with
    | some offset =>
        { s with found := Function.update s.found thread (some ⟨offset, size, s.records⟩) }
    | none => s
  else s

/-- The second section of `malloc`. -/
def record (s : Threads) (thread : Nat) (f : Found) : Threads where
  secMem := s.secMem.record f.offset f.size
  found := Function.update s.found thread none
  live := (s.secMem.lockedData + f.offset.toNat, f.size.toNat) :: s.live
  records := s.records + 1

/-- `free`. A block that begins at the pointer is no longer live. -/
def free (s : Threads) (ptr : Nat) : Threads :=
  { s with secMem := (s.secMem.free ptr).2, live := s.live.eraseP fun b => b.1 = ptr }

/-- One section. A thread between the sections of `malloc` does nothing else. -/
def step (s : Threads) : Section → Option Threads
  | .find thread size => if s.found thread = none ∧ 0 < size then some (s.find thread size) else none
  | .record thread => (s.found thread).map (s.record thread)
  | .free thread ptr => if s.found thread = none then some (s.free ptr) else none

/-- No two live blocks overlap. -/
def NoOverlap (s : Threads) : Prop := s.live.Pairwise Apart

instance (s : Threads) : Decidable s.NoOverlap := inferInstanceAs (Decidable (s.live.Pairwise Apart))

/-- Between the two sections of a `malloc`, no other `malloc` has recorded a block. -/
def Undisturbed (s : Threads) : Section → Prop
  | .record thread => ∀ f, s.found thread = some f → f.records = s.records
  | .find _ _ => True
  | .free _ _ => True

/-- The invariant of a run without disturbance. -/
structure Inv (s : Threads) : Prop where
  ordered : s.secMem.Ordered
  /-- The live blocks are the recorded ones. -/
  live : s.live.Perm s.secMem.blocks
  pos : ∀ thread f, s.found thread = some f → 0 < f.size.toNat
  le : ∀ thread f, s.found thread = some f → f.records ≤ s.records
  /-- What was found since the last block was recorded is still free. -/
  free : ∀ thread f, s.found thread = some f → f.records = s.records →
    s.secMem.Free f.size (s.secMem.lockedData + f.offset.toNat)

theorem Inv.noOverlap {s : Threads} (h : s.Inv) : s.NoOverlap :=
  (h.live.pairwise_iff fun hapart => hapart.symm).mpr (Packed.apart h.ordered)

theorem inv_start (lockedData : Nat) (lockedSize : UInt32) (memory : Nat → UInt8) :
    (start (setUp lockedData lockedSize memory)).Inv where
  ordered := setUp_ordered lockedData lockedSize memory
  live := List.Perm.refl _
  pos := fun _ _ hf => by cases hf
  le := fun _ _ hf => by cases hf
  free := fun _ _ hf => by cases hf

/-- Looking for free bytes. -/
theorem Inv.find {s : Threads} (h : s.Inv) (thread : Nat) {size : UInt32} (hsize : 0 < size.toNat) :
    (s.find thread size).Inv := by
  unfold Threads.find
  split
  · cases hoffset : s.secMem.getOffset size with
    | none => exact h
    | some offset =>
      have hfree := h.ordered.free_of_getOffset hsize hoffset
      refine ⟨h.ordered, h.live, ?_, ?_, ?_⟩
      · intro thread' f hf
        change Function.update s.found thread _ thread' = some f at hf
        rw [Function.update_apply] at hf
        split at hf
        · obtain rfl := Option.some.inj hf
          exact hsize
        · exact h.pos thread' f hf
      · intro thread' f hf
        change Function.update s.found thread _ thread' = some f at hf
        rw [Function.update_apply] at hf
        split at hf
        · obtain rfl := Option.some.inj hf
          exact Nat.le_refl _
        · exact h.le thread' f hf
      · intro thread' f hf hrecords
        change Function.update s.found thread _ thread' = some f at hf
        rw [Function.update_apply] at hf
        split at hf
        · obtain rfl := Option.some.inj hf
          exact hfree
        · exact h.free thread' f hf hrecords
  · exact h

/-- Recording what is still free. Whatever else has been found is out of date after it. -/
theorem Inv.record {s : Threads} (h : s.Inv) {thread : Nat} {f : Found}
    (hf : s.found thread = some f) (hrecords : f.records = s.records) : (s.record thread f).Inv := by
  have hpos := h.pos thread f hf
  have hfree := h.free thread f hf hrecords
  have hother : ∀ thread' f', Function.update s.found thread none thread' = some f' →
      s.found thread' = some f' := by
    intro thread' f' hf'
    rw [Function.update_apply] at hf'
    split at hf'
    · cases hf'
    · exact hf'
  refine ⟨h.ordered.record hpos hfree, ?_, ?_, ?_, ?_⟩
  · have hinsert := record_blocks s.secMem f.offset f.size
    have hne : ∀ b ∈ s.secMem.blocks, b.1 ≠ s.secMem.lockedData + f.offset.toNat := by
      intro b hb
      obtain ⟨p, hp, rfl⟩ := List.mem_map.mp hb
      exact ne_of_free h.ordered hpos hfree p hp
    obtain ⟨before, behind, hsplit, hsplit', -, -⟩ :=
      OrdMap.insert_split (Packed.sorted h.ordered) hne f.size.toNat
    show ((_, _) :: s.live).Perm (s.secMem.record f.offset f.size).blocks
    rw [hinsert, hsplit']
    exact (h.live.cons _).trans (hsplit ▸ List.perm_middle.symm)
  · exact fun thread' f' hf' => h.pos thread' f' (hother thread' f' hf')
  · exact fun thread' f' hf' => Nat.le_succ_of_le (h.le thread' f' (hother thread' f' hf'))
  · intro thread' f' hf' hrecords'
    have hle := h.le thread' f' (hother thread' f' hf')
    change f'.records = s.records + 1 at hrecords'
    omega

/-- In a map, one block at most begins at a pointer. -/
theorem eraseP_eq_erase {bs : List (Nat × Nat)} (h : OrdMap.Sorted bs) (ptr : Nat) :
    bs.eraseP (fun b => b.1 = ptr) = OrdMap.erase ptr bs := by
  induction bs with
  | nil => rfl
  | cons b bs ih =>
    obtain ⟨hb, hbs⟩ := List.pairwise_cons.mp h
    by_cases he : b.1 = ptr
    · have hrest : bs.filter (fun c => c.1 ≠ ptr) = bs := by
        refine List.filter_eq_self.mpr fun c hc => decide_eq_true fun hc' => ?_
        have := hb c hc
        omega
      rw [List.eraseP_cons_of_pos (by simp [he]), OrdMap.erase,
        List.filter_cons_of_neg (by simp [he]), hrest]
    · rw [List.eraseP_cons_of_neg (by simp [he]), OrdMap.erase,
        List.filter_cons_of_pos (by simp [he]), ih hbs]
      rfl

/-- A block given back. -/
theorem Inv.freed {s : Threads} (h : s.Inv) (ptr : Nat) : (s.free ptr).Inv := by
  obtain ⟨hdata, hsize⟩ := s.secMem.free_pool ptr
  have hblocks := h.ordered.free_blocks ptr
  refine ⟨h.ordered.free ptr, ?_, h.pos, h.le, ?_⟩
  · show (s.live.eraseP _).Perm (s.secMem.free ptr).2.blocks
    have hsorted := Packed.sorted h.ordered
    have hdistinct : s.live.Pairwise fun b c =>
        decide (b.1 = ptr) = true → ¬ decide (c.1 = ptr) = true := by
      have hkeys : s.secMem.blocks.Pairwise fun b c => b.1 ≠ c.1 := hsorted.imp fun hlt => Nat.ne_of_lt hlt
      have hlive := (h.live.pairwise_iff fun hne => hne.symm).mpr hkeys
      refine hlive.imp fun hne hb hc => hne ?_
      exact (of_decide_eq_true hb).trans (of_decide_eq_true hc).symm
    rw [hblocks, ← eraseP_eq_erase hsorted]
    exact h.live.eraseP _ hdistinct
  · intro thread f hf hrecords
    have hfree := h.free thread f hf hrecords
    show FreeAt (s.secMem.free ptr).2.lockedData (s.secMem.free ptr).2.limit
      (s.secMem.free ptr).2.blocks f.size.toNat ((s.secMem.free ptr).2.lockedData + f.offset.toNat)
    unfold limit
    rw [hdata, hsize, hblocks]
    exact hfree.of_subset fun b hb => (List.mem_filter.mp hb).1

theorem Inv.step {s s' : Threads} {e : Section} (h : s.Inv) (hgood : s.Undisturbed e)
    (hstep : s.step e = some s') : s'.Inv := by
  cases e with
  | find thread size =>
    change (if _ ∧ 0 < size then some (s.find thread size) else none) = some s' at hstep
    split at hstep
    · rename_i hidle
      obtain rfl := Option.some.inj hstep
      exact h.find thread hidle.2
    · cases hstep
  | record thread =>
    obtain ⟨f, hf, rfl⟩ := Option.map_eq_some_iff.mp hstep
    exact h.record hf (hgood f hf)
  | free thread ptr =>
    change (if _ then some (s.free ptr) else none) = some s' at hstep
    split at hstep
    · obtain rfl := Option.some.inj hstep
      exact h.freed ptr
    · cases hstep

/-- **Without disturbance, live blocks never overlap.** -/
theorem noOverlap_of_undisturbed {lockedData : Nat} {lockedSize : UInt32} {memory : Nat → UInt8}
    {sections : List Section} {s : Threads}
    (hmeets : Steps.Meets step Undisturbed (start (setUp lockedData lockedSize memory)) sections)
    (hrun : Steps.run step (start (setUp lockedData lockedSize memory)) sections = some s) :
    s.NoOverlap := by
  have hinv : s.Inv :=
    Steps.run_invariant_of_meets (fun _ _ _ h hgood hstep => h.step hgood hstep)
      (inv_start lockedData lockedSize memory) hmeets hrun
  exact hinv.noOverlap

/-- Another thread searches and a third one frees, between the two sections. -/
theorem noOverlap_mixed : ∃ s,
    Steps.run step (start (setUp 4096 64 fun _ => 0))
        [.find 0 16, .record 0, .find 1 32, .free 0 4096, .find 2 8, .record 1] = some s ∧
      s.NoOverlap :=
  ⟨_, rfl, @noOverlap_of_undisturbed 4096 64 (fun _ => 0)
    [.find 0 16, .record 0, .find 1 32, .free 0 4096, .find 2 8, .record 1] _
    (.cons trivial rfl (.cons (fun f hf => by cases hf; rfl) rfl (.cons trivial rfl
      (.cons trivial rfl (.cons trivial rfl (.cons (fun f hf => by cases hf; rfl) rfl trivial))))))
    rfl⟩

/-- Two threads find the same bytes. -/
theorem not_noOverlap : ∃ s,
    Steps.run step (start (setUp 4096 64 fun _ => 0))
        [.find 0 16, .find 1 16, .record 0, .record 1] = some s ∧
      ¬ s.NoOverlap :=
  ⟨_, rfl, by decide⟩

end Threads

end Zway.SecMem
