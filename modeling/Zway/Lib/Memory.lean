import Zway.Lib.Bytes

/-!
# A flat memory

The byte at every address, and the two things that are done with it: a number of bytes is read
from an address on, or bytes are written there. Bytes that are read apart from those that were
written are as they were, and what was written is read.
-/

namespace Zway

/-- The byte at each address. -/
abbrev Memory := Nat → UInt8

namespace Memory

def read (mem : Memory) (addr n : Nat) : Bytes := (List.range n).map (fun i => mem (addr + i))

def write (mem : Memory) (addr : Nat) (bs : Bytes) : Memory := fun i =>
  if addr ≤ i ∧ i < addr + bs.length then bs.getD (i - addr) 0 else mem i

@[simp] theorem read_length (mem : Memory) (addr n : Nat) : (mem.read addr n).length = n := by
  simp [read]

theorem read_add (mem : Memory) (addr m n : Nat) :
    mem.read addr (m + n) = mem.read addr m ++ mem.read (addr + m) n := by
  simp [read, List.range_add, Function.comp_def, Nat.add_assoc]

/-- What is read depends on what is there. -/
theorem read_congr {mem mem' : Memory} {addr n : Nat}
    (h : ∀ i, addr ≤ i → i < addr + n → mem i = mem' i) : mem.read addr n = mem'.read addr n := by
  unfold read
  refine List.map_congr_left ?_
  intro i hi
  have hlt := List.mem_range.mp hi
  exact h (addr + i) (by omega) (by omega)

theorem write_outside (mem : Memory) {addr i : Nat} {bs : Bytes}
    (h : i < addr ∨ addr + bs.length ≤ i) : mem.write addr bs i = mem i := by
  unfold write
  rw [if_neg (by omega)]

/-- What is written is there. -/
theorem read_write_self (mem : Memory) (addr : Nat) (bs : Bytes) :
    (mem.write addr bs).read addr bs.length = bs := by
  have hbyte : ∀ i < bs.length, mem.write addr bs (addr + i) = bs.getD i 0 := by
    intro i hi
    unfold write
    rw [if_pos ⟨by omega, by omega⟩, Nat.add_sub_cancel_left]
  have hread : (mem.write addr bs).read addr bs.length
      = (List.range bs.length).map (fun i => bs.getD i 0) :=
    List.map_congr_left (fun i hi => hbyte i (List.mem_range.mp hi))
  rw [hread]
  refine List.ext_getElem (by simp) ?_
  intro i hi hi'
  simp [List.getD_eq_getElem?_getD, hi']

end Memory

end Zway
