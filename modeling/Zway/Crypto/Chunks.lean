import Mathlib.Data.List.Forall2
import Zway.Crypto.Aes
import Zway.Lib.Memory

/-!
# Encryption in memory

`AES::encrypt` reads the text from memory and puts it, chunk by chunk, where it came from, into
another place, or, without a destination, each time into the same scratch buffer. The callback is
shown what was put there.

Several calls of one `AES` encrypt one text, as long as all pieces but the last one are whole
blocks: `chunks_crypted`.
-/

namespace Zway.AES

/-- Where a call puts the text: to `dst`, or, if that is null, into the scratch buffer `tmp`. -/
inductive Place where
  | into (dst : Nat)
  | scratch (tmp : Nat)
  deriving Repr, DecidableEq

/-- `d`, in the loop. -/
def Place.at : Place → (bytesDone : Nat) → Nat
  | into dst, bytesDone => dst + bytesDone
  | scratch tmp, _ => tmp

section

-- the cipher with a key, on one block
variable (aes_encrypt : Bytes → Bytes → Bytes)

section

variable {σ : Type} (callback : Bytes → (bytes total size : UInt32) → σ → Bool × σ)

/-- The loop of `AES::encrypt` and `AES::decrypt` in memory: what is returned, the memory, the
context, and what the callback keeps. -/
def cryptAt (src : Nat) (place : Place) (size : UInt32) (mem : Memory) (a : AES) (bytesDone : UInt32)
    (st : σ) : Bool × Memory × AES × σ :=
  if bytesDone < size then
    let bytesToDo := chunkSize size bytesDone
    let d := place.at bytesDone.toNat
    let c := a.ctr_crypt aes_encrypt (mem.read (src + bytesDone.toNat) bytesToDo.toNat)
    let mem := mem.write d c.2
    match callback (mem.read d bytesToDo.toNat) bytesToDo (bytesDone + bytesToDo) size st with
    | (false, st) => (false, mem, c.1, st)
    | (true, st) => cryptAt src place size mem c.1 (bytesDone + bytesToDo) st
  else (true, mem, a, st)
termination_by size.toNat - bytesDone.toNat
decreasing_by
  have h : bytesDone < size := ‹_›
  have hlt := UInt32.lt_iff_toNat_lt.mp h
  rw [add_chunkSize_toNat h]
  omega

/-- `AES::encrypt`. -/
def encryptAt (src : Nat) (place : Place) (size : UInt32) (mem : Memory) (a : AES) (st : σ) :
    Bool × Memory × AES × σ :=
  cryptAt aes_encrypt callback src place size mem a 0 st

/-- `AES::decrypt`. -/
def decryptAt (src : Nat) (place : Place) (size : UInt32) (mem : Memory) (a : AES) (st : σ) :
    Bool × Memory × AES × σ :=
  cryptAt aes_encrypt callback src place size mem a 0 st

end

/-! ## Several calls -/

/-- What a callback is called with. -/
structure Chunk where
  data : Bytes
  bytes : UInt32
  total : UInt32
  size : UInt32
  deriving Repr, DecidableEq

/-- A callback that keeps everything. -/
def keep (data : Bytes) (bytes total size : UInt32) (chunks : List Chunk) : Bool × List Chunk :=
  (true, chunks ++ [⟨data, bytes, total, size⟩])

/-- A call: where the text goes, and how long it is. -/
structure Call where
  place : Place
  size : UInt32
  deriving Repr, DecidableEq

/-- What comes of a call: what it returns, the text, and what the callback has seen. The text is in
the destination; without one the callback has seen it. -/
structure Result where
  ok : Bool
  text : Bytes
  chunks : List Chunk
  deriving Repr, DecidableEq

def Result.of (call : Call) (ok : Bool) (mem : Memory) (chunks : List Chunk) : Result where
  ok := ok
  text :=
    match call.place with
    | .into dst => mem.read dst call.size.toNat
    | .scratch _ => (chunks.map (·.data)).flatten
  chunks := chunks

/-- One call after the other, on the text from `src` on. -/
def crypts (crypt : Nat → Place → UInt32 → Memory → AES → List Chunk → Bool × Memory × AES × List Chunk) :
    Nat → Memory → AES → List Call → Memory × AES × List Result
  | _, mem, a, [] => (mem, a, [])
  | src, mem, a, call :: calls =>
      let r := crypt src call.place call.size mem a []
      let rest := crypts crypt (src + call.size.toNat) r.2.1 r.2.2.1 calls
      (rest.1, rest.2.1, .of call r.1 r.2.1 r.2.2.2 :: rest.2.2)

def encrypts : Nat → Memory → AES → List Call → Memory × AES × List Result :=
  crypts (encryptAt aes_encrypt keep)

def decrypts : Nat → Memory → AES → List Call → Memory × AES × List Result :=
  crypts (decryptAt aes_encrypt keep)

end

/-! ## What is said of them -/

/-- How much the calls encrypt. -/
def total : List Call → Nat
  | [] => 0
  | call :: calls => call.size.toNat + total calls

/-- What a call writes is its own text, or apart from what is still to be read: `left` bytes. -/
def Place.Safe (place : Place) (src left : Nat) (size : UInt32) : Prop :=
  match place with
  | .into dst => dst = src ∨ dst + size.toNat ≤ src ∨ src + left ≤ dst
  | .scratch tmp => tmp + 1024 ≤ src ∨ src + left ≤ tmp

def Safe : Nat → List Call → Prop
  | _, [] => True
  | src, call :: calls =>
      call.place.Safe src (total (call :: calls)) call.size ∧ Safe (src + call.size.toNat) calls

/-- **The chunks follow each other**, from `n` bytes on to the end of the piece. -/
def Contiguous (size : UInt32) : Nat → List Chunk → Prop
  | n, [] => n = size.toNat
  | n, c :: cs =>
      c.data.length = c.bytes.toNat ∧ 0 < c.bytes.toNat ∧ c.total.toNat = n + c.bytes.toNat
        ∧ c.size = size ∧ Contiguous size c.total.toNat cs

/-- The callback of a call has seen the text, once and in order. -/
def Result.Covers (r : Result) (size : UInt32) : Prop :=
  Contiguous size 0 r.chunks ∧ (r.chunks.map (·.data)).flatten = r.text

/-! ## One call -/

/-- Where the loop writes between two numbers of bytes. -/
def Place.Writes (place : Place) (m n i : Nat) : Prop :=
  match place with
  | .into dst => dst + m ≤ i ∧ i < dst + n
  | .scratch tmp => tmp ≤ i ∧ i < tmp + 1024

/-- What the loop has done from `n` bytes on, when it is through. -/
structure Done (place : Place) (size : UInt32) (n : Nat) (mem mem' : Memory) (chunks : List Chunk)
    (text : Bytes) : Prop where
  contiguous : Contiguous size n chunks
  shown : (chunks.map (·.data)).flatten = text
  stored : ∀ dst, place = .into dst → mem'.read (dst + n) (size.toNat - n) = text
  outside : ∀ i, ¬ place.Writes n size.toNat i → mem' i = mem i

/-- A safe call leaves alone what is still to be read. -/
theorem Place.Safe.not_writes {place : Place} {src left : Nat} {size : UInt32}
    (hsafe : place.Safe src left size) {m n i : Nat} (_ : n ≤ size.toNat) (_ : src + n ≤ i)
    (_ : i < src + left) : ¬ place.Writes m n i := by
  cases place with
  | into dst =>
    rintro ⟨hi, hi'⟩
    rcases hsafe with rfl | hbelow | habove
    · omega
    · omega
    · omega
  | scratch tmp =>
    rintro ⟨hi, hi'⟩
    rcases hsafe with hbelow | habove
    · omega
    · omega

theorem Place.Writes.mono {place : Place} {m m' n n' i : Nat} (h : place.Writes m n i)
    (hm : m' ≤ m) (hn : n ≤ n') : place.Writes m' n' i := by
  cases place with
  | into dst =>
    obtain ⟨hlo, hhi⟩ := h
    exact ⟨by omega, by omega⟩
  | scratch tmp => exact h

/-- A chunk is written where the loop is. -/
theorem write_outside_chunk {place : Place} {mem : Memory} {n i : Nat} {bs : Bytes}
    (hbs : bs.length ≤ 1024) (h : ¬ place.Writes n (n + bs.length) i) :
    mem.write (place.at n) bs i = mem i := by
  refine mem.write_outside ?_
  cases place with
  | into dst =>
    show i < dst + n ∨ dst + n + bs.length ≤ i
    by_cases hlo : dst + n ≤ i
    · exact .inr (Nat.not_lt.mp (fun hlt => h ⟨hlo, by omega⟩))
    · exact .inl (Nat.not_le.mp hlo)
  | scratch tmp =>
    show i < tmp ∨ tmp + bs.length ≤ i
    by_cases hlo : tmp ≤ i
    · exact .inr (Nat.not_lt.mp (fun hlt => h ⟨hlo, by omega⟩))
    · exact .inl (Nat.not_le.mp hlo)

section

variable (aes_encrypt : Bytes → Bytes → Bytes)

/-- **The loop is counter mode**, wherever the text goes. -/
theorem cryptAt_keep {src left : Nat} {place : Place} {size : UInt32}
    (hsafe : place.Safe src left size) (hleft : size.toNat ≤ left) {n : UInt32} (hn : n ≤ size)
    (hdvd : n = size ∨ 16 ∣ n.toNat) (mem : Memory) {a : AES} (hctr : a.ctr.length = 16)
    (chunks : List Chunk) :
    ∃ mem' chunks', cryptAt aes_encrypt keep src place size mem a n chunks
        = (true, mem', (a.ctr_crypt aes_encrypt (mem.read (src + n.toNat) (size.toNat - n.toNat))).1,
          chunks ++ chunks')
      ∧ Done place size n.toNat mem mem' chunks'
        (a.ctr_crypt aes_encrypt (mem.read (src + n.toNat) (size.toNat - n.toNat))).2 := by
  generalize hm : size.toNat - n.toNat = m
  induction m using Nat.strong_induction_on generalizing n mem a chunks with
  | _ m ih =>
    by_cases hlt : n < size
    · have hnat := UInt32.lt_iff_toNat_lt.mp hlt
      have hk := chunkSize_toNat hlt
      have hnk := add_chunkSize_toNat hlt
      have hdvd' : 16 ∣ n.toNat := hdvd.resolve_left (fun he => by rw [he] at hnat; omega)
      generalize hkdef : (chunkSize size n).toNat = k at hk
      have hnext : (n + chunkSize size n).toNat = n.toNat + k := by rw [hnk, hk]
      -- the chunk, and what is left after it
      have hsplit : mem.read (src + n.toNat) m = mem.read (src + n.toNat) k
          ++ mem.read (src + n.toNat + k) (m - k) := by
        rw [← mem.read_add]
        congr 1
        omega
      have hwhole : 16 ∣ (mem.read (src + n.toNat) k).length
          ∨ mem.read (src + n.toNat + k) (m - k) = [] := by
        rw [Memory.read_length]
        by_cases hlast : size.toNat - n.toNat ≤ 1024
        · refine .inr (List.eq_nil_of_length_eq_zero ?_)
          rw [Memory.read_length]
          omega
        · exact .inl (by omega)
      have hcrypt := Ctr.crypt_append (aes_encrypt a.key) a.ctr hwhole
      rw [← hsplit] at hcrypt
      rw [cryptAt, if_pos hlt]
      dsimp only [keep]
      rw [hkdef]
      generalize hc : a.ctr_crypt aes_encrypt (mem.read (src + n.toNat) k) = c
      have hclen : c.2.length = k := by
        rw [← hc]
        exact (Ctr.crypt_length ..).trans (Memory.read_length ..)
      have hctr' : c.1.ctr.length = 16 := by
        rw [← hc]
        exact Ctr.crypt_ctr_length (aes_encrypt a.key) ..
      have hshown : (mem.write (place.at n.toNat) c.2).read (place.at n.toNat) k = c.2 := by
        rw [← hclen]
        exact Memory.read_write_self ..
      have houtside : ∀ i, ¬ place.Writes n.toNat (n.toNat + k) i →
          mem.write (place.at n.toNat) c.2 i = mem i := by
        intro i hi
        refine write_outside_chunk (by omega) ?_
        rw [hclen]
        exact hi
      have hrest : (mem.write (place.at n.toNat) c.2).read (src + n.toNat + k) (m - k)
          = mem.read (src + n.toNat + k) (m - k) := by
        refine Memory.read_congr ?_
        intro i hlo hhi
        exact houtside i (hsafe.not_writes (by omega) (by omega) (by omega))
      have hle : n + chunkSize size n ≤ size := by
        rw [UInt32.le_iff_toNat_le, hnext]
        omega
      have hdone : n + chunkSize size n = size ∨ 16 ∣ (n + chunkSize size n).toNat := by
        rw [← UInt32.toNat_inj, hnext]
        omega
      obtain ⟨mem', chunks', hloop, hafter⟩ := ih (m - k) (by omega) hle hdone
        (mem.write (place.at n.toNat) c.2) hctr'
        (chunks ++ [⟨c.2, chunkSize size n, n + chunkSize size n, size⟩]) (by rw [hnext]; omega)
      rw [hnext, ← Nat.add_assoc, hrest] at hloop hafter
      have htext : a.ctr_crypt aes_encrypt (mem.read (src + n.toNat) m)
          = ((c.1.ctr_crypt aes_encrypt (mem.read (src + n.toNat + k) (m - k))).1,
            c.2 ++ (c.1.ctr_crypt aes_encrypt (mem.read (src + n.toNat + k) (m - k))).2) := by
        rw [← hc]
        unfold ctr_crypt
        dsimp only
        rw [hcrypt]
      rw [hshown, hloop, htext]
      refine ⟨mem', ⟨c.2, chunkSize size n, n + chunkSize size n, size⟩ :: chunks', ?_, ?_⟩
      · rw [List.append_assoc]
        rfl
      refine ⟨⟨?_, ?_, ?_, rfl, ?_⟩, ?_, ?_, ?_⟩
      · exact hclen.trans hkdef.symm
      · show 0 < (chunkSize size n).toNat
        omega
      · show (n + chunkSize size n).toNat = n.toNat + (chunkSize size n).toNat
        omega
      · show Contiguous size (n + chunkSize size n).toNat chunks'
        rw [hnext]
        exact hafter.contiguous
      · rw [List.map_cons, List.flatten_cons, hafter.shown]
      · rintro dst rfl
        have hlater := hafter.stored dst rfl
        -- the chunk is still there when the others are written
        have hfirst : mem'.read (dst + n.toNat) k = c.2 := by
          rw [← hshown]
          refine Memory.read_congr ?_
          intro i hlo hhi
          refine hafter.outside i ?_
          rintro ⟨hlo', -⟩
          omega
        have hboth := mem'.read_add (dst + n.toNat) k (m - k)
        rw [hfirst, Nat.add_assoc, show m - k = size.toNat - (n.toNat + k) by omega, hlater] at hboth
        rw [← hboth]
        congr 1
        omega
      · intro i hi
        rw [hafter.outside i (fun h => hi (h.mono (by omega) (Nat.le_refl _)))]
        exact houtside i (fun h => hi (h.mono (Nat.le_refl _) (by omega)))
    · have heq : n = size := UInt32.le_antisymm hn (UInt32.not_lt.mp hlt)
      have hzero : m = 0 := by rw [← hm, heq, Nat.sub_self]
      have hnil : a.ctr_crypt aes_encrypt (mem.read (src + n.toNat) m) = (a, []) := by
        rw [hzero]
        unfold ctr_crypt
        show ({ a with ctr := (Ctr.crypt (aes_encrypt a.key) a.ctr []).1 }, _) = _
        rw [Ctr.crypt_nil _ hctr]
        rfl
      rw [cryptAt, if_neg hlt, hnil]
      refine ⟨mem, [], by rw [List.append_nil], ?_, rfl, ?_, fun _ _ => rfl⟩
      · exact congrArg UInt32.toNat heq
      · intro dst _
        rw [hm, hzero]
        rfl

end

/-! ## All calls -/

theorem total_congr : ∀ {calls calls' : List Call}, calls'.map (·.size) = calls.map (·.size) →
    total calls' = total calls
  | [], [], _ => rfl
  | call :: calls, call' :: calls', h => by
      obtain ⟨hsize, hsizes⟩ := List.cons.inj h
      rw [total, total, total_congr hsizes, show call'.size = call.size from hsize]

/-- The cut of a text is one into blocks, if all calls but the last one get whole blocks. -/
def Blocks (calls : List Call) : Prop := ∀ call ∈ calls.dropLast, 16 ∣ call.size.toNat

theorem Blocks.tail {call : Call} {calls : List Call} (h : Blocks (call :: calls)) :
    Blocks calls := by
  cases calls with
  | nil =>
    intro c hc
    cases hc
  | cons call' calls => exact fun c hc => h c (List.mem_cons_of_mem _ hc)

theorem Blocks.congr {calls calls' : List Call} (h : Blocks calls)
    (hcut : calls'.map (·.size) = calls.map (·.size)) : Blocks calls' := by
  intro call hcall
  have hmem : call.size ∈ (calls.map (·.size)).dropLast := by
    rw [← hcut, ← List.map_dropLast]
    exact List.mem_map_of_mem hcall
  rw [← List.map_dropLast] at hmem
  obtain ⟨call', hcall', hsize⟩ := List.mem_map.mp hmem
  rw [← hsize]
  exact h call' hcall'

section

variable (aes_encrypt : Bytes → Bytes → Bytes)

/-- What the first call leaves for the others. -/
theorem encryptAt_first {src : Nat} (mem : Memory) {a : AES} (hctr : a.ctr.length = 16) {call : Call}
    {calls : List Call} (hsafe : Safe src (call :: calls)) (hblocks : Blocks (call :: calls)) :
    ∃ mem' chunks, encryptAt aes_encrypt keep src call.place call.size mem a []
        = (true, mem', (a.ctr_crypt aes_encrypt (mem.read src call.size.toNat)).1, chunks)
      ∧ Done call.place call.size 0 mem mem' chunks
        (a.ctr_crypt aes_encrypt (mem.read src call.size.toNat)).2
      ∧ mem'.read (src + call.size.toNat) (total calls) = mem.read (src + call.size.toNat) (total calls)
      ∧ a.ctr_crypt aes_encrypt (mem.read src (total (call :: calls)))
        = (((a.ctr_crypt aes_encrypt (mem.read src call.size.toNat)).1.ctr_crypt aes_encrypt
            (mem.read (src + call.size.toNat) (total calls))).1,
          (a.ctr_crypt aes_encrypt (mem.read src call.size.toNat)).2
            ++ ((a.ctr_crypt aes_encrypt (mem.read src call.size.toNat)).1.ctr_crypt aes_encrypt
              (mem.read (src + call.size.toNat) (total calls))).2) := by
  obtain ⟨mem', chunks, hloop, hdone⟩ := cryptAt_keep aes_encrypt hsafe.1
    (Nat.le_add_right call.size.toNat (total calls)) (UInt32.zero_le ..) (.inr ⟨0, rfl⟩) mem hctr []
  refine ⟨mem', chunks, hloop, hdone, ?_, ?_⟩
  · refine Memory.read_congr ?_
    intro i hlo hhi
    refine hdone.outside i (hsafe.1.not_writes (Nat.le_refl _) hlo ?_)
    rw [total]
    omega
  · have hwhole : 16 ∣ (mem.read src call.size.toNat).length
        ∨ mem.read (src + call.size.toNat) (total calls) = [] := by
      cases calls with
      | nil => exact .inr rfl
      | cons call' calls =>
        rw [Memory.read_length]
        exact .inl (hblocks call List.mem_cons_self)
    unfold ctr_crypt
    rw [total, Memory.read_add, Ctr.crypt_append (aes_encrypt a.key) a.ctr hwhole]

/-- **The pieces make up the whole.** -/
theorem encrypts_spec : ∀ {calls : List Call} {src : Nat} {mem : Memory} {a : AES},
    a.ctr.length = 16 → Safe src calls → Blocks calls →
    ((encrypts aes_encrypt src mem a calls).2.2.map (·.text)).flatten
        = (a.ctr_crypt aes_encrypt (mem.read src (total calls))).2
      ∧ List.Forall₂ (fun (r : Result) (call : Call) => r.ok = true ∧ r.Covers call.size)
        (encrypts aes_encrypt src mem a calls).2.2 calls
  | [], src, mem, a, _, _, _ => ⟨rfl, .nil⟩
  | call :: calls, src, mem, a, hctr, hsafe, hblocks => by
      obtain ⟨mem', chunks, hfirst, hdone, hrest, htext⟩ :=
        encryptAt_first aes_encrypt mem hctr hsafe hblocks
      obtain ⟨htexts, hcovers⟩ := @encrypts_spec calls (src + call.size.toNat) mem'
        (a.ctr_crypt aes_encrypt (mem.read src call.size.toNat)).1
        (Ctr.crypt_ctr_length (aes_encrypt a.key) ..) hsafe.2 hblocks.tail
      have hresult : (Result.of call true mem' chunks).text
          = (a.ctr_crypt aes_encrypt (mem.read src call.size.toNat)).2 := by
        unfold Result.of
        cases hplace : call.place with
        | into dst => exact hdone.stored dst hplace
        | scratch tmp => exact hdone.shown
      unfold encrypts at htexts hcovers ⊢
      rw [crypts, hfirst]
      refine ⟨?_, .cons ⟨rfl, hdone.contiguous, ?_⟩ hcovers⟩
      · rw [List.map_cons, List.flatten_cons, hresult, htexts, hrest, htext]
      · rw [hresult]
        exact hdone.shown

/-- **Chunking does not change the cipher text.** The pieces of a text, each encrypted in place, into
a destination, or for the callback only, make up one pass over it; the callback sees every piece
once and in order; and the same cut decrypts it. -/
theorem chunks_crypted {a : AES} (hctr : a.ctr.length = 16) {calls calls' : List Call}
    (hblocks : Blocks calls) (hcut : calls'.map (·.size) = calls.map (·.size)) {src src' : Nat}
    (hsafe : Safe src calls) (hsafe' : Safe src' calls') (mem mem' : Memory)
    (hcipher : mem'.read src' (total calls)
      = ((encrypts aes_encrypt src mem a calls).2.2.map (·.text)).flatten) :
    ((encrypts aes_encrypt src mem a calls).2.2.map (·.text)).flatten
        = (Ctr.crypt (aes_encrypt a.key) a.ctr (mem.read src (total calls))).2
      ∧ List.Forall₂ (fun (r : Result) (call : Call) => r.ok = true ∧ r.Covers call.size)
        (encrypts aes_encrypt src mem a calls).2.2 calls
      ∧ ((decrypts aes_encrypt src' mem' a calls').2.2.map (·.text)).flatten
        = mem.read src (total calls)
      ∧ List.Forall₂ (fun (r : Result) (call : Call) => r.ok = true ∧ r.Covers call.size)
        (decrypts aes_encrypt src' mem' a calls').2.2 calls' := by
  obtain ⟨htexts, hcovers⟩ := @encrypts_spec aes_encrypt calls src mem a hctr hsafe hblocks
  obtain ⟨htexts', hcovers'⟩ :=
    @encrypts_spec aes_encrypt calls' src' mem' a hctr hsafe' (hblocks.congr hcut)
  refine ⟨htexts, hcovers, ?_, hcovers'⟩
  -- the two loops are one
  have hback := ctr_crypt_ctr_crypt aes_encrypt a (mem.read src (total calls))
  rw [total_congr hcut, hcipher, htexts, hback] at htexts'
  exact htexts'

/-- Calls that put the text to one place after the other. -/
def callsInto : Nat → List UInt32 → List Call
  | _, [] => []
  | dst, size :: sizes => ⟨.into dst, size⟩ :: callsInto (dst + size.toNat) sizes

/-- **What stands in the destination in the end**, be it the text's own place or another one. -/
theorem encrypts_into : ∀ {sizes : List UInt32} {src dst : Nat} {mem : Memory} {a : AES},
    a.ctr.length = 16 → Blocks (callsInto dst sizes) →
    (dst = src ∨ dst + total (callsInto dst sizes) ≤ src ∨ src + total (callsInto dst sizes) ≤ dst) →
    (encrypts aes_encrypt src mem a (callsInto dst sizes)).1.read dst (total (callsInto dst sizes))
        = (a.ctr_crypt aes_encrypt (mem.read src (total (callsInto dst sizes)))).2
      ∧ ∀ i, i < dst ∨ dst + total (callsInto dst sizes) ≤ i →
        (encrypts aes_encrypt src mem a (callsInto dst sizes)).1 i = mem i
  | [], src, dst, mem, a, _, _, _ => ⟨rfl, fun _ _ => rfl⟩
  | size :: sizes, src, dst, mem, a, hctr, hblocks, hplace => by
      have hsafe : ∀ (sizes : List UInt32) {src dst : Nat},
          dst = src ∨ dst + total (callsInto dst sizes) ≤ src
            ∨ src + total (callsInto dst sizes) ≤ dst → Safe src (callsInto dst sizes) := by
        intro sizes
        induction sizes with
        | nil => exact fun _ => trivial
        | cons size sizes ih =>
          intro src dst h
          rw [callsInto, total] at h
          dsimp only at h
          constructor
          · show dst = src ∨ dst + size.toNat ≤ src ∨ src + total (callsInto dst (size :: sizes)) ≤ dst
            rw [callsInto, total]
            dsimp only
            omega
          · show Safe (src + size.toNat) (callsInto (dst + size.toNat) sizes)
            exact ih (by omega)
      obtain ⟨mem', chunks, hfirst, hdone, hrest, htext⟩ :=
        encryptAt_first aes_encrypt mem hctr (hsafe (size :: sizes) hplace) hblocks
      rw [callsInto, total] at hplace
      dsimp only at hplace hfirst hdone hrest htext
      obtain ⟨hread, houtside⟩ := @encrypts_into sizes (src + size.toNat) (dst + size.toNat) mem'
        (a.ctr_crypt aes_encrypt (mem.read src size.toNat)).1
        (Ctr.crypt_ctr_length (aes_encrypt a.key) ..) hblocks.tail (by omega)
      have hrun : (encrypts aes_encrypt src mem a (callsInto dst (size :: sizes))).1
          = (encrypts aes_encrypt (src + size.toNat) mem'
            (a.ctr_crypt aes_encrypt (mem.read src size.toNat)).1
            (callsInto (dst + size.toNat) sizes)).1 := by
        unfold encrypts
        rw [callsInto, crypts, hfirst]
      have hstored : mem'.read dst size.toNat
          = (a.ctr_crypt aes_encrypt (mem.read src size.toNat)).2 := hdone.stored dst rfl
      rw [hrun]
      constructor
      · have hkept : (encrypts aes_encrypt (src + size.toNat) mem'
            (a.ctr_crypt aes_encrypt (mem.read src size.toNat)).1
            (callsInto (dst + size.toNat) sizes)).1.read dst size.toNat = mem'.read dst size.toNat := by
          refine Memory.read_congr ?_
          intro i hlo hhi
          exact houtside i (.inl hhi)
        show Memory.read _ dst (total (⟨.into dst, size⟩ :: callsInto (dst + size.toNat) sizes)) = _
        rw [total, Memory.read_add]
        dsimp only
        rw [hkept, hstored, hread, hrest]
        exact (congrArg Prod.snd htext).symm
      · intro i hi
        rw [callsInto, total] at hi
        dsimp only at hi
        rw [houtside i (by omega), hdone.outside i]
        intro hwrites
        have hlo : dst + 0 ≤ i := hwrites.1
        have hhi : i < dst + size.toNat := hwrites.2
        omega

end

/-- A cipher for small cases. -/
def plainCipher (_ block : Bytes) : Bytes := block

/-- Twenty bytes in two pieces: the first one in place, the second one for the callback. -/
def twoCalls : List Call := [⟨.into 0, 16⟩, ⟨.scratch 100, 4⟩]

theorem chunks_crypted_two :
    ((encrypts plainCipher 0 (fun _ => 7) ⟨[], List.replicate 16 0⟩ twoCalls).2.2.map
        (·.text)).flatten
      = (Ctr.crypt (plainCipher []) (List.replicate 16 0) (Memory.read (fun _ => 7) 0 20)).2
    ∧ ((decrypts plainCipher 0
        (Memory.write (fun _ => 0) 0
          (Ctr.crypt (plainCipher []) (List.replicate 16 0) (Memory.read (fun _ => 7) 0 20)).2)
        ⟨[], List.replicate 16 0⟩ (callsInto 50 [16, 4])).2.2.map (·.text)).flatten
      = Memory.read (fun _ => 7) 0 20 := by
  have hctr : (AES.mk [] (List.replicate 16 0)).ctr.length = 16 := rfl
  have hblocks : Blocks twoCalls := by
    intro call hcall
    obtain rfl := List.mem_singleton.mp hcall
    decide
  have hsafe : Safe 0 twoCalls := ⟨.inl rfl, .inr (by decide), trivial⟩
  have hsafe' : Safe 0 (callsInto 50 [16, 4]) :=
    ⟨.inr (.inr (by decide)), .inr (.inr (by decide)), trivial⟩
  have htexts := (@encrypts_spec plainCipher twoCalls 0 (fun _ => 7) _ hctr hsafe hblocks).1
  have hcipher : (Memory.write (fun _ => 0) 0
      (Ctr.crypt (plainCipher []) (List.replicate 16 0) (Memory.read (fun _ => 7) 0 20)).2).read 0 20
      = (Ctr.crypt (plainCipher []) (List.replicate 16 0) (Memory.read (fun _ => 7) 0 20)).2 := by
    have h := Memory.read_write_self (fun _ => 0) 0
      (Ctr.crypt (plainCipher []) (List.replicate 16 0) (Memory.read (fun _ => 7) 0 20)).2
    rwa [Ctr.crypt_length, Memory.read_length] at h
  have hcut : (callsInto 50 [16, 4]).map (·.size) = twoCalls.map (·.size) := rfl
  have h := chunks_crypted plainCipher hctr hblocks hcut hsafe hsafe' (fun _ => 7) _
    (hcipher.trans htexts.symm)
  exact ⟨h.1, h.2.2.1⟩

end Zway.AES
