import Zway.Lib.Ctr
import Zway.Stream.Packet

/-!
# `AES`

AES in counter mode. `encrypt` and `decrypt` are one loop that calls `ctr_crypt` on
1024 bytes at a time and shows each piece to a callback, which may stop it. The
pieces are whole numbers of blocks, so that the loop computes the mode on the
whole text: `cryptLoop_eq`.

The cipher itself is a parameter.
-/

namespace Zway

/-- `AES`, that is what `m_ctx` holds. -/
structure AES where
  key : Bytes
  ctr : Bytes
  deriving DecidableEq

namespace AES

def AES_KEY_SIZE : Nat := 32

def AES_BLOCK_SIZE : Nat := 16

/-- The constructor. The context is used only after it is set. -/
def new : AES := { key := [], ctr := [] }

/-- `AES::setKey`. -/
def setKey (a : AES) (key : Option MemoryBuffer) : AES :=
  match key with
  | some key => { a with key := key.data.take AES_KEY_SIZE }
  | none => a

/-- `AES::setCtr`. -/
def setCtr (a : AES) (ctr : Option MemoryBuffer) : AES :=
  match ctr with
  | some ctr => { a with ctr := ctr.data.take AES_BLOCK_SIZE }
  | none => a

section

-- the cipher with a key, on one block
variable (aes_encrypt : Bytes → Bytes → Bytes)

/-- `ctr_crypt` with the context. -/
def ctr_crypt (a : AES) (src : Bytes) : AES × Bytes :=
  let c := Ctr.crypt (aes_encrypt a.key) a.ctr src
  ({ a with ctr := c.1 }, c.2)

/-- How much the next call of `ctr_crypt` gets. -/
def chunkSize (size bytesDone : UInt32) : UInt32 :=
  if size - bytesDone < 1024 then size - bytesDone else 1024

omit aes_encrypt in
theorem chunkSize_toNat {size bytesDone : UInt32} (h : bytesDone < size) :
    (chunkSize size bytesDone).toNat = min 1024 (size.toNat - bytesDone.toNat) := by
  have hsub : (size - bytesDone).toNat = size.toNat - bytesDone.toNat :=
    UInt32.toNat_sub_of_le _ _ (UInt32.le_of_lt h)
  unfold chunkSize
  by_cases hlast : size - bytesDone < 1024
  · rw [if_pos hlast, hsub]
    have hlt := UInt32.lt_iff_toNat_lt.mp hlast
    rw [hsub] at hlt
    change _ < 1024 at hlt
    omega
  · rw [if_neg hlast]
    have hle := fun hlt => hlast (UInt32.lt_iff_toNat_lt.mpr hlt)
    rw [hsub] at hle
    change ¬ _ < 1024 at hle
    show 1024 = _
    omega

omit aes_encrypt in
theorem add_chunkSize_toNat {size bytesDone : UInt32} (h : bytesDone < size) :
    (bytesDone + chunkSize size bytesDone).toNat
      = bytesDone.toNat + min 1024 (size.toNat - bytesDone.toNat) := by
  have hlt := UInt32.lt_iff_toNat_lt.mp h
  have hsize := size.toNat_lt
  rw [UInt32.toNat_add, chunkSize_toNat h]
  omega

section

variable {σ : Type} (callback : Bytes → (bytes total size : UInt32) → σ → Bool × σ)

/-- The loop of `AES::encrypt` and `AES::decrypt`, after `bytesDone`: what is returned, the context,
the bytes that go to `dst`, and what the callback keeps. -/
def cryptLoop (src : Bytes) (size : UInt32) (a : AES) (bytesDone : UInt32) (st : σ) :
    Bool × AES × Bytes × σ :=
  if bytesDone < size then
    let bytesToDo := chunkSize size bytesDone
    let c := a.ctr_crypt aes_encrypt ((src.drop bytesDone.toNat).take bytesToDo.toNat)
    match callback c.2 bytesToDo (bytesDone + bytesToDo) size st with
    | (false, st) => (false, c.1, c.2, st)
    | (true, st) =>
        let rest := cryptLoop src size c.1 (bytesDone + bytesToDo) st
        (rest.1, rest.2.1, c.2 ++ rest.2.2.1, rest.2.2.2)
  else (true, a, [], st)
termination_by size.toNat - bytesDone.toNat
decreasing_by
  have h : bytesDone < size := ‹_›
  have hlt := UInt32.lt_iff_toNat_lt.mp h
  rw [add_chunkSize_toNat h]
  omega

/-- `AES::encrypt`. -/
def encrypt (a : AES) (src : Bytes) (size : UInt32) (st : σ) : Bool × AES × Bytes × σ :=
  cryptLoop aes_encrypt callback src size a 0 st

/-- `AES::decrypt`. -/
def decrypt (a : AES) (src : Bytes) (size : UInt32) (st : σ) : Bool × AES × Bytes × σ :=
  cryptLoop aes_encrypt callback src size a 0 st

/-- The callback is shown a text piece by piece, as long as it agrees. -/
def shown (text : Bytes) (size bytesDone : UInt32) (st : σ) : Bool × σ :=
  if bytesDone < size then
    let bytesToDo := chunkSize size bytesDone
    match callback ((text.drop bytesDone.toNat).take bytesToDo.toNat) bytesToDo
        (bytesDone + bytesToDo) size st with
    | (false, st) => (false, st)
    | (true, st) => shown text size (bytesDone + bytesToDo) st
  else (true, st)
termination_by size.toNat - bytesDone.toNat
decreasing_by
  have h : bytesDone < size := ‹_›
  have hlt := UInt32.lt_iff_toNat_lt.mp h
  rw [add_chunkSize_toNat h]
  omega

/-- The pieces are those of the whole text in counter mode, whatever the callback makes of them. -/
theorem cryptLoop_shown {src : Bytes} {size : UInt32} (hsrc : size.toNat ≤ src.length)
    {text : Bytes} {a : AES} {n : UInt32} (st : σ) (hn : n ≤ size)
    (hdvd : n = size ∨ 16 ∣ n.toNat)
    (htext : text.drop n.toNat
      = (Ctr.crypt (aes_encrypt a.key) a.ctr ((src.take size.toNat).drop n.toNat)).2) :
    ∃ a' out, cryptLoop aes_encrypt callback src size a n st =
        ((shown callback text size n st).1, a', out, (shown callback text size n st).2)
      ∧ ((shown callback text size n st).1 = true →
          (a.ctr.length = 16 → a' = { a with ctr :=
            (Ctr.crypt (aes_encrypt a.key) a.ctr ((src.take size.toNat).drop n.toNat)).1 })
          ∧ out = text.drop n.toNat) := by
  generalize hm : size.toNat - n.toNat = m
  induction m using Nat.strong_induction_on generalizing a n st with
  | _ m ih =>
    by_cases hlt : n < size
    · have hnat := UInt32.lt_iff_toNat_lt.mp hlt
      have hk := chunkSize_toNat hlt
      have hnk := add_chunkSize_toNat hlt
      have hdvd' : 16 ∣ n.toNat := hdvd.resolve_left (fun he => by rw [he] at hnat; omega)
      -- the piece, and what is left after it
      have hpiece : (src.drop n.toNat).take (chunkSize size n).toNat
          = ((src.take size.toNat).drop n.toNat).take (chunkSize size n).toNat := by
        rw [List.drop_take, List.take_take, hk]
        congr 1
        omega
      have hrest : ((src.take size.toNat).drop n.toNat).drop (chunkSize size n).toNat
          = (src.take size.toNat).drop (n + chunkSize size n).toNat := by
        rw [List.drop_drop, hnk, hk]
      have hlen : ((src.drop n.toNat).take (chunkSize size n).toNat).length
          = (chunkSize size n).toNat := by
        rw [List.length_take, List.length_drop, hk]
        omega
      have hwhole : 16 ∣ ((src.drop n.toNat).take (chunkSize size n).toNat).length
          ∨ (src.take size.toNat).drop (n + chunkSize size n).toNat = [] := by
        rw [hlen, hk, hnk]
        by_cases hlast : size.toNat - n.toNat ≤ 1024
        · refine .inr (List.drop_of_length_le ?_)
          rw [List.length_take]
          omega
        · exact .inl (by omega)
      have hsplit := Ctr.crypt_append (aes_encrypt a.key) a.ctr hwhole
      rw [hpiece, ← hrest, List.take_append_drop, hrest, ← hpiece] at hsplit
      generalize hc : Ctr.crypt (aes_encrypt a.key) a.ctr
        ((src.drop n.toNat).take (chunkSize size n).toNat) = c at hsplit
      rw [hsplit] at htext ⊢
      have hclen : c.2.length = (chunkSize size n).toNat := by
        rw [← hc, Ctr.crypt_length, hlen]
      have hshown : (text.drop n.toNat).take (chunkSize size n).toNat = c.2 := by
        rw [htext, ← hclen, List.take_left]
      have htext' : text.drop (n + chunkSize size n).toNat
          = (Ctr.crypt (aes_encrypt a.key) c.1
              ((src.take size.toNat).drop (n + chunkSize size n).toNat)).2 := by
        have hdrop : text.drop (n + chunkSize size n).toNat
            = (text.drop n.toNat).drop c.2.length := by
          rw [List.drop_drop, hclen, hnk, hk]
        rw [hdrop, htext, List.drop_left]
      have hnext : n + chunkSize size n = size ∨ 16 ∣ (n + chunkSize size n).toNat := by
        rw [← UInt32.toNat_inj, hnk]
        omega
      have hle : n + chunkSize size n ≤ size := by
        rw [UInt32.le_iff_toNat_le, hnk]
        omega
      rw [shown, if_pos hlt, cryptLoop, if_pos hlt]
      dsimp only [ctr_crypt]
      rw [hc, hshown]
      cases callback c.2 (chunkSize size n) (n + chunkSize size n) size st with
      | mk ok st₁ =>
        cases ok with
        | false => exact ⟨_, _, rfl, fun h => (by cases h)⟩
        | true =>
          dsimp only
          obtain ⟨a', out, hloop, hsame⟩ :=
            @ih _ (by omega) { a with ctr := c.1 } _ st₁ hle hnext htext' rfl
          rw [hloop]
          refine ⟨_, _, rfl, fun h => ?_⟩
          obtain ⟨hctr, rfl⟩ := hsame h
          refine ⟨fun _ => hctr (by rw [← hc, Ctr.crypt_ctr_length]), ?_⟩
          rw [htext, htext']
    · have heq : n = size := UInt32.le_antisymm hn (UInt32.not_lt.mp hlt)
      have hnil : (src.take size.toNat).drop n.toNat = [] := by
        rw [heq]
        exact List.drop_of_length_le (List.length_take_le ..)
      have hempty : text.drop n.toNat = [] := htext.trans (by rw [hnil]; rfl)
      rw [shown, if_neg hlt, cryptLoop, if_neg hlt, hnil]
      refine ⟨_, _, rfl, fun _ => ⟨fun hctr => ?_, hempty.symm⟩⟩
      rw [Ctr.crypt_nil _ hctr]

/-- A callback that keeps an invariant with every piece is shown the whole text. -/
theorem shown_eq {size : UInt32} {Inv : Nat → σ → Prop} {text : Bytes}
    (hstep : ∀ (n k : UInt32) (st : σ), n < size → k = chunkSize size n → Inv n.toNat st →
      ∃ st', callback ((text.drop n.toNat).take k.toNat) k (n + k) size st = (true, st')
        ∧ Inv (n + k).toNat st')
    {n : UInt32} {st : σ} (hn : n ≤ size) (hinv : Inv n.toNat st) :
    ∃ st', shown callback text size n st = (true, st') ∧ Inv size.toNat st' := by
  generalize hm : size.toNat - n.toNat = m
  induction m using Nat.strong_induction_on generalizing n st with
  | _ m ih =>
    by_cases hlt : n < size
    · have hnat := UInt32.lt_iff_toNat_lt.mp hlt
      have hnk := add_chunkSize_toNat hlt
      obtain ⟨st₁, hcall, hinv₁⟩ := hstep n _ st hlt rfl hinv
      have hle : n + chunkSize size n ≤ size := by
        rw [UInt32.le_iff_toNat_le, hnk]
        omega
      obtain ⟨st₂, hshown, hinv₂⟩ := ih _ (by omega) hle hinv₁ rfl
      refine ⟨st₂, ?_, hinv₂⟩
      rw [shown, if_pos hlt]
      dsimp only
      rw [hcall]
      exact hshown
    · have heq : n = size := UInt32.le_antisymm hn (UInt32.not_lt.mp hlt)
      rw [shown, if_neg hlt]
      exact ⟨st, rfl, heq ▸ hinv⟩

/-- The rule of the loop. If the callback keeps an invariant whenever it is shown the next piece of
the text in counter mode, the loop runs to the end and leaves the mode of the whole text. -/
theorem cryptLoop_eq {src : Bytes} {size : UInt32} (hsrc : size.toNat ≤ src.length)
    {Inv : Nat → σ → Prop} {text : Bytes}
    (hstep : ∀ (n k : UInt32) (st : σ), n < size → k = chunkSize size n → Inv n.toNat st →
      ∃ st', callback ((text.drop n.toNat).take k.toNat) k (n + k) size st = (true, st')
        ∧ Inv (n + k).toNat st')
    {a : AES} {n : UInt32} {st : σ} (hn : n ≤ size) (hdvd : n = size ∨ 16 ∣ n.toNat)
    (hctr : a.ctr.length = 16)
    (htext : text.drop n.toNat
      = (Ctr.crypt (aes_encrypt a.key) a.ctr ((src.take size.toNat).drop n.toNat)).2)
    (hinv : Inv n.toNat st) :
    ∃ st', cryptLoop aes_encrypt callback src size a n st =
        (true,
          { a with ctr :=
              (Ctr.crypt (aes_encrypt a.key) a.ctr ((src.take size.toNat).drop n.toNat)).1 },
          text.drop n.toNat, st')
      ∧ Inv size.toNat st' := by
  obtain ⟨st', hshown, hinv'⟩ := shown_eq callback hstep hn hinv
  obtain ⟨a', out, hloop, hsame⟩ :=
    cryptLoop_shown aes_encrypt callback hsrc st hn hdvd htext
  rw [hshown] at hloop hsame
  obtain ⟨hend, rfl⟩ := hsame rfl
  obtain rfl := hend hctr
  exact ⟨st', hloop, hinv'⟩

/-- A whole call, whatever the callback makes of it. -/
theorem encrypt_shown {src : Bytes} {size : UInt32} (hsrc : size.toNat ≤ src.length) (a : AES)
    (st : σ) :
    ∃ a' out, encrypt aes_encrypt callback a src size st =
        ((shown callback (a.ctr_crypt aes_encrypt (src.take size.toNat)).2 size 0 st).1, a', out,
          (shown callback (a.ctr_crypt aes_encrypt (src.take size.toNat)).2 size 0 st).2)
      ∧ ((shown callback (a.ctr_crypt aes_encrypt (src.take size.toNat)).2 size 0 st).1 = true →
          out = (a.ctr_crypt aes_encrypt (src.take size.toNat)).2) := by
  obtain ⟨a', out, h, hout⟩ :=
    cryptLoop_shown aes_encrypt callback hsrc st (UInt32.zero_le ..) (.inr ⟨0, rfl⟩) rfl
  exact ⟨a', out, h, fun hok => (hout hok).2⟩

/-- The rule for a whole call. -/
theorem encrypt_eq {src : Bytes} {size : UInt32} (hsrc : size.toNat ≤ src.length)
    {Inv : Nat → σ → Prop} {a : AES} (hctr : a.ctr.length = 16) {st : σ} (hinv : Inv 0 st)
    (hstep : ∀ (n k : UInt32) (st : σ), n < size → k = chunkSize size n → Inv n.toNat st →
      ∃ st', callback (((a.ctr_crypt aes_encrypt (src.take size.toNat)).2.drop n.toNat).take
          k.toNat) k (n + k) size st = (true, st') ∧ Inv (n + k).toNat st') :
    ∃ st', encrypt aes_encrypt callback a src size st =
        (true, (a.ctr_crypt aes_encrypt (src.take size.toNat)).1,
          (a.ctr_crypt aes_encrypt (src.take size.toNat)).2, st')
      ∧ Inv size.toNat st' :=
  cryptLoop_eq aes_encrypt callback hsrc hstep (UInt32.zero_le ..) (.inr ⟨0, rfl⟩) hctr rfl hinv

end

/-- A call without a callback. -/
def noCallback (_ : Bytes) (_ _ _ : UInt32) (_ : Unit) : Bool × Unit := (true, ())

/-- **The pieces make no difference.** -/
theorem encrypt_noCallback {src : Bytes} {size : UInt32} (hsrc : size.toNat ≤ src.length) {a : AES}
    (hctr : a.ctr.length = 16) :
    encrypt aes_encrypt noCallback a src size () =
      (true, (a.ctr_crypt aes_encrypt (src.take size.toNat)).1,
        (a.ctr_crypt aes_encrypt (src.take size.toNat)).2, ()) := by
  obtain ⟨_, h, -⟩ := @encrypt_eq aes_encrypt _ noCallback _ _ hsrc (fun _ _ => True) _ hctr ()
    trivial (fun _ _ _ _ _ _ => ⟨(), rfl, trivial⟩)
  exact h

/-- The text that comes of it does not depend on the size of the counter. -/
theorem decrypt_noCallback {src : Bytes} {size : UInt32} (hsrc : size.toNat ≤ src.length) (a : AES) :
    (decrypt aes_encrypt noCallback a src size ()).2.2.1
      = (a.ctr_crypt aes_encrypt (src.take size.toNat)).2 := by
  obtain ⟨a', out, h, hout⟩ := encrypt_shown aes_encrypt noCallback hsrc a ()
  obtain ⟨_, hshown, -⟩ := @shown_eq _ noCallback size (fun _ _ => True)
    (a.ctr_crypt aes_encrypt (src.take size.toNat)).2
    (fun _ _ _ _ _ _ => ⟨(), rfl, trivial⟩) 0 () (UInt32.zero_le ..) trivial
  show (encrypt aes_encrypt noCallback a src size ()).2.2.1 = _
  rw [h]
  exact hout (by rw [hshown])

/-- The same context decrypts what it encrypted, and ends where the other did. -/
theorem ctr_crypt_ctr_crypt (a : AES) (src : Bytes) :
    a.ctr_crypt aes_encrypt (a.ctr_crypt aes_encrypt src).2
      = ((a.ctr_crypt aes_encrypt src).1, src) := by
  unfold ctr_crypt
  dsimp only
  rw [Ctr.crypt_crypt]

end

end AES

end Zway
