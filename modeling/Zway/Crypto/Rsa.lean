import Zway.Lib.Hex
import Zway.Store.VirtualTable
import Zway.Ubj.Siblings
import Zway.Ubj.Terminated

/-!
# RSA keys in documents

`rsa.cpp` puts the numbers of a key into an object, as texts in base 16. Each text has its
terminating NUL in the `std::string`, and so in the `Value`; the writer drops it, and
`c_str()` does not see it. So keys come back from documents: `keys_survive`.
-/

namespace Zway.Crypto

open Ubj Ubj.Store

/-! ## Numbers -/

/-- What is used of GMP, in base 16. -/
structure Gmp where
  /-- The digits, before the NUL. -/
  mpz_get_str : Nat → Bytes
  mpz_set_str : Bytes → Nat
  mpz_sizeinbase : Nat → Nat
  /-- There is a digit, and no NUL among them. -/
  get_str_carried : ∀ z, Carried (mpz_get_str z)
  set_str_get_str : ∀ z, mpz_set_str (mpz_get_str z) = z
  sizeinbase_eq : ∀ z, mpz_sizeinbase z = (mpz_get_str z).length

/-- GMP, on what has only digits. -/
def Gmp.hex : Gmp where
  mpz_get_str := Hex.ofNat
  mpz_set_str := Hex.toNat
  mpz_sizeinbase z := (Hex.ofNat z).length
  get_str_carried z := ⟨Hex.ofNat_ne_nil z, Hex.ofNat_nulFree z⟩
  set_str_get_str := Hex.toNat_ofNat
  sizeinbase_eq _ := rfl

section

variable (gmp : Gmp) (printed : BitVec 64 → Bytes)

/-- `mpzFromHexStr`. -/
def mpzFromHexStr (str : Bytes) : Nat := gmp.mpz_set_str (cstr str)

/-- `mpzToHexStr`. There is no result where `mpz_get_str` writes behind the string. -/
def mpzToHexStr (z : Nat) : Option Bytes :=
  let len := UInt32.ofNat (gmp.mpz_sizeinbase z + 1)
  let res : Bytes := List.replicate len.toNat 0
  let str := gmp.mpz_get_str z ++ [0]
  if str.length ≤ res.length then some (overwrite res 0 str) else none

/-! ## Keys -/

/-- `struct rsa_public_key` -/
structure RsaPublicKey where
  size : BitVec 64
  n : Nat
  e : Nat
  deriving Repr, DecidableEq

/-- `struct rsa_private_key` -/
structure RsaPrivateKey where
  size : BitVec 64
  d : Nat
  p : Nat
  q : Nat
  a : Nat
  b : Nat
  c : Nat
  deriving Repr, DecidableEq

/-- `publicKeyToUbj`. -/
def publicKeyToUbj (publicKey : RsaPublicKey) : Option Object := do
  let e ← mpzToHexStr gmp publicKey.e
  let n ← mpzToHexStr gmp publicKey.n
  pure (OrdMap.insert (lit "s") (.int64 publicKey.size)
    (OrdMap.insert (lit "n") (Value.ofString n)
      (OrdMap.insert (lit "e") (Value.ofString e) [])))

/-- `privateKeyToUbj`. -/
def privateKeyToUbj (privateKey : RsaPrivateKey) : Option Object := do
  let a ← mpzToHexStr gmp privateKey.a
  let b ← mpzToHexStr gmp privateKey.b
  let c ← mpzToHexStr gmp privateKey.c
  let d ← mpzToHexStr gmp privateKey.d
  let p ← mpzToHexStr gmp privateKey.p
  let q ← mpzToHexStr gmp privateKey.q
  pure (OrdMap.insert (lit "s") (.int64 privateKey.size)
    (OrdMap.insert (lit "q") (Value.ofString q)
      (OrdMap.insert (lit "p") (Value.ofString p)
        (OrdMap.insert (lit "d") (Value.ofString d)
          (OrdMap.insert (lit "c") (Value.ofString c)
            (OrdMap.insert (lit "b") (Value.ofString b)
              (OrdMap.insert (lit "a") (Value.ofString a) [])))))))

/-- `ubjToPublicKey`. -/
def ubjToPublicKey (publicKeyObj : Object) : RsaPublicKey where
  e := mpzFromHexStr gmp ((field publicKeyObj (lit "e")).toStr printed)
  n := mpzFromHexStr gmp ((field publicKeyObj (lit "n")).toStr printed)
  size := (field publicKeyObj (lit "s")).toLong

/-- `ubjToPrivateKey`. -/
def ubjToPrivateKey (privateKeyObj : Object) : RsaPrivateKey where
  a := mpzFromHexStr gmp ((field privateKeyObj (lit "a")).toStr printed)
  b := mpzFromHexStr gmp ((field privateKeyObj (lit "b")).toStr printed)
  c := mpzFromHexStr gmp ((field privateKeyObj (lit "c")).toStr printed)
  d := mpzFromHexStr gmp ((field privateKeyObj (lit "d")).toStr printed)
  p := mpzFromHexStr gmp ((field privateKeyObj (lit "p")).toStr printed)
  q := mpzFromHexStr gmp ((field privateKeyObj (lit "q")).toStr printed)
  size := (field privateKeyObj (lit "s")).toLong

/-! ## Texts -/

/-- The text of a number that fits a `std::string` of so few bytes. -/
theorem mpzToHexStr_eq {z : Nat} (hz : gmp.mpz_sizeinbase z + 1 < 2 ^ 32) :
    mpzToHexStr gmp z = some (gmp.mpz_get_str z ++ [0]) := by
  have hlen : (UInt32.ofNat (gmp.mpz_sizeinbase z + 1)).toNat = (gmp.mpz_get_str z ++ [0]).length := by
    rw [UInt32.toNat_ofNat_of_lt' hz, List.length_append, gmp.sizeinbase_eq]
    rfl
  unfold mpzToHexStr
  dsimp only
  rw [hlen, List.length_replicate, if_pos (Nat.le_refl _)]
  exact congrArg some (overwrite_all (by rw [List.length_replicate]))

/-- A text that is too long is written behind the string. -/
theorem mpzToHexStr_overrun {z : Nat} (hz : 2 ^ 32 ≤ gmp.mpz_sizeinbase z + 1) :
    mpzToHexStr gmp z = none := by
  have hlt := (UInt32.ofNat (gmp.mpz_sizeinbase z + 1)).toNat_lt
  have hlen : (gmp.mpz_get_str z ++ [0]).length = gmp.mpz_sizeinbase z + 1 := by
    rw [List.length_append, gmp.sizeinbase_eq]
    rfl
  unfold mpzToHexStr
  dsimp only
  rw [hlen, List.length_replicate]
  exact if_neg (by omega)

/-- A text that is read stands for the number it was written for. -/
theorem mpzFromHexStr_text (z : Nat) : mpzFromHexStr gmp (gmp.mpz_get_str z) = z := by
  unfold mpzFromHexStr
  rw [cstr_of_nulFree (gmp.get_str_carried z).2]
  exact gmp.set_str_get_str z

theorem ofString_terminated (s : Bytes) : Value.ofString (s ++ [0]) = .string (s ++ [0]) := by
  cases s with
  | nil => rfl
  | cons b s => rfl

/-! ## The object of a key -/

/-- The numbers of a key, in the order of their names. -/
def RsaPublicKey.numbers (key : RsaPublicKey) : List (Bytes × Nat) :=
  [(lit "e", key.e), (lit "n", key.n)]

def RsaPrivateKey.numbers (key : RsaPrivateKey) : List (Bytes × Nat) :=
  [(lit "a", key.a), (lit "b", key.b), (lit "c", key.c), (lit "d", key.d), (lit "p", key.p),
    (lit "q", key.q)]

/-- The object of a key, whose texts end in `ending`. -/
def keyObject (ending : Bytes) (numbers : List (Bytes × Nat)) (size : BitVec 64) : Object :=
  numbers.map (fun f => (f.1, Value.string (gmp.mpz_get_str f.2 ++ ending)))
    ++ [(lit "s", .int64 size)]

/-- The numbers of a key are short enough for a `std::string` each. -/
def Short (numbers : List (Bytes × Nat)) : Prop :=
  ∀ f ∈ numbers, gmp.mpz_sizeinbase f.2 + 1 < 2 ^ 32

theorem publicKeyToUbj_eq {key : RsaPublicKey} (h : Short gmp key.numbers) :
    publicKeyToUbj gmp key = some (keyObject gmp [0] key.numbers key.size) := by
  have he := mpzToHexStr_eq gmp (h (lit "e", key.e) (by simp [RsaPublicKey.numbers]))
  have hn := mpzToHexStr_eq gmp (h (lit "n", key.n) (by simp [RsaPublicKey.numbers]))
  unfold publicKeyToUbj
  rw [he, hn]
  dsimp only [Option.bind_eq_bind, Option.bind_some]
  rw [ofString_terminated, ofString_terminated]
  rfl

theorem privateKeyToUbj_eq {key : RsaPrivateKey} (h : Short gmp key.numbers) :
    privateKeyToUbj gmp key = some (keyObject gmp [0] key.numbers key.size) := by
  have ha := mpzToHexStr_eq gmp (h (lit "a", key.a) (by simp [RsaPrivateKey.numbers]))
  have hb := mpzToHexStr_eq gmp (h (lit "b", key.b) (by simp [RsaPrivateKey.numbers]))
  have hc := mpzToHexStr_eq gmp (h (lit "c", key.c) (by simp [RsaPrivateKey.numbers]))
  have hd := mpzToHexStr_eq gmp (h (lit "d", key.d) (by simp [RsaPrivateKey.numbers]))
  have hp := mpzToHexStr_eq gmp (h (lit "p", key.p) (by simp [RsaPrivateKey.numbers]))
  have hq := mpzToHexStr_eq gmp (h (lit "q", key.q) (by simp [RsaPrivateKey.numbers]))
  unfold privateKeyToUbj
  rw [ha, hb, hc, hd, hp, hq]
  dsimp only [Option.bind_eq_bind, Option.bind_some]
  rw [ofString_terminated, ofString_terminated, ofString_terminated, ofString_terminated,
    ofString_terminated, ofString_terminated]
  rfl

/-- In a document the texts have no terminators. -/
theorem keyObject_trimmed (numbers : List (Bytes × Nat)) (size : BitVec 64) :
    (Value.object (keyObject gmp [0] numbers size)).trimmed = .object (keyObject gmp [] numbers size) := by
  rw [Value.trimmed, trimmedFields_eq_map]
  unfold keyObject
  rw [List.map_append, List.map_map]
  congr 2
  refine List.map_congr_left (fun f _ => ?_)
  show (f.1, Value.string (cstr (gmp.mpz_get_str f.2 ++ [0]))) = _
  rw [cstr_terminated (gmp.get_str_carried f.2).2, List.append_nil]

/-- The object of a key can be a document, as long as it is short. -/
theorem keyObject_document {numbers : List (Bytes × Nat)} {size : BitVec 64}
    (hnames : ∀ f ∈ numbers, Carried f.1)
    (hsorted : (numbers.map (·.1) ++ [lit "s"]).Pairwise (· < ·))
    (hlen : (encode (.object (keyObject gmp [] numbers size))).length < 2 ^ 32) :
    Document (.object (keyObject gmp [] numbers size)) := by
  have hfields : ∀ f ∈ keyObject gmp [] numbers size, Carried f.1 ∧ RoundTrip f.2 ∧ depth f.2 = 0 := by
    intro f hf
    rcases List.mem_append.mp hf with hf | hf
    · obtain ⟨g, hg, rfl⟩ := List.mem_map.mp hf
      dsimp only
      rw [List.append_nil]
      exact ⟨hnames g hg, .string (gmp.get_str_carried g.2), rfl⟩
    · obtain rfl := List.mem_singleton.mp hf
      exact ⟨(by unfold Carried; decide : Carried (lit "s")), .int64 size, rfl⟩
  have hmap : (keyObject gmp [] numbers size).map (·.1) = numbers.map (·.1) ++ [lit "s"] := by
    unfold keyObject
    rw [List.map_append, List.map_map]
    rfl
  refine ⟨.object ?_ ?_, rfl, ?_, hlen⟩
  · rw [← hmap] at hsorted
    exact List.pairwise_map.mp hsorted
  · exact roundTripFields_of_forall (fun f hf => ⟨(hfields f hf).1, (hfields f hf).2.1⟩)
  · have hdepth := depthFields_le.mpr (fun f hf => Nat.le_of_eq (hfields f hf).2.2)
    rw [depth]
    omega

/-! ## Keys come back -/

theorem ubjToPublicKey_keyObject (key : RsaPublicKey) :
    ubjToPublicKey gmp printed (keyObject gmp [] key.numbers key.size) = key := by
  have htext : ∀ z, mpzFromHexStr gmp (gmp.mpz_get_str z ++ []) = z := by
    intro z
    rw [List.append_nil]
    exact mpzFromHexStr_text gmp z
  exact congrArg₂ (fun n e => RsaPublicKey.mk key.size n e) (htext key.n) (htext key.e)

theorem ubjToPrivateKey_keyObject (key : RsaPrivateKey) :
    ubjToPrivateKey gmp printed (keyObject gmp [] key.numbers key.size) = key := by
  have htext : ∀ z, mpzFromHexStr gmp (gmp.mpz_get_str z ++ []) = z := by
    intro z
    rw [List.append_nil]
    exact mpzFromHexStr_text gmp z
  have hrun : ubjToPrivateKey gmp printed (keyObject gmp [] key.numbers key.size)
      = ⟨key.size, mpzFromHexStr gmp (gmp.mpz_get_str key.d ++ []),
        mpzFromHexStr gmp (gmp.mpz_get_str key.p ++ []), mpzFromHexStr gmp (gmp.mpz_get_str key.q ++ []),
        mpzFromHexStr gmp (gmp.mpz_get_str key.a ++ []), mpzFromHexStr gmp (gmp.mpz_get_str key.b ++ []),
        mpzFromHexStr gmp (gmp.mpz_get_str key.c ++ [])⟩ := rfl
  rw [hrun, htext, htext, htext, htext, htext, htext]

/-- What was converted to `k` comes back: from the document that is `k`, if that is not too long, and
from every document that has `k` at some place. -/
structure Survives (env : UbjrEnv) (val : Value) (k : Object) (back : Object → Prop) : Prop where
  alone : ∀ fuel, (encode (Value.object k).trimmed).length < 2 ^ 32 →
    fuelOf (Value.object k).trimmed ≤ fuel →
      ∃ k', reread env fuel val (.object k) [] = some k' ∧ back k'.toObject
  nested : ∀ v path fuel, v.at path = some (.object k) → Document v.trimmed →
    fuelOf v.trimmed ≤ fuel → ∃ k', reread env fuel val v path = some k' ∧ back k'.toObject

/-- The object of a key comes back without the terminators. -/
theorem keyObject_survives (env : UbjrEnv) (val : Value) {numbers : List (Bytes × Nat)}
    {size : BitVec 64} (hnames : ∀ f ∈ numbers, Carried f.1)
    (hsorted : (numbers.map (·.1) ++ [lit "s"]).Pairwise (· < ·)) {back : Object → Prop}
    (hback : back (keyObject gmp [] numbers size)) :
    Survives env val (keyObject gmp [0] numbers size) back := by
  have hnested : ∀ v path fuel, v.at path = some (.object (keyObject gmp [0] numbers size)) →
      Document v.trimmed → fuelOf v.trimmed ≤ fuel →
        ∃ k', reread env fuel val v path = some k' ∧ back k'.toObject := by
    intro v path fuel hat hdoc hfuel
    refine ⟨.object (keyObject gmp [] numbers size), ?_, hback⟩
    rw [reread_eq hdoc env val hfuel, hat, Option.map_some, keyObject_trimmed]
  refine ⟨fun fuel hlen hfuel => ?_, hnested⟩
  have hdoc : Document (Value.object (keyObject gmp [0] numbers size)).trimmed := by
    rw [keyObject_trimmed] at hlen ⊢
    exact keyObject_document gmp hnames hsorted hlen
  exact hnested _ [] fuel rfl hdoc hfuel

/-- **Keys come back from documents**, if their texts fit. -/
theorem keys_survive (env : UbjrEnv) (val : Value) :
    (∀ key : RsaPublicKey, Short gmp key.numbers → ∃ k, publicKeyToUbj gmp key = some k
      ∧ Survives env val k (fun k' => ubjToPublicKey gmp printed k' = key))
    ∧ ∀ key : RsaPrivateKey, Short gmp key.numbers → ∃ k, privateKeyToUbj gmp key = some k
      ∧ Survives env val k (fun k' => ubjToPrivateKey gmp printed k' = key) := by
  constructor
  · intro key hshort
    have hnames : ∀ f ∈ key.numbers, Carried f.1 := by
      have hall : ∀ name ∈ [lit "e", lit "n"], Carried name := by unfold Carried; decide
      exact fun f hf => hall f.1 (List.mem_map_of_mem hf)
    refine ⟨_, publicKeyToUbj_eq gmp hshort, keyObject_survives gmp env val hnames ?_
      (ubjToPublicKey_keyObject gmp printed key)⟩
    exact (by decide : [lit "e", lit "n", lit "s"].Pairwise (· < ·))
  · intro key hshort
    have hnames : ∀ f ∈ key.numbers, Carried f.1 := by
      have hall : ∀ name ∈ [lit "a", lit "b", lit "c", lit "d", lit "p", lit "q"], Carried name := by
        unfold Carried
        decide
      exact fun f hf => hall f.1 (List.mem_map_of_mem hf)
    refine ⟨_, privateKeyToUbj_eq gmp hshort, keyObject_survives gmp env val hnames ?_
      (ubjToPrivateKey_keyObject gmp printed key)⟩
    exact (by decide : [lit "a", lit "b", lit "c", lit "d", lit "p", lit "q", lit "s"].Pairwise (· < ·))

end

/-- A small key, alone and in an array. -/
theorem keys_survive_small :
    (∃ k, publicKeyToUbj Gmp.hex ⟨1, 0x8f, 7⟩ = some k
      ∧ (∃ k', reread ⟨0, fun _ => 0⟩ 80 .null (.object k) [] = some k'
        ∧ ubjToPublicKey Gmp.hex (fun _ => []) k'.toObject = ⟨1, 0x8f, 7⟩)
      ∧ ∃ k', reread ⟨0, fun _ => 0⟩ 80 .null (.array [.object k]) [.index 0] = some k'
        ∧ ubjToPublicKey Gmp.hex (fun _ => []) k'.toObject = ⟨1, 0x8f, 7⟩)
    ∧ ∃ k, privateKeyToUbj Gmp.hex ⟨1, 0x67, 11, 13, 3, 7, 6⟩ = some k
      ∧ ∃ k', reread ⟨0, fun _ => 0⟩ 200 .null (.object k) [] = some k'
        ∧ ubjToPrivateKey Gmp.hex (fun _ => []) k'.toObject = ⟨1, 0x67, 11, 13, 3, 7, 6⟩ := by
  obtain ⟨hpublic, hprivate⟩ := keys_survive Gmp.hex (fun _ => []) ⟨0, fun _ => 0⟩ .null
  constructor
  · obtain ⟨k, hk, hsurvives⟩ := hpublic ⟨1, 0x8f, 7⟩ (by unfold Short; decide)
    obtain rfl : keyObject Gmp.hex [0] [(lit "e", 7), (lit "n", 0x8f)] 1 = k :=
      Option.some.inj ((publicKeyToUbj_eq Gmp.hex (by unfold Short; decide)).symm.trans hk)
    refine ⟨_, hk, hsurvives.alone 80 (by decide) (by decide), hsurvives.nested _ _ 80 rfl ?_ (by decide)⟩
    have hdoc : Document (.object (keyObject Gmp.hex [] [(lit "e", 7), (lit "n", 0x8f)] 1)) :=
      keyObject_document Gmp.hex (by unfold Carried; decide) (by decide) (by decide)
    exact ⟨.array (.cons hdoc.roundTrip .nil), rfl, by decide, by decide⟩
  · obtain ⟨k, hk, hsurvives⟩ := hprivate ⟨1, 0x67, 11, 13, 3, 7, 6⟩ (by unfold Short; decide)
    obtain rfl : keyObject Gmp.hex [0] _ 1 = k :=
      Option.some.inj ((privateKeyToUbj_eq Gmp.hex (by unfold Short; decide)).symm.trans hk)
    exact ⟨_, hk, hsurvives.alone 200 (by decide) (by decide)⟩

/-- A key with a number that is too long, a one and zeros. -/
theorem publicKeyToUbj_overrun {zeros : Nat} (h : 2 ^ 32 ≤ zeros) (size : BitVec 64) (e : Nat) :
    publicKeyToUbj Gmp.hex ⟨size, 16 ^ zeros, e⟩ = none := by
  have hlong : 2 ^ 32 ≤ Gmp.hex.mpz_sizeinbase (16 ^ zeros) + 1 := by
    show 2 ^ 32 ≤ (Hex.ofNat (16 ^ zeros)).length + 1
    rw [Hex.length_ofNat_pow]
    omega
  unfold publicKeyToUbj
  rw [mpzToHexStr_overrun Gmp.hex hlong]
  cases mpzToHexStr Gmp.hex e with
  | none => rfl
  | some e => rfl

/-- With 2^32 zeros the length of the text is not a `uint32_t`. -/
theorem not_keys_survive :
    ¬ ∀ key : RsaPublicKey, ∃ k, publicKeyToUbj Gmp.hex key = some k
      ∧ ∃ fuel k', reread ⟨0, fun _ => 0⟩ fuel .null (.object k) [] = some k'
        ∧ ubjToPublicKey Gmp.hex (fun _ => []) k'.toObject = key := by
  intro h
  obtain ⟨zeros, hzeros⟩ : ∃ zeros, 2 ^ 32 ≤ zeros := ⟨2 ^ 32, Nat.le_refl _⟩
  obtain ⟨k, hk, -⟩ := h ⟨0, 16 ^ zeros, 3⟩
  rw [publicKeyToUbj_overrun hzeros] at hk
  cases hk

/-! ## Encrypting -/

/-- What is used of nettle. -/
structure Nettle where
  /-- A text, encrypted with the random bytes that the generator gives. -/
  rsa_encrypt : RsaPublicKey → Bytes → Option Nat
  /-- The text in a number, if it has at most so many bytes. -/
  rsa_decrypt : RsaPrivateKey → (length : Nat) → Nat → Option Bytes

/-- What is encrypted with the public key can be decrypted with the private one. -/
def Nettle.Pair (nettle : Nettle) (publicKey : RsaPublicKey) (privateKey : RsaPrivateKey) : Prop :=
  ∀ text z length, nettle.rsa_encrypt publicKey text = some z → text.length ≤ length →
    nettle.rsa_decrypt privateKey length z = some text

section

variable (gmp : Gmp) (printed : BitVec 64 → Bytes) (nettle : Nettle)

/-- `RSA::encrypt`. The number is written as `mpzToHexStr` writes it. -/
def RSA.encrypt (publicKeyObj : Object) (buf : MemoryBuffer) : Option MemoryBuffer :=
  match nettle.rsa_encrypt (ubjToPublicKey gmp printed publicKeyObj) buf.data with
  | some z => (mpzToHexStr gmp z).map MemoryBuffer.ofData
  | none => none

/-- `RSA::decrypt`. The number is read as `mpzFromHexStr` reads it. -/
def RSA.decrypt (privateKeyObj : Object) (buf : MemoryBuffer) : Option MemoryBuffer :=
  (nettle.rsa_decrypt (ubjToPrivateKey gmp printed privateKeyObj) 2048
    (mpzFromHexStr gmp buf.data)).map MemoryBuffer.ofData

variable {gmp printed nettle}

/-- What is encrypted is a number in base 16, with a NUL. -/
theorem RSA.encrypt_eq {publicKeyObj : Object} {buf res : MemoryBuffer}
    (h : RSA.encrypt gmp printed nettle publicKeyObj buf = some res) :
    ∃ z, nettle.rsa_encrypt (ubjToPublicKey gmp printed publicKeyObj) buf.data = some z
      ∧ res.data = gmp.mpz_get_str z ++ [0] := by
  unfold RSA.encrypt at h
  split at h
  · rename_i z hz
    obtain ⟨str, hstr, rfl⟩ := Option.map_eq_some_iff.mp h
    have hlen : gmp.mpz_sizeinbase z + 1 < 2 ^ 32 := by
      by_contra hlong
      rw [mpzToHexStr_overrun gmp (Nat.le_of_not_lt hlong)] at hstr
      cases hstr
    obtain rfl : gmp.mpz_get_str z ++ [0] = str :=
      Option.some.inj ((mpzToHexStr_eq gmp hlen).symm.trans hstr)
    refine ⟨z, hz, MemoryBuffer.ofData_data ?_⟩
    rw [List.length_append, ← gmp.sizeinbase_eq]
    exact hlen
  · cases h

/-- **A text of at most 2048 bytes** is there again, though its number goes through a text. -/
theorem RSA.decrypt_encrypt {publicKeyObj privateKeyObj : Object} {buf res : MemoryBuffer}
    (hpair : nettle.Pair (ubjToPublicKey gmp printed publicKeyObj)
      (ubjToPrivateKey gmp printed privateKeyObj)) (hsize : buf.size ≤ 2048)
    (h : RSA.encrypt gmp printed nettle publicKeyObj buf = some res) :
    RSA.decrypt gmp printed nettle privateKeyObj res = some buf := by
  obtain ⟨z, hz, hres⟩ := RSA.encrypt_eq h
  have hz' : mpzFromHexStr gmp res.data = z := by
    unfold mpzFromHexStr
    rw [hres, cstr_terminated (gmp.get_str_carried z).2 []]
    exact gmp.set_str_get_str z
  unfold RSA.decrypt
  rw [hz', hpair _ _ _ hz hsize, Option.map_some]
  exact congrArg some (MemoryBuffer.ext (MemoryBuffer.ofData_data buf.size_lt))

end

end Zway.Crypto
