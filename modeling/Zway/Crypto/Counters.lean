import Zway.Stream.Transfer

/-!
# The counters of a message

A message is encrypted under one key: its meta data from the salt of the message on, and
each resource from the salt that `resourceSalt` makes of it. The id of the resource stands
where the third word of the salt was, so that streams with different words begin at least
`2 ^ 32` counters apart, and no stream of less than `2 ^ 32` bytes gets that far, however it
is cut. `disjoint_iff` is the exact condition.
-/

namespace Zway

/-! ## The counters of `AES` -/

namespace AES

section

-- the cipher with a key, on one block
variable (aes_encrypt : Bytes → Bytes → Bytes)

/-- Calls of `ctr_crypt`, one after the other: the context and the text. -/
def ctr_crypts (a : AES) : List Bytes → AES × Bytes
  | [] => (a, [])
  | src :: srcs =>
      let c := a.ctr_crypt aes_encrypt src
      let rest := ctr_crypts c.1 srcs
      (rest.1, c.2 ++ rest.2)

/-- The counters that these calls put through the cipher. -/
def counters (a : AES) : List Bytes → List Bytes
  | [] => []
  | src :: srcs =>
      Ctr.counters a.ctr src.length ++ counters (a.ctr_crypt aes_encrypt src).1 srcs

theorem counters_eq : ∀ (a : AES) (srcs : List Bytes),
    a.counters aes_encrypt srcs = Ctr.allCounters a.ctr (srcs.map List.length)
  | _, [] => rfl
  | a, src :: srcs => by
      rw [counters, counters_eq _ srcs]
      rfl

theorem ctr_crypts_append : ∀ (a : AES) (srcs srcs' : List Bytes),
    a.ctr_crypts aes_encrypt (srcs ++ srcs')
      = (((a.ctr_crypts aes_encrypt srcs).1.ctr_crypts aes_encrypt srcs').1,
        (a.ctr_crypts aes_encrypt srcs).2
          ++ ((a.ctr_crypts aes_encrypt srcs).1.ctr_crypts aes_encrypt srcs').2)
  | _, [], _ => rfl
  | a, src :: srcs, srcs' => by
      rw [List.cons_append, ctr_crypts, ctr_crypts_append _ srcs srcs', ctr_crypts, List.append_assoc]

variable {aes_encrypt}

/-- **The text shows nothing of the cipher but its blocks at these counters.** -/
theorem ctr_crypts_congr {aes_encrypt' : Bytes → Bytes → Bytes} : ∀ {a : AES} {srcs : List Bytes},
    (∀ c ∈ a.counters aes_encrypt srcs, aes_encrypt a.key c = aes_encrypt' a.key c) →
    a.ctr_crypts aes_encrypt srcs = a.ctr_crypts aes_encrypt' srcs
  | _, [], _ => rfl
  | a, src :: srcs, h => by
      have hfirst : a.ctr_crypt aes_encrypt src = a.ctr_crypt aes_encrypt' src := by
        unfold ctr_crypt
        rw [Ctr.crypt_congr (fun c hc => h c (List.mem_append_left _ hc))]
      have hrest := @ctr_crypts_congr aes_encrypt' (a.ctr_crypt aes_encrypt src).1 srcs
        (fun c hc => h c (List.mem_append_right _ hc))
      rw [ctr_crypts, ctr_crypts, hrest, hfirst]

end

/-- What the loop of `AES::encrypt` gives to `ctr_crypt`. -/
def pieces (src : Bytes) (size bytesDone : UInt32) : List Bytes :=
  if bytesDone < size then
    let bytesToDo := chunkSize size bytesDone
    (src.drop bytesDone.toNat).take bytesToDo.toNat :: pieces src size (bytesDone + bytesToDo)
  else []
termination_by size.toNat - bytesDone.toNat
decreasing_by
  have h : bytesDone < size := ‹_›
  have hlt := UInt32.lt_iff_toNat_lt.mp h
  rw [add_chunkSize_toNat h]
  omega

/-- The loop is calls of `ctr_crypt` on the pieces. -/
theorem cryptLoop_pieces (aes_encrypt : Bytes → Bytes → Bytes) (src : Bytes) (size : UInt32) (a : AES)
    (n : UInt32) :
    cryptLoop aes_encrypt noCallback src size a n ()
      = (true, (a.ctr_crypts aes_encrypt (pieces src size n)).1,
        (a.ctr_crypts aes_encrypt (pieces src size n)).2, ()) := by
  fun_induction pieces src size n generalizing a with
  | case1 n hlt bytesToDo ih =>
    rw [cryptLoop, if_pos hlt]
    dsimp only [noCallback]
    rw [ih]
    rfl
  | case2 n hlt =>
    rw [cryptLoop, if_neg hlt]
    rfl

/-- The pieces make up the text. -/
theorem pieces_flatten {src : Bytes} {size : UInt32} (hsrc : size.toNat ≤ src.length) {n : UInt32}
    (hn : n ≤ size) : (pieces src size n).flatten = (src.take size.toNat).drop n.toNat := by
  fun_induction pieces src size n with
  | case1 n hlt bytesToDo ih =>
    have hnk := add_chunkSize_toNat hlt
    have hk := chunkSize_toNat hlt
    have hnat := UInt32.lt_iff_toNat_lt.mp hlt
    have hle : n + chunkSize size n ≤ size := by
      rw [UInt32.le_iff_toNat_le, hnk]
      omega
    have hpiece : (src.drop n.toNat).take (chunkSize size n).toNat
        = ((src.take size.toNat).drop n.toNat).take (chunkSize size n).toNat := by
      rw [List.drop_take, List.take_take, hk]
      congr 1
      omega
    have hnext : (n + chunkSize size n).toNat = n.toNat + (chunkSize size n).toNat := by
      rw [hnk, hk]
    rw [List.flatten_cons, ih hle, hpiece, hnext, ← List.drop_drop, List.take_append_drop]
  | case2 n hlt =>
    have hle := UInt32.le_iff_toNat_le.mp (UInt32.not_lt.mp hlt)
    rw [List.flatten_nil, List.drop_of_length_le]
    rw [List.length_take]
    omega

/-- The pieces of a whole call. -/
theorem pieces_whole {src : Bytes} (h : src.length < 2 ^ 32) :
    (pieces src (UInt32.ofNat src.length) 0).flatten = src := by
  have hsize : (UInt32.ofNat src.length).toNat = src.length := UInt32.toNat_ofNat_of_lt' h
  rw [pieces_flatten (Nat.le_of_eq hsize) (UInt32.zero_le ..), hsize, List.take_length]
  rfl

/-- A whole call is calls of `ctr_crypt` on its pieces. -/
theorem ctr_crypts_whole (aes_encrypt : Bytes → Bytes → Bytes) {src : Bytes} (h : src.length < 2 ^ 32)
    {a : AES} (hctr : a.ctr.length = 16) :
    a.ctr_crypts aes_encrypt (pieces src (UInt32.ofNat src.length) 0) = a.ctr_crypt aes_encrypt src := by
  have hsize : (UInt32.ofNat src.length).toNat = src.length := UInt32.toNat_ofNat_of_lt' h
  have hpieces := cryptLoop_pieces aes_encrypt src (UInt32.ofNat src.length) a 0
  have hwhole := encrypt_noCallback aes_encrypt (Nat.le_of_eq hsize) hctr
  unfold encrypt at hwhole
  rw [hpieces, hsize, List.take_length] at hwhole
  simp only [Prod.mk.injEq] at hwhole
  exact Prod.ext hwhole.2.1 hwhole.2.2.1

end AES

/-! ## Messages -/

/-- A salt as `PushRequest::init` makes one. -/
structure MessageSalt where
  buffer : MemoryBuffer
  size_eq : buffer.size = 16
  /-- Only the first 12 bytes are random. -/
  zero : buffer.data.drop 12 = [0, 0, 0, 0]

namespace MessageSalt

/-- `m_salt` of `PushRequest::init`, with the bytes that `Random::random` returns. -/
def ofRandom (random : Bytes) (h : random.length = 12) : MessageSalt where
  buffer := (MemoryBuffer.create 16).blit random 0
  size_eq := by rw [MemoryBuffer.blit_size, MemoryBuffer.create_size]; rfl
  zero := by
    have hdrop := @drop_overwrite _ (MemoryBuffer.create 16).data random 0 (by rw [h]; decide)
    rw [h] at hdrop
    exact hdrop

/-- The 32-bit word in the bytes 8 to 11. -/
def word (s : MessageSalt) : UInt32 := UInt32.ofNat (leNat ((s.buffer.data.drop 8).take 4))

/-- A salt is eight bytes, the word and a zero. -/
theorem data_eq (s : MessageSalt) :
    s.buffer.data = s.buffer.data.take 8 ++ leBytes 4 s.word.toNat ++ [0, 0, 0, 0] := by
  have hlen : s.buffer.data.length = 16 := s.size_eq
  have hword : ((s.buffer.data.drop 8).take 4).length = 4 := by
    rw [List.length_take, List.length_drop, hlen]
    rfl
  have hlt := leNat_lt ((s.buffer.data.drop 8).take 4)
  have hle := leBytes_leNat ((s.buffer.data.drop 8).take 4)
  rw [hword] at hlt hle
  have hbytes : leBytes 4 s.word.toNat = (s.buffer.data.drop 8).take 4 := by
    have hmod : s.word.toNat = leNat ((s.buffer.data.drop 8).take 4) :=
      Nat.mod_eq_of_lt (Nat.lt_of_lt_of_eq hlt (by decide))
    rw [hmod, hle]
  have hlast : (s.buffer.data.drop 8).drop 4 = [0, 0, 0, 0] := by
    rw [List.drop_drop]
    exact s.zero
  rw [hbytes, ← hlast, List.append_assoc, List.take_append_drop, List.take_append_drop]

end MessageSalt

/-- A text that is encrypted in pieces. -/
structure CutText where
  pieces : List Bytes
  pos : 0 < pieces.flatten.length
  lt : pieces.flatten.length < 2 ^ 32

namespace CutText

/-- The meta data: one call of `AES::encrypt`. -/
def ofMeta (buffer : MemoryBuffer) (h : 0 < buffer.size) : CutText where
  pieces := AES.pieces buffer.data (UInt32.ofNat buffer.size) 0
  pos := (congrArg List.length (AES.pieces_whole buffer.size_lt)).symm ▸ h
  lt := (congrArg List.length (AES.pieces_whole buffer.size_lt)).symm ▸ buffer.size_lt

/-- What a sender encrypts for its first packets: one call for each. -/
def packetPieces (buffer : MemoryBuffer) (k : Nat) : List Bytes :=
  (List.range k).flatMap (fun i =>
    AES.pieces (block 65536 i buffer.data) (UInt32.ofNat (block 65536 i buffer.data).length) 0)

theorem block_lt (i : Nat) (bs : Bytes) : (block 65536 i bs).length < 2 ^ 32 := by
  rw [block_length]
  omega

theorem packetPieces_succ (buffer : MemoryBuffer) (k : Nat) :
    packetPieces buffer (k + 1) = packetPieces buffer k
      ++ AES.pieces (block 65536 k buffer.data) (UInt32.ofNat (block 65536 k buffer.data).length) 0 := by
  unfold packetPieces
  rw [List.range_succ, List.flatMap_append, List.flatMap_singleton]

theorem packetPieces_flatten (buffer : MemoryBuffer) : ∀ (k : Nat),
    (packetPieces buffer k).flatten = buffer.data.take (k * 65536)
  | 0 => by rw [Nat.zero_mul, List.take_zero]; rfl
  | k + 1 => by
      rw [packetPieces_succ, List.flatten_append, packetPieces_flatten buffer k,
        AES.pieces_whole (block_lt k _), take_append_block]

theorem packetPieces_all (buffer : MemoryBuffer) :
    (packetPieces buffer (blockCount 65536 buffer.size)).flatten = buffer.data := by
  rw [packetPieces_flatten]
  exact List.take_of_length_le (le_blockCount_mul (by decide) buffer.size)

/-- A resource. -/
def ofResource (buffer : MemoryBuffer) (h : 0 < buffer.size) : CutText where
  pieces := packetPieces buffer (blockCount 65536 buffer.size)
  pos := (congrArg List.length (packetPieces_all buffer)).symm ▸ h
  lt := (congrArg List.length (packetPieces_all buffer)).symm ▸ buffer.size_lt

/-- **That is what is sent**: these pieces come out as the ciphertext of which the packets are cut,
and the context is always the one the sender has. -/
theorem packetPieces_ciphertext (aes_encrypt : Bytes → Bytes → Bytes) (key ctr : Bytes)
    (buffer : MemoryBuffer) : ∀ {k : Nat}, k ≤ blockCount 65536 buffer.size →
    (k < blockCount 65536 buffer.size →
        ((contextAt key ctr 0).ctr_crypts aes_encrypt (packetPieces buffer k)).1 = contextAt key ctr k)
      ∧ ((contextAt key ctr 0).ctr_crypts aes_encrypt (packetPieces buffer k)).2
        = (ciphertext aes_encrypt key ctr buffer).data.take (k * 65536)
  | 0, _ => ⟨fun _ => rfl, by rw [Nat.zero_mul, List.take_zero]; rfl⟩
  | k + 1, hk => by
      obtain ⟨hcontext, htext⟩ := packetPieces_ciphertext aes_encrypt key ctr buffer (Nat.le_of_lt hk)
      have hnext := AES.ctr_crypts_whole aes_encrypt (block_lt k buffer.data)
        (show (contextAt key ctr k).ctr.length = 16 from Ctr.advance_length ..)
      rw [packetPieces_succ, AES.ctr_crypts_append, hcontext hk, hnext, htext, contextAt_crypt,
        take_append_block]
      refine ⟨fun hlt => ?_, rfl⟩
      exact contextAt_next aes_encrypt key ctr
        (Nat.le_of_lt (mul_lt_of_lt_blockCount (by decide) hlt))

end CutText

namespace MessageSalt

section

variable (aes_encrypt : Bytes → Bytes → Bytes)

/-- The counters of a text that is encrypted from a salt on. -/
def countersFrom (key : MemoryBuffer) (salt : Option MemoryBuffer) (text : CutText) : List Bytes :=
  ((AES.new.setKey (some key)).setCtr salt).counters aes_encrypt text.pieces

/-- The counters of the meta data, and of each resource with its id. -/
def streams (s : MessageSalt) (key : MemoryBuffer) (metaData : CutText)
    (resources : List (UInt32 × CutText)) : List (List Bytes) :=
  countersFrom aes_encrypt key (some s.buffer) metaData
    :: resources.map (fun r => countersFrom aes_encrypt key (resourceSalt (some s.buffer) r.1) r.2)

variable {aes_encrypt} {s : MessageSalt}

/-- The counter of a stream whose word is `w`. -/
def start (s : MessageSalt) (w : UInt32) : Bytes :=
  s.buffer.data.take 8 ++ leBytes 4 w.toNat ++ [0, 0, 0, 0]

theorem start_length (w : UInt32) : (s.start w).length = 16 := by
  have hlen : s.buffer.data.length = 16 := s.size_eq
  unfold start
  rw [List.length_append, List.length_append, List.length_take, leBytes_length, hlen]
  rfl

theorem start_inj {w w' : UInt32} : s.start w = s.start w' ↔ w = w' := by
  constructor
  · intro h
    unfold start at h
    have hword := List.append_cancel_left (List.append_cancel_right h)
    have hnat := congrArg leNat hword
    rw [leNat_leBytes, leNat_leBytes, Nat.mod_eq_of_lt (Nat.lt_of_lt_of_eq w.toNat_lt (by decide)),
      Nat.mod_eq_of_lt (Nat.lt_of_lt_of_eq w'.toNat_lt (by decide))] at hnat
    exact UInt32.toNat_inj.mp hnat
  · rintro rfl
    rfl

theorem dvd_start (w : UInt32) : 2 ^ 32 ∣ beNat (s.start w) := by
  unfold start
  rw [beNat_append]
  exact ⟨_, by rw [Nat.mul_comm]; rfl⟩

theorem countersFrom_eq {key : MemoryBuffer} {salt : MemoryBuffer} {w : UInt32}
    (h : salt.data = s.start w) (text : CutText) :
    countersFrom aes_encrypt key (some salt) text
      = Ctr.allCounters (s.start w) (text.pieces.map List.length) := by
  unfold countersFrom
  rw [AES.counters_eq]
  unfold AES.setCtr
  dsimp only
  have htake : (s.start w).take AES.AES_BLOCK_SIZE = s.start w :=
    List.take_of_length_le (Nat.le_of_eq (start_length w))
  rw [h, htake]

/-- The words of the streams. -/
theorem streams_eq (key : MemoryBuffer) (metaData : CutText) (resources : List (UInt32 × CutText)) :
    s.streams aes_encrypt key metaData resources
      = ((s.word, metaData) :: resources).map (fun r =>
        Ctr.allCounters (s.start r.1) (r.2.pieces.map List.length)) := by
  unfold streams
  rw [List.map_cons, countersFrom_eq s.data_eq]
  congr 1
  refine List.map_congr_left (fun r _ => ?_)
  obtain ⟨salt, hsalt, hdata⟩ := resourceSalt_eq s.size_eq r.1
  rw [hsalt, countersFrom_eq hdata]

/-- Two streams are apart if their words are. -/
theorem disjoint_streams_iff (r r' : UInt32 × CutText) :
    (Ctr.allCounters (s.start r.1) (r.2.pieces.map List.length)).Disjoint
        (Ctr.allCounters (s.start r'.1) (r'.2.pieces.map List.length)) ↔ r.1 ≠ r'.1 := by
  have hsum : ∀ text : CutText, 0 < (text.pieces.map List.length).sum
      ∧ (text.pieces.map List.length).sum ≤ 2 ^ 32 := by
    intro text
    rw [← List.length_flatten]
    exact ⟨text.pos, Nat.le_of_lt text.lt⟩
  rw [Ctr.allCounters_disjoint_iff ⟨2 ^ 96, by decide⟩ (start_length _) (start_length _) (dvd_start _)
    (dvd_start _) (hsum r.2).1 (hsum r'.2).1 (hsum r.2).2 (hsum r'.2).2]
  exact not_congr start_inj

/-- **When no counter is used twice.** -/
theorem disjoint_iff (key : MemoryBuffer) (metaData : CutText) (resources : List (UInt32 × CutText)) :
    (s.streams aes_encrypt key metaData resources).Pairwise List.Disjoint
      ↔ (resources.map (·.1)).Nodup ∧ s.word ∉ resources.map (·.1) := by
  rw [streams_eq, List.pairwise_map]
  have hwords : ((s.word, metaData) :: resources).Pairwise (fun r r' =>
      (Ctr.allCounters (s.start r.1) (r.2.pieces.map List.length)).Disjoint
        (Ctr.allCounters (s.start r'.1) (r'.2.pieces.map List.length)))
      ↔ (((s.word, metaData) :: resources).map (·.1)).Nodup := by
    unfold List.Nodup
    rw [List.pairwise_map]
    exact List.Pairwise.iff (fun r r' => disjoint_streams_iff r r')
  rw [hwords, List.map_cons, List.nodup_cons]
  exact and_comm

end

end MessageSalt

end Zway
