import Zway.Store.BlobWrite

/-!
# Updating blobs

An update that succeeds puts the bytes it is given into its row, and no other row
notices: `blob_roundtrip`. One that does not may stop anywhere between the `UPDATE` and
the last chunk, and the bytes that are not written are then what was there before.
`updateBlobData_honest_iff` says for every pattern of failures whether the result tells
which it was.
-/

namespace Zway.Ubj.Store

open Sql

/-! ## The `UPDATE` -/

/-- A small integer gets through a wide column. -/
theorem setWidth_signExtend (i : BitVec 32) : (i.signExtend 64).setWidth 32 = i := by
  ext k hk
  rw [BitVec.getElem_setWidth, BitVec.getLsbD_signExtend]
  simp [hk]
  omega

/-- The zeros that stand for enciphered data until they are written. -/
def zeroData (data : MemoryBuffer) : Bytes :=
  List.replicate (BitVec.ofNat 32 data.size).toInt.toNat 0

/-- The size as a column. -/
def sizeVal (data : MemoryBuffer) : Val := .integer ((BitVec.ofNat 32 data.size).signExtend 64)

section

variable (sqlite : Behaviour) (behind : BitVec 32) {db : Db} {table : Bytes} {id : BitVec 64}

/-- Bytes as the value of a parameter. What is too big is not bound. -/
def blobVal (data : MemoryBuffer) : Val :=
  if data.size ≤ sqlite.maxLength then .blob data.data else .null

/-- The row after the `UPDATE` for enciphered data. -/
def encryptedRow (data salt : MemoryBuffer) (row : Row) : Row :=
  row.assign [(lit "data", .blob (zeroData data)), (lit "mode", .integer 1),
    (lit "salt", blobVal sqlite salt), (lit "size", sizeVal data)]

/-- The row after the `UPDATE` for plain data. -/
def plainRow (data : MemoryBuffer) (row : Row) : Row :=
  row.assign [(lit "data", blobVal sqlite data), (lit "mode", .integer 0), (lit "salt", .null),
    (lit "size", sizeVal data)]

/-- What the `UPDATE` leaves in the row. Empty plain data are not bound, so that the id comes to
stand in the place of the size and no row is the one that is meant. -/
def updatedRow (db : Db) (table : Bytes) (id : BitVec 64) (data : MemoryBuffer) :
    Option SaltBytes → Option Row
  | some random =>
      if acts db ∧ (zeroData data).length ≤ sqlite.maxLength then
        (db.row table id).map (encryptedRow sqlite data (newSalt random))
      else db.row table id
  | none =>
      if acts db ∧ 0 < data.size then (db.row table id).map (plainRow sqlite data)
      else db.row table id

theorem newSalt_size (random : SaltBytes) : (newSalt random).size = 16 := by
  unfold newSalt
  rw [MemoryBuffer.blit_size]
  rfl

/-- A buffer that is not empty is bound. -/
theorem bindUbj_buffer {data : MemoryBuffer} (h : 0 < data.size) :
    bindUbj behind false (.buffer data.data) = some (.value (.blob data.data)) := by
  have hne : data.data.isEmpty = false := MemoryBuffer.empty_eq_false.mpr h
  show (if (!data.data.isEmpty) = true then _ else _) = _
  rw [hne]
  rfl

/-- The value of a parameter. -/
def capped : Val → Val
  | .blob data => if data.length ≤ sqlite.maxLength then .blob data else .null
  | v => v

theorem paramVals_cons {v : Value} {x : Val} (h : bindUbj behind false v = some (.value x))
    (rest : List Value) :
    paramVals sqlite behind (v :: rest) =
      (paramVals sqlite behind rest).map (capped sqlite x :: ·) := by
  unfold paramVals bindUbjToStmt
  rw [List.filterMap_cons_some h, List.map_cons, List.mapM_cons]
  refine (congrArg (Option.bind · _) (?_ : _ = some (capped sqlite x))).trans ?_
  · cases x with
    | blob data =>
      show Param.val sqlite (if _ then _ else _) = some (if _ then _ else _)
      by_cases hlen : data.length ≤ sqlite.maxLength
      · rw [if_pos hlen, if_pos hlen]
        rfl
      · rw [if_neg hlen, if_neg hlen]
        rfl
    | null => rfl
    | integer i => rfl
    | real bits => rfl
    | text t => rfl
  · cases List.mapM (Param.val sqlite) _ with
    | none => rfl
    | some vals => rfl

theorem paramVals_cons_zeroblob {v : Value} {n : Nat}
    (h : bindUbj behind false v = some (.zeroblob n)) (rest : List Value) :
    paramVals sqlite behind (v :: rest) =
      if n ≤ sqlite.maxLength then
        (paramVals sqlite behind rest).map (.blob (List.replicate n 0) :: ·)
      else none := by
  unfold paramVals bindUbjToStmt
  rw [List.filterMap_cons_some h, List.map_cons, List.mapM_cons]
  show (if n ≤ sqlite.maxLength then some _ else none).bind _ = _
  by_cases hn : n ≤ sqlite.maxLength
  · rw [if_pos hn, if_pos hn]
    cases List.mapM (Param.val sqlite) _ with
    | none => rfl
    | some vals => rfl
  · rw [if_neg hn, if_neg hn]
    rfl

theorem paramVals_cons_none {v : Value} (h : bindUbj behind false v = none) (rest : List Value) :
    paramVals sqlite behind (v :: rest) = paramVals sqlite behind rest := by
  unfold paramVals bindUbjToStmt
  rw [List.filterMap_cons_none h]

theorem paramVals_encryptedRec (id : BitVec 64) (data : MemoryBuffer) {salt : MemoryBuffer} (h : 0 < salt.size) :
    paramVals sqlite behind ((encryptedRec data salt).map (·.2) ++ [.int64 id]) =
      if (zeroData data).length ≤ sqlite.maxLength then
        some [.blob (zeroData data), .integer 1, blobVal sqlite salt, sizeVal data, .integer id]
      else none := by
  show paramVals sqlite behind [.object [(lit "$zeroBlob", sizeValue data)], .bool true,
    .buffer salt.data, sizeValue data, .int64 id] = _
  have hzero : bindUbj behind false (.object [(lit "$zeroBlob", sizeValue data)])
      = some (.zeroblob (zeroData data).length) := by
    unfold zeroData
    rw [List.length_replicate]
    show some (Param.zeroblob (BitVec.setWidth 32 (BitVec.signExtend 64 _)).toInt.toNat) = _
    rw [setWidth_signExtend]
  rw [paramVals_cons_zeroblob sqlite behind hzero, paramVals_cons sqlite behind rfl,
    paramVals_cons sqlite behind (bindUbj_buffer behind h), paramVals_cons sqlite behind rfl,
    paramVals_cons sqlite behind rfl]
  have hdata : List.replicate (zeroData data).length (0 : UInt8) = zeroData data := by
    unfold zeroData
    rw [List.length_replicate]
  rw [hdata]
  rfl

theorem paramVals_plainRec (id : BitVec 64) {data : MemoryBuffer} (h : 0 < data.size) :
    paramVals sqlite behind ((plainRec data).map (·.2) ++ [.int64 id]) =
      some [blobVal sqlite data, .integer 0, .null, sizeVal data, .integer id] := by
  show paramVals sqlite behind [.buffer data.data, .bool false,
    .object [(lit "$bindNull", .int32 1)], sizeValue data, .int64 id] = _
  rw [paramVals_cons sqlite behind (bindUbj_buffer behind h), paramVals_cons sqlite behind rfl,
    paramVals_cons sqlite behind rfl, paramVals_cons sqlite behind rfl,
    paramVals_cons sqlite behind rfl]
  rfl

/-- Every parameter gets the value of the one before it. -/
theorem paramVals_plainRec_empty (id : BitVec 64) {data : MemoryBuffer} (h : data.size = 0) :
    paramVals sqlite behind ((plainRec data).map (·.2) ++ [.int64 id]) =
      some [.integer 0, .null, sizeVal data, .integer id] := by
  have hempty : data.data = [] := List.length_eq_zero_iff.mp h
  show paramVals sqlite behind [.buffer data.data, .bool false,
    .object [(lit "$bindNull", .int32 1)], sizeValue data, .int64 id] = _
  rw [paramVals_cons_none sqlite behind (by rw [hempty]; rfl), paramVals_cons sqlite behind rfl,
    paramVals_cons sqlite behind rfl, paramVals_cons sqlite behind rfl,
    paramVals_cons sqlite behind rfl]
  rfl

section

variable (htable : HasBlobTable db table)
include htable

/-- **The `UPDATE` of `Store::updateBlobData`.** -/
theorem update_encryptedRec (id : BitVec 64) (data : MemoryBuffer) (random : SaltBytes) :
    RowSet db table id (updatedRow sqlite db table id data (some random))
        (update sqlite behind db table (encryptedRec data (newSalt random))
          [(lit "rowid", .int64 id)]).2
      ∧ (update sqlite behind db table (encryptedRec data (newSalt random))
          [(lit "rowid", .int64 id)]).2.calls = statementCalls db := by
  have hsalt : 0 < (newSalt random).size := by
    rw [newSalt_size]
    decide
  have hof : OfBlobTable (encryptedRec data (newSalt random)) := by
    have hcolumns : ∀ c ∈ [lit "data", lit "mode", lit "salt", lit "size"],
        c ∈ [lit "mode", lit "size", lit "salt", lit "data"] := by decide
    exact fun p hp => hcolumns p.1 (List.mem_map_of_mem hp)
  have hne : encryptedRec data (newSalt random) ≠ [] := List.cons_ne_nil _ _
  have hvals := paramVals_encryptedRec sqlite behind id data hsalt
  unfold updatedRow
  dsimp only
  by_cases hmax : (zeroData data).length ≤ sqlite.maxLength
  · rw [if_pos hmax] at hvals
    rw [update_eq sqlite behind htable hof hne hvals rfl]
    by_cases hacts : acts db = true
    · have hfirst : db.succeeds db.calls = true := (Bool.and_eq_true .. ▸ hacts).1
      rw [if_pos hacts, if_pos ⟨hacts, hmax⟩]
      exact ⟨RowSet.modified htable id _ _, (if_pos hfirst).symm⟩
    · rw [if_neg hacts, if_neg (fun h => hacts h.1)]
      exact ⟨RowSet.after htable id _, rfl⟩
  · rw [if_neg hmax] at hvals
    rw [update_eq_of_none sqlite behind htable hof hne hvals, if_neg (fun h => hmax h.2)]
    exact ⟨RowSet.after htable id _, rfl⟩

theorem update_plainRec (id : BitVec 64) (data : MemoryBuffer) :
    RowSet db table id (updatedRow sqlite db table id data none)
      (update sqlite behind db table (plainRec data) [(lit "rowid", .int64 id)]).2 := by
  have hof : OfBlobTable (plainRec data) := by
    have hcolumns : ∀ c ∈ [lit "data", lit "mode", lit "salt", lit "size"],
        c ∈ [lit "mode", lit "size", lit "salt", lit "data"] := by decide
    exact fun p hp => hcolumns p.1 (List.mem_map_of_mem hp)
  have hne : plainRec data ≠ [] := List.cons_ne_nil _ _
  unfold updatedRow
  dsimp only
  by_cases hsize : 0 < data.size
  · have hvals := paramVals_plainRec sqlite behind id hsize
    rw [update_eq sqlite behind htable hof hne hvals rfl]
    by_cases hacts : acts db = true
    · rw [if_pos hacts, if_pos ⟨hacts, hsize⟩]
      exact RowSet.modified htable id _ _
    · rw [if_neg hacts, if_neg (fun h => hacts h.1)]
      exact RowSet.after htable id _
  · have hvals := paramVals_plainRec_empty sqlite behind id (Nat.eq_zero_of_not_pos hsize)
    rw [update_eq_of_null sqlite behind htable hof hne hvals rfl, if_neg (fun h => hsize h.2)]
    exact RowSet.after htable id _

end

/-! ## What `Store::updateBlobData` leaves -/

variable (aes_encrypt : Bytes → Bytes → Bytes) (key : MemoryBuffer)

/-- How many bytes get to the row by incremental I/O. -/
def delivered (db : Db) (table : Bytes) (id : BitVec 64) (data : MemoryBuffer) :
    Option SaltBytes → Nat
  | some random =>
      reaching (db.after (statementCalls db)) (updatedRow sqlite db table id data (some random))
        (UInt32.ofNat data.size)
  | none => 0

/-- **What comes of an update**, whatever fails. -/
theorem updateBlobData_readBack (htable : HasBlobTable db table) (id : BitVec 64)
    (data : MemoryBuffer) {random : Option SaltBytes} {encrypt : Bool}
    (hrandom : encrypt = true → random.isSome = true) :
    (updateBlobData sqlite behind aes_encrypt key random db table id (some data) encrypt).1
        = id.setWidth 32
      ∧ ∃ row', RowSet db table id row'
          (updateBlobData sqlite behind aes_encrypt key random db table id (some data) encrypt).2
        ∧ readBack aes_encrypt key row' =
            (readBack aes_encrypt key
              (updatedRow sqlite db table id data (if encrypt then random else none))).map
                (overwrite · 0 (data.data.take
                  (delivered sqlite db table id data (if encrypt then random else none)))) := by
  cases encrypt with
  | true =>
    obtain ⟨random, rfl⟩ := Option.isSome_iff_exists.mp (hrandom rfl)
    obtain ⟨hset, hcalls⟩ := update_encryptedRec sqlite behind htable id data random
    obtain ⟨row', hwritten, hread⟩ :=
      writeBlob_readBack sqlite behind aes_encrypt key hset.blobTable id data
    refine ⟨rfl, row', hset.trans hwritten, hread.trans ?_⟩
    have hreach := @reaching_congr (db.after (statementCalls db)) _ hset.succeeds hcalls
      (updatedRow sqlite db table id data (some random)) (UInt32.ofNat data.size)
    rw [hset.row, hreach]
    rfl
  | false =>
    refine ⟨rfl, _, update_plainRec sqlite behind htable id data, ?_⟩
    show _ = Option.map (overwrite · 0 (data.data.take 0)) _
    rw [List.take_zero]
    simp only [overwrite_nil]
    rw [Option.map_id']
    rfl

/-- What `Store::getBlobData` reads when nothing fails. -/
def stored (db : Db) (table : Bytes) (id : BitVec 64) : Option MemoryBuffer :=
  (getBlobData sqlite behind aes_encrypt key { db with succeeds := fun _ => true } table id).1

theorem stored_eq (htable : HasBlobTable db table) :
    (stored sqlite behind aes_encrypt key db table id).map (·.data)
      = readBack aes_encrypt key (db.row table id) := by
  have h := @getBlobData_eq sqlite behind aes_encrypt key { db with succeeds := fun _ => true } table
    id ⟨htable.name, htable.exists_table⟩ (fun _ => rfl)
  unfold stored readBack
  rw [h]
  rfl

/-- What `Store::updateBlobData` returns tells whether the new data are there or the old ones still
are. -/
def Honest (random : Option SaltBytes) (db : Db) (table : Bytes) (id : BitVec 64)
    (data : Option MemoryBuffer) (encrypt : Bool) : Prop :=
  let u := updateBlobData sqlite behind aes_encrypt key random db table id data encrypt
  (u.1 ≠ 0 → data.isSome = true ∧ stored sqlite behind aes_encrypt key u.2 table id = data)
    ∧ (u.1 = 0 → stored sqlite behind aes_encrypt key u.2 table id
        = stored sqlite behind aes_encrypt key db table id)

/-- Whether the result of `Store::updateBlobData` tells the truth. There is always a result but for
ids that are zero as a `uint32_t`, and so what must be there after the `UPDATE` is the end of the data
from the first byte on that is not written; for those ids it is what was there before. -/
def Tells (random : Option SaltBytes) (db : Db) (table : Bytes) (id : BitVec 64)
    (data : Option MemoryBuffer) (encrypt : Bool) : Prop :=
  match data with
  | none => True
  | some data =>
      (encrypt = true ∧ random = none) ∨
        let salt := if encrypt then random else none
        let there := readBack aes_encrypt key (updatedRow sqlite db table id data salt)
        let k := delivered sqlite db table id data salt
        if id.setWidth 32 = 0 then
          there.map (overwrite · 0 (data.data.take k)) = readBack aes_encrypt key (db.row table id)
        else ∃ bs, there = some bs ∧ bs.length = data.size ∧ bs.drop k = data.data.drop k

/-- Writing the beginning of some bytes makes all of them, if the end is there. -/
theorem overwrite_take_eq_iff (bs cs : Bytes) (k : Nat) :
    overwrite bs 0 (cs.take k) = cs ↔ bs.length = cs.length ∧ bs.drop k = cs.drop k := by
  constructor
  · intro h
    have hlen : bs.length = cs.length := by
      rw [← congrArg List.length h, overwrite_length]
    refine ⟨hlen, ?_⟩
    by_cases hk : k ≤ cs.length
    · have htake : (cs.take k).length = k := by
        rw [List.length_take]
        exact Nat.min_eq_left hk
      have hdrop := @drop_overwrite _ bs (cs.take k) 0 (by omega)
      rw [htake, Nat.zero_add, h] at hdrop
      exact hdrop.symm
    · rw [List.drop_of_length_le (by omega), List.drop_of_length_le (by omega)]
  · rintro ⟨hlen, hdrop⟩
    rw [overwrite_zero, List.length_take]
    by_cases hk : k ≤ cs.length
    · rw [Nat.min_eq_left hk, hdrop, List.take_take, hlen, Nat.min_eq_right hk,
        List.take_append_drop]
    · rw [Nat.min_eq_right (by omega), List.drop_of_length_le (Nat.le_of_eq hlen),
        List.append_nil, List.take_take, hlen, Nat.min_eq_left (by omega), List.take_length]

theorem data_injective : Function.Injective MemoryBuffer.data := fun _ _ => MemoryBuffer.ext

/-- **An update is honest and atomic** exactly if what is not written was already there. -/
theorem updateBlobData_honest_iff (htable : HasBlobTable db table) (random : Option SaltBytes)
    (data : Option MemoryBuffer) (encrypt : Bool) :
    Honest sqlite behind aes_encrypt key random db table id data encrypt
      ↔ Tells sqlite aes_encrypt key random db table id data encrypt := by
  unfold Honest
  dsimp only
  cases data with
  | none =>
    exact ⟨fun _ => trivial, fun _ => ⟨fun h => absurd rfl h, fun _ => rfl⟩⟩
  | some data =>
    unfold Tells
    dsimp only
    by_cases hrandom : encrypt = true ∧ random = none
    · obtain ⟨rfl, rfl⟩ := hrandom
      exact ⟨fun _ => .inl ⟨rfl, rfl⟩, fun _ => ⟨fun h => absurd rfl h, fun _ => rfl⟩⟩
    · have hsome : encrypt = true → random.isSome = true := by
        intro hencrypt
        by_contra hne
        exact hrandom ⟨hencrypt, Option.not_isSome_iff_eq_none.mp hne⟩
      obtain ⟨hret, row', hset, hread⟩ :=
        updateBlobData_readBack sqlite behind aes_encrypt key htable id data hsome
      have hafter := @stored_eq sqlite behind _ _ id aes_encrypt key hset.blobTable
      have hbefore := @stored_eq sqlite behind _ _ id aes_encrypt key htable
      rw [hset.row, hread] at hafter
      rw [hret, or_iff_right hrandom]
      generalize stored sqlite behind aes_encrypt key
        (updateBlobData sqlite behind aes_encrypt key random db table id (some data) encrypt).2
        table id = after at hafter
      generalize readBack aes_encrypt key
        (updatedRow sqlite db table id data (if encrypt = true then random else none)) = there
        at hafter
      by_cases hid : id.setWidth 32 = 0
      · rw [if_pos hid, ← hafter, ← hbefore]
        constructor
        · rintro ⟨-, hsame⟩
          rw [hsame hid]
        · intro hsame
          exact ⟨fun hne => absurd hid hne,
            fun _ => Option.map_injective data_injective hsame⟩
      · rw [if_neg hid]
        constructor
        · rintro ⟨hnew, -⟩
          rw [(hnew hid).2] at hafter
          obtain ⟨bs, hthere, hall⟩ := Option.map_eq_some_iff.mp hafter.symm
          exact ⟨bs, hthere, (overwrite_take_eq_iff ..).mp hall⟩
        · rintro ⟨bs, hthere, hlen, hdrop⟩
          refine ⟨fun _ => ⟨rfl, Option.map_injective data_injective ?_⟩, fun h => absurd h hid⟩
          rw [hafter, hthere]
          exact congrArg some ((overwrite_take_eq_iff ..).mpr ⟨hlen, hdrop⟩)

end

/-! ## What is read from a row that was just written -/

section

variable {row : Row}

theorem modeOf_eq {i : BitVec 64} (h : row (lit "mode") = .integer i) :
    modeOf row = (i.setWidth 32 != 0) := by
  unfold modeOf info rowToUbj
  simp only [List.foldl_cons, List.foldl_nil]
  rw [h]
  cases columnToUbj (row (lit "size")) with
  | none => cases columnToUbj (row (lit "salt")) with
    | none => rfl
    | some salt => rfl
  | some size => cases columnToUbj (row (lit "salt")) with
    | none => rfl
    | some salt => rfl

theorem sizeOf_eq {data : MemoryBuffer} (h : row (lit "size") = sizeVal data) :
    sizeOf row = UInt32.ofNat data.size := by
  have hwidth : ((BitVec.ofNat 32 data.size).signExtend 64).setWidth 32 = BitVec.ofNat 32 data.size :=
    setWidth_signExtend _
  have hfield : field (info row) (lit "size")
      = .int64 ((BitVec.ofNat 32 data.size).signExtend 64) := by
    unfold info rowToUbj
    simp only [List.foldl_cons, List.foldl_nil]
    rw [h]
    cases columnToUbj (row (lit "mode")) with
    | none => cases columnToUbj (row (lit "salt")) with
      | none => rfl
      | some salt => rfl
    | some mode => cases columnToUbj (row (lit "salt")) with
      | none => rfl
      | some salt => rfl
  unfold sizeOf
  rw [hfield]
  show UInt32.ofBitVec (((BitVec.ofNat 32 data.size).signExtend 64).setWidth 32) = _
  rw [hwidth]
  rfl

variable (aes_encrypt : Bytes → Bytes → Bytes) (key : MemoryBuffer)

theorem readBack_of_fits {data : MemoryBuffer} (hsize : row (lit "size") = sizeVal data)
    (hlt : data.size < 2 ^ 31) {bs : Bytes} (hdata : dataOf row = some bs)
    (hlen : bs.length = data.size) :
    readBack aes_encrypt key (some row) = some (crypt aes_encrypt key row bs) := by
  have hsizeOf := sizeOf_eq hsize
  have hnat : (sizeOf row).toNat = bs.length := by
    rw [hsizeOf, size_toNat, hlen]
  have h := contents_of_fits aes_encrypt key hdata ⟨by omega, Nat.le_of_eq hnat⟩
  rw [hnat, List.take_length] at h
  exact h

variable (sqlite : Behaviour) (behind : BitVec 32)

/-- Plain data are read as they are. -/
theorem readBack_plain {data : MemoryBuffer} (hmax : data.size ≤ sqlite.maxLength)
    (hdata : row (lit "data") = blobVal sqlite data) (hmode : row (lit "mode") = .integer 0)
    (hsize : row (lit "size") = sizeVal data) :
    readBack aes_encrypt key (some row) = some data.data := by
  have hbytes : dataOf row = some data.data := by
    unfold dataOf blobVal at *
    rw [hdata, if_pos hmax]
    rfl
  have hlt := Nat.lt_of_le_of_lt hmax sqlite.maxLength_lt
  rw [readBack_of_fits aes_encrypt key hsize hlt hbytes rfl]
  have hplain : ¬ modeOf row = true := by
    rw [modeOf_eq hmode]
    decide
  exact congrArg some (if_neg hplain)

theorem zeroData_length {data : MemoryBuffer} (h : data.size < 2 ^ 31) :
    (zeroData data).length = data.size := by
  unfold zeroData
  rw [List.length_replicate, BitVec.toInt_eq_toNat_of_lt (by rw [BitVec.toNat_ofNat]; omega),
    BitVec.toNat_ofNat, Int.toNat_natCast,
    Nat.mod_eq_of_lt (show data.size < 2 ^ 32 from data.size_lt)]

theorem readBack_encryptedRow {data : MemoryBuffer} (hlt : data.size < 2 ^ 31)
    (salt : MemoryBuffer) (row : Row) :
    ∃ bs, readBack aes_encrypt key (some (encryptedRow sqlite data salt row)) = some bs
      ∧ bs.length = data.size := by
  have hlen := zeroData_length hlt
  have hsize : encryptedRow sqlite data salt row (lit "size") = sizeVal data := rfl
  refine ⟨_, readBack_of_fits aes_encrypt key hsize hlt rfl hlen, ?_⟩
  rw [crypt_length, hlen]

/-! ## When nothing fails -/

/-- Every piece is written. -/
theorem writtenPieces_eq {succeeds : Nat → Bool} (hok : ∀ n, succeeds n = true) {room : Nat}
    {size done : UInt32} (hroom : size.toNat ≤ room) (hdone : done ≤ size) (calls : Nat) :
    writtenPieces succeeds room size done calls = size.toNat := by
  generalize hm : size.toNat - done.toNat = m
  induction m using Nat.strong_induction_on generalizing done calls with
  | _ m ih =>
    rw [writtenPieces]
    by_cases hlt : done < size
    · have hnat := UInt32.lt_iff_toNat_lt.mp hlt
      have hnext := AES.add_chunkSize_toNat hlt
      rw [if_pos hlt, if_pos ⟨hok _, by omega⟩]
      exact ih _ (by omega) (by rw [UInt32.le_iff_toNat_le]; omega) _ rfl
    · rw [if_neg hlt]

section

variable {db : Db} {table : Bytes} {id : BitVec 64} (hok : ∀ n, db.succeeds n = true)
include hok

omit behind aes_encrypt key in
theorem delivered_eq {data : MemoryBuffer} (hmax : data.size ≤ sqlite.maxLength)
    (hrow : (db.row table id).isSome = true) (random : SaltBytes) :
    delivered sqlite db table id data (some random) = data.size := by
  obtain ⟨row, hsome⟩ := Option.isSome_iff_exists.mp hrow
  have hlt := Nat.lt_of_le_of_lt hmax sqlite.maxLength_lt
  have hzero := zeroData_length hlt
  have hacts := acts_of_succeeds hok
  have hopens : opens (db.after (statementCalls db)) = true := opens_of_succeeds hok
  have hset : updatedRow sqlite db table id data (some random)
      = some (encryptedRow sqlite data (newSalt random) row) := by
    unfold updatedRow
    rw [hsome]
    exact if_pos ⟨hacts, by rw [hzero]; exact hmax⟩
  have hdata : dataOf (encryptedRow sqlite data (newSalt random) row) = some (zeroData data) := rfl
  have hsize : sizeOf (encryptedRow sqlite data (newSalt random) row) = UInt32.ofNat data.size :=
    sizeOf_eq rfl
  have hmode : modeOf (encryptedRow sqlite data (newSalt random) row) = true := by
    rw [modeOf_eq (i := 1) rfl]
    decide
  have hfits : Fits (encryptedRow sqlite data (newSalt random) row) (zeroData data) := by
    unfold Fits
    rw [hsize, size_toNat, hzero]
    exact ⟨hlt, Nat.le_refl _⟩
  unfold delivered
  dsimp only
  rw [hset]
  unfold reaching written
  dsimp only
  rw [hdata, Option.getD_some, if_pos ⟨hopens, hfits⟩, if_pos hmode]
  have hall := @writtenPieces_eq db.succeeds hok (zeroData data).length (UInt32.ofNat data.size) 0
    (by rw [size_toNat, hzero]) (UInt32.zero_le ..)
  rw [size_toNat] at hall
  exact hall _

/-- **An update puts the data in their place.** -/
theorem updateBlobData_eq (htable : HasBlobTable db table) {data : MemoryBuffer}
    (hpos : 0 < data.size) (hmax : data.size ≤ sqlite.maxLength)
    (hrow : (db.row table id).isSome = true) (random : SaltBytes) (encrypt : Bool) :
    ∃ row', RowSet db table id row' (updateBlobData sqlite behind aes_encrypt key (some random) db
        table id (some data) encrypt).2
      ∧ readBack aes_encrypt key row' = some data.data := by
  obtain ⟨row, hsome⟩ := Option.isSome_iff_exists.mp hrow
  have hlt := Nat.lt_of_le_of_lt hmax sqlite.maxLength_lt
  have hacts := acts_of_succeeds hok
  have hsalt : encrypt = true → (some random).isSome = true := fun _ => rfl
  obtain ⟨-, row', hset, hread⟩ :=
    updateBlobData_readBack sqlite behind aes_encrypt key htable id data hsalt
  refine ⟨row', hset, hread.trans ?_⟩
  cases encrypt with
  | true =>
    obtain ⟨bs, hbs, hlen⟩ :=
      readBack_encryptedRow aes_encrypt key sqlite hlt (newSalt random) row
    have hupdated : updatedRow sqlite db table id data (some random)
        = some (encryptedRow sqlite data (newSalt random) row) := by
      unfold updatedRow
      rw [hsome]
      exact if_pos ⟨hacts, by rw [zeroData_length hlt]; exact hmax⟩
    have hall := delivered_eq sqlite hok hmax hrow random
    show Option.map (overwrite · 0 (data.data.take
      (delivered sqlite db table id data (some random)))) (readBack aes_encrypt key
        (updatedRow sqlite db table id data (some random))) = _
    rw [hall, hupdated, hbs]
    exact congrArg some ((overwrite_take_eq_iff ..).mpr ⟨hlen, by
      rw [List.drop_of_length_le (Nat.le_of_eq hlen)]
      exact (List.drop_of_length_le (Nat.le_refl _)).symm⟩)
  | false =>
    have hupdated : updatedRow sqlite db table id data none = some (plainRow sqlite data row) := by
      unfold updatedRow
      rw [hsome]
      exact if_pos ⟨hacts, hpos⟩
    have hdata : plainRow sqlite data row (lit "data") = blobVal sqlite data := rfl
    have hplain := readBack_plain aes_encrypt key sqlite hmax hdata rfl rfl
    show Option.map (overwrite · 0 (data.data.take 0)) (readBack aes_encrypt key
        (updatedRow sqlite db table id data none)) = _
    rw [hupdated, hplain, List.take_zero, Option.map_some, overwrite_nil]

end

end

/-! ## An update that fails and says that it did not -/

/-- A table with one plain blob, and calls that succeed or not. -/
def oneBlob (succeeds : Nat → Bool) : Db where
  tables := fun table =>
    if table = lit "blobs" then
      some ⟨lit "id", [lit "mode", lit "size", lit "salt", lit "data"],
        [(1, Row.assign (fun _ => .null)
          [(lit "data", .blob [3]), (lit "mode", .integer 0), (lit "size", .integer 1)])]⟩
    else none
  succeeds := succeeds
  calls := 0

theorem oneBlob_hasBlobTable (succeeds : Nat → Bool) :
    HasBlobTable (oneBlob succeeds) (lit "blobs") := ⟨by decide, _, rfl, rfl, rfl⟩

/-- In the case of a statement that cannot be prepared. -/
theorem updateBlobData_honest_iff_locked :
    Honest Behaviour.plain 0 (fun _ block => block) (MemoryBuffer.create 32) none
        (oneBlob (fun _ => false)) (lit "blobs") 1 (some (MemoryBuffer.ofData [2])) false
      ↔ Tells Behaviour.plain (fun _ block => block) (MemoryBuffer.create 32) none
        (oneBlob (fun _ => false)) (lit "blobs") 1 (some (MemoryBuffer.ofData [2])) false :=
  updateBlobData_honest_iff Behaviour.plain 0 (fun _ block => block) (MemoryBuffer.create 32)
    (oneBlob_hasBlobTable _) none (some (MemoryBuffer.ofData [2])) false

/-- There the row stays as it was, and the id is returned all the same. -/
theorem updateBlobData_locked :
    ¬ Honest Behaviour.plain 0 (fun _ block => block) (MemoryBuffer.create 32) none
      (oneBlob (fun _ => false)) (lit "blobs") 1 (some (MemoryBuffer.ofData [2])) false := by
  rintro ⟨hnew, -⟩
  obtain ⟨hret, row', hset, hread⟩ := @updateBlobData_readBack Behaviour.plain 0 _ _
    (fun _ block => block) (MemoryBuffer.create 32) (oneBlob_hasBlobTable (fun _ => false)) 1
    (MemoryBuffer.ofData [2]) none false (fun h => (by cases h))
  have hstored := @stored_eq Behaviour.plain 0 _ _ 1 (fun _ block => block)
    (MemoryBuffer.create 32) hset.blobTable
  rw [(hnew (by rw [hret]; decide)).2, hset.row, hread] at hstored
  -- the row is the one from before
  have hrow : updatedRow Behaviour.plain (oneBlob (fun _ => false)) (lit "blobs") 1
      (MemoryBuffer.ofData [2]) (if false = true then none else none)
        = some (Row.assign (fun _ => .null)
          [(lit "data", .blob [3]), (lit "mode", .integer 0), (lit "size", .integer 1)]) := rfl
  have hold : readBack (fun _ block => block) (MemoryBuffer.create 32)
      (some (Row.assign (fun _ => .null)
        [(lit "data", .blob [3]), (lit "mode", .integer 0), (lit "size", .integer 1)]))
        = some [3] :=
    @readBack_plain _ (fun _ block => block) (MemoryBuffer.create 32) Behaviour.plain
      (MemoryBuffer.ofData [3]) (by decide) rfl rfl rfl
  rw [hrow, hold] at hstored
  exact absurd hstored (by decide)

end Zway.Ubj.Store
