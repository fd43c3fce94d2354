import Zway.Ubj.Wire

/-!
# The writer produces the wire format

One lemma per writer function, on a context whose open containers are known. The
only thing a value does to its surroundings is tick its own container once, which
`UbjwContainer.tagged` describes; everything below is untouched. That frame is what
lets the loops over items and fields compose.

The bound of the whole story is `CONTAINER_STACK_MAX`: a push past it is dropped
and the matching `ubjw_end` then closes somebody else's container. A value of
`depth` at most what is left of the stack never gets there.
-/

namespace Zway.Ubj

/-- A container that takes a value next. -/
structure UbjwContainer.Accepts (ch : UbjwContainer) : Prop where
  /-- Only byte buffers are typed, and they take no values. -/
  untyped : ch.isTyped = false
  /-- An object takes a value only after its key. -/
  keyed : ch.isUbjObject = true → ch.expectsKey = false

/-- What a value does to the container it is written into. -/
def UbjwContainer.tagged (ch : UbjwContainer) : UbjwContainer :=
  let ch := if ch.isUbjObject then { ch with expectsKey := true } else ch
  if ch.isSized then { ch with elementsRemaining := ch.elementsRemaining - 1 } else ch

/-! ## Tags and lengths -/

theorem privUbjwTagPublic_accepts {ch : UbjwContainer} {st : List UbjwContainer} {w : Bytes}
    (h : ch.Accepts) (tid : UbjType) :
    privUbjwTagPublic ⟨ch :: st, false, w⟩ tid
      = ⟨ch.tagged :: st, false, w ++ [ubjiTypecConvert tid]⟩ := by
  obtain ⟨hu, hk⟩ := h
  obtain ⟨sized, typed, arr, obj, exp, typ, left⟩ := ch
  simp only at hu hk
  subst hu
  cases obj with
  | false => cases sized <;> rfl
  | true =>
    have he : exp = false := hk rfl
    subst he
    cases sized <;> rfl

/-- With the flags ignored, as around a length, the containers stay as they are. -/
theorem privUbjwTagPublic_ignored {st : List UbjwContainer} {w : Bytes} (tid : UbjType) :
    privUbjwTagPublic ⟨st, true, w⟩ tid = ⟨st, true, w ++ [ubjiTypecConvert tid]⟩ := rfl

theorem ubjwWriteInteger_ignored {st : List UbjwContainer} {w : Bytes} (i : BitVec 64) :
    ubjwWriteInteger ⟨st, true, w⟩ i = ⟨st, true, w ++ encodeInteger i⟩ := by
  have cut : ∀ k, k ≤ 8 → beBytes k (i.toNat % 2 ^ (8 * k)) = beBytes k i.toNat := by
    intro k _
    refine beBytes_mod _ _ _ ?_
    rw [Nat.pow_mul, show (2 ^ 8 : Nat) = 256 from rfl, Nat.mod_mod]
  have write : ∀ (tid : UbjType) (k : Nat), ubjwWriteBigendian ⟨st, true, w⟩ tid k i.toNat
      = ⟨st, true, w ++ (ubjiTypecConvert tid :: beBytes k i.toNat)⟩ := by
    intro tid k
    simp only [ubjwWriteBigendian, privUbjwTagPublic_ignored, privUbjwContextWrite,
      List.append_assoc, List.cons_append, List.nil_append]
  unfold ubjwWriteInteger ubjwMinIntegerType encodeInteger
  dsimp only
  split_ifs
  · rw [ubjwWriteInt8, BitVec.toNat_setWidth, ubjwWriteBigendian, cut 1 (by omega)]
    exact write .int8 1
  · rw [ubjwWriteUint8, BitVec.toNat_setWidth, ubjwWriteBigendian, cut 1 (by omega)]
    exact write .uint8 1
  · rw [ubjwWriteInt16, BitVec.toNat_setWidth, ubjwWriteBigendian, cut 2 (by omega)]
    exact write .int16 2
  · rw [ubjwWriteInt32, BitVec.toNat_setWidth, ubjwWriteBigendian, cut 4 (by omega)]
    exact write .int32 4
  · exact write .int64 8

theorem writeBigendian_eq {ch : UbjwContainer} {st : List UbjwContainer} {w : Bytes}
    (h : ch.Accepts) (tid : UbjType) (k n : Nat) :
    ubjwWriteBigendian ⟨ch :: st, false, w⟩ tid k n
      = ⟨ch.tagged :: st, false, w ++ ubjiTypecConvert tid :: beBytes k n⟩ := by
  rw [ubjwWriteBigendian, privUbjwTagPublic_accepts h, privUbjwContextWrite]
  simp only [List.append_assoc, List.cons_append, List.nil_append]

theorem ubjwWriteLength_eq {st : List UbjwContainer} {w : Bytes} (n : Nat) :
    ubjwWriteLength ⟨st, false, w⟩ n = ⟨st, false, w ++ encodeLength n⟩ := by
  rw [ubjwWriteLength]
  simp only [ubjwWriteInteger_ignored]
  rfl

theorem privUbjwWriteRawString_eq {st : List UbjwContainer} {w s : Bytes} (h : NulFree s) :
    privUbjwWriteRawString ⟨st, false, w⟩ s = ⟨st, false, w ++ encodeString s⟩ := by
  rw [privUbjwWriteRawString, cstr_of_nulFree h, ubjwWriteLength_eq, privUbjwContextWrite]
  simp only [encodeString, List.append_assoc]

/-! ## Containers -/

/-- An array of `n` mixed items that has just been opened. -/
def openedArray (n : Nat) : UbjwContainer :=
  { UbjwContainer.base with
    isSized := n ≠ 0, isUbjArray := true, elementsRemaining := BitVec.ofNat 64 n }

/-- An object of `n` mixed fields that has just been opened. -/
def openedObject (n : Nat) : UbjwContainer :=
  { UbjwContainer.base with
    isSized := n ≠ 0, isUbjObject := true, expectsKey := true,
    elementsRemaining := BitVec.ofNat 64 n }

/-- What stands between the marker of a container and its content. -/
def encodeSize (n : Nat) : Bytes := if n = 0 then [] else 0x23 :: encodeLength n

theorem ubjwBeginArray_mixed {ch : UbjwContainer} {st : List UbjwContainer} {w : Bytes}
    (h : ch.Accepts) (n : Nat) (hroom : st.length + 1 < containerStackMax) :
    ubjwBeginArray ⟨ch :: st, false, w⟩ .mixed n
      = ⟨openedArray n :: ch.tagged :: st, false, w ++ 0x5B :: encodeSize n⟩ := by
  rw [ubjwBeginArray, privUbjwTagPublic_accepts h]
  by_cases hn : n = 0
  · subst hn
    simp [privUbjwBeginContainer, privUbjwContainerStackPush, hroom, openedArray, encodeSize,
      ubjiTypecConvert, UbjwContainer.base]
  · simp only [privUbjwBeginContainer, privUbjwContextAppend, ubjwWriteLength_eq, ne_eq, hn,
      not_true_eq_false, not_false_eq_true, if_false, if_true, privUbjwContainerStackPush,
      List.length_cons, hroom]
    simp [openedArray, UbjwContainer.base, encodeSize, hn, ubjiTypecConvert]

theorem ubjwBeginObject_mixed {ch : UbjwContainer} {st : List UbjwContainer} {w : Bytes}
    (h : ch.Accepts) (n : Nat) (hroom : st.length + 1 < containerStackMax) :
    ubjwBeginObject ⟨ch :: st, false, w⟩ .mixed n
      = ⟨openedObject n :: ch.tagged :: st, false, w ++ 0x7B :: encodeSize n⟩ := by
  rw [ubjwBeginObject, privUbjwTagPublic_accepts h]
  by_cases hn : n = 0
  · subst hn
    simp [privUbjwBeginContainer, privUbjwContainerStackPush, hroom, openedObject, encodeSize,
      ubjiTypecConvert, UbjwContainer.base]
  · simp only [privUbjwBeginContainer, privUbjwContextAppend, ubjwWriteLength_eq, ne_eq, hn,
      not_true_eq_false, not_false_eq_true, if_false, if_true, privUbjwContainerStackPush,
      List.length_cons, hroom]
    simp [openedObject, UbjwContainer.base, encodeSize, hn, ubjiTypecConvert]

/-- Closing pops the container, and writes the terminator it was opened to need. -/
theorem ubjwEnd_eq {ch : UbjwContainer} {st : List UbjwContainer} {w : Bytes} :
    ubjwEnd ⟨ch :: st, false, w⟩ = privUbjwContextFinishContainer ⟨st, false, w⟩ ch := rfl

/-- The container after `n` values went into it. -/
def UbjwContainer.ticked (ch : UbjwContainer) (n : Nat) : UbjwContainer :=
  UbjwContainer.tagged^[n] ch

theorem UbjwContainer.ticked_succ (ch : UbjwContainer) (n : Nat) :
    ch.ticked (n + 1) = ch.tagged.ticked n := rfl

@[simp] theorem UbjwContainer.tagged_isSized (ch : UbjwContainer) :
    ch.tagged.isSized = ch.isSized := by
  unfold UbjwContainer.tagged; dsimp only; split_ifs <;> rfl

@[simp] theorem UbjwContainer.tagged_isTyped (ch : UbjwContainer) :
    ch.tagged.isTyped = ch.isTyped := by
  unfold UbjwContainer.tagged; dsimp only; split_ifs <;> rfl

@[simp] theorem UbjwContainer.tagged_isUbjArray (ch : UbjwContainer) :
    ch.tagged.isUbjArray = ch.isUbjArray := by
  unfold UbjwContainer.tagged; dsimp only; split_ifs <;> rfl

@[simp] theorem UbjwContainer.tagged_isUbjObject (ch : UbjwContainer) :
    ch.tagged.isUbjObject = ch.isUbjObject := by
  unfold UbjwContainer.tagged; dsimp only; split_ifs <;> rfl

theorem UbjwContainer.tagged_expectsKey {ch : UbjwContainer} (h : ch.isUbjObject = true) :
    ch.tagged.expectsKey = true := by
  unfold UbjwContainer.tagged; rw [if_pos h]; dsimp only; split_ifs <;> rfl

/-- Values never change what kind of container they are in. -/
theorem UbjwContainer.ticked_kind (ch : UbjwContainer) (n : Nat) :
    (ch.ticked n).isSized = ch.isSized ∧ (ch.ticked n).isUbjArray = ch.isUbjArray
      ∧ (ch.ticked n).isUbjObject = ch.isUbjObject := by
  induction n generalizing ch with
  | zero => exact ⟨rfl, rfl, rfl⟩
  | succ n ih =>
    rw [UbjwContainer.ticked_succ]
    obtain ⟨h1, h2, h3⟩ := ih ch.tagged
    exact ⟨by rw [h1, tagged_isSized], by rw [h2, tagged_isUbjArray],
      by rw [h3, tagged_isUbjObject]⟩

/-- The terminator is written exactly when no size was. -/
theorem ubjwEnd_array {n : Nat} {st : List UbjwContainer} {w : Bytes} (k : Nat) :
    ubjwEnd ⟨(openedArray n).ticked k :: st, false, w⟩
      = ⟨st, false, w ++ if n = 0 then [0x5D] else []⟩ := by
  rw [ubjwEnd_eq]
  unfold privUbjwContextFinishContainer
  obtain ⟨h1, h2, -⟩ := (openedArray n).ticked_kind k
  rw [h1, h2]
  by_cases hn : n = 0
  · simp [openedArray, hn, privUbjwContextAppend]
  · simp [openedArray, hn]

theorem ubjwEnd_object {n : Nat} {st : List UbjwContainer} {w : Bytes} (k : Nat) :
    ubjwEnd ⟨(openedObject n).ticked k :: st, false, w⟩
      = ⟨st, false, w ++ if n = 0 then [0x7D] else []⟩ := by
  rw [ubjwEnd_eq]
  unfold privUbjwContextFinishContainer
  obtain ⟨h1, h2, h3⟩ := (openedObject n).ticked_kind k
  rw [h1, h2, h3]
  by_cases hn : n = 0
  · simp [openedObject, hn, privUbjwContextAppend, UbjwContainer.base]
  · simp [openedObject, hn]

theorem encodeBody_eq (close : UInt8) (n : Nat) {content : Bytes} (h : n = 0 → content = []) :
    encodeSize n ++ content ++ (if n = 0 then [close] else []) = encodeBody close n content := by
  unfold encodeSize encodeBody
  by_cases hn : n = 0
  · simp [hn, h hn]
  · simp [hn]

/-- A key may only stand where one is expected; afterwards the object accepts its value. -/
theorem ubjwWriteKey_eq {ch : UbjwContainer} {st : List UbjwContainer} {w k : Bytes}
    (hobj : ch.isUbjObject = true) (hexp : ch.expectsKey = true) (hk : NulFree k) :
    ubjwWriteKey ⟨ch :: st, false, w⟩ k
      = ⟨{ ch with expectsKey := false } :: st, false, w ++ encodeString k⟩ := by
  unfold ubjwWriteKey
  simp only [List.headD_cons, hobj, hexp, Bool.and_self, if_true, privUbjwWriteRawString_eq hk,
    UbjwContext.setHead, Bool.not_true]

/-- `ubjw_write_key` takes a C string. -/
theorem ubjwWriteKey_cstr (ctx : UbjwContext) (key : Bytes) :
    ubjwWriteKey ctx key = ubjwWriteKey ctx (cstr key) := by
  unfold ubjwWriteKey privUbjwWriteRawString
  rw [cstr_cstr]

/-- The key toggles the flag back, so a whole field ticks the object like any other value. -/
theorem UbjwContainer.tagged_keyed {ch : UbjwContainer} (hobj : ch.isUbjObject = true) :
    UbjwContainer.tagged { ch with expectsKey := false } = ch.tagged := by
  unfold UbjwContainer.tagged
  simp only [hobj, if_true]

/-! ## The recursion -/

/-- What is written of the fields of an object: each key up to its first NUL. -/
def truncated (fields : Object) : Object := fields.map fun f => (cstr f.1, f.2)

/-- Fields that are written with their keys. -/
def Keyed (fields : Object) : Prop := ∀ f ∈ fields, f.1 ≠ [] ∧ RoundTrip f.2

theorem truncated_of_nulFree {fs : Object} (h : ∀ f ∈ fs, NulFree f.1) : truncated fs = fs := by
  have hsame : ∀ f ∈ fs, (cstr f.1, f.2) = id f := fun f hf => by
    rw [cstr_of_nulFree (h f hf)]
    rfl
  unfold truncated
  rw [List.map_congr_left hsame, List.map_id]

theorem keyed_of_roundTrip {fs : Object} (h : RoundTripFields fs) : Keyed fs := by
  intro f hf
  obtain ⟨hcarried, hv⟩ := mem_roundTripFields h f hf
  exact ⟨hcarried.1, hv⟩

theorem writeBuffer_eq {ch : UbjwContainer} {st : List UbjwContainer} {w data : Bytes}
    (h : ch.Accepts) (hroom : st.length + 1 < containerStackMax) (hd : data ≠ []) :
    ubjwWriteBuffer ⟨ch :: st, false, w⟩ data .int8 data.length
      = ⟨ch.tagged :: st, false, w ++ encode (.buffer data)⟩ := by
  have hlen : data.length ≠ 0 := fun h0 => hd (List.length_eq_zero_iff.mp h0)
  have hopen : ubjwBeginArray ⟨ch :: st, false, w⟩ .int8 data.length
      = ⟨{ openedArray data.length with isTyped := true, type := .int8 } :: ch.tagged :: st, false,
          w ++ 0x5B :: 0x24 :: 0x69 :: 0x23 :: encodeLength data.length⟩ := by
    rw [ubjwBeginArray, privUbjwTagPublic_accepts h]
    simp only [privUbjwBeginContainer, privUbjwContextAppend, ubjwWriteLength_eq, ne_eq, hlen,
      reduceCtorEq, not_false_eq_true, if_true, privUbjwContainerStackPush, List.length_cons, hroom]
    simp [openedArray, UbjwContainer.base, hlen, ubjiTypecConvert]
  rw [ubjwWriteBuffer, hopen, encode, if_neg hlen]
  simp [ubjiTypeSize, privUbjwContextWrite, ubjwEnd_eq, privUbjwContextFinishContainer, openedArray,
    hlen]

mutual

/-- **A value is written as its encoding**, and ticks the container it stands in. -/
theorem writeTagged_eq : ∀ (v : Value) {ch : UbjwContainer} {st : List UbjwContainer} {w : Bytes},
    RoundTrip v → ch.Accepts → st.length + 1 + depth v ≤ containerStackMax →
    Writer.writeTagged v ⟨ch :: st, false, w⟩ = ⟨ch.tagged :: st, false, w ++ encode v⟩
  | .null, _, _, _, _, ha, _ => privUbjwTagPublic_accepts ha _
  | .bool b, _, _, _, _, ha, _ => by
      rw [Writer.writeTagged, ubjwWriteBool, privUbjwTagPublic_accepts ha, encode]
      cases b <;> rfl
  | .int32 i, _, _, _, _, ha, _ => writeBigendian_eq ha .int32 4 i.toNat
  | .int64 i, _, _, _, _, ha, _ => writeBigendian_eq ha .int64 8 i.toNat
  | .float32 bits, _, _, _, _, ha, _ => writeBigendian_eq ha .float32 4 bits.toNat
  | .float64 bits, _, _, _, _, ha, _ => writeBigendian_eq ha .float64 8 bits.toNat
  | .string s, _, _, _, hv, ha, _ => by
      cases hv with
      | string hs =>
        rw [Writer.writeTagged, ubjwWriteString, privUbjwTagPublic_accepts ha,
          privUbjwWriteRawString_eq hs.2, encode]
        simp [ubjiTypecConvert]
  | .buffer data, _, st, _, hv, ha, hd => by
      cases hv with
      | buffer hne =>
        have hroom : st.length + 1 < containerStackMax := by rw [depth] at hd; omega
        have hlen : data.length ≠ 0 := fun h0 => hne (List.length_eq_zero_iff.mp h0)
        rw [Writer.writeTagged, if_neg hlen, writeBuffer_eq ha hroom hne]
  | .array items, _, st, _, hv, ha, hd => by
      cases hv with
      | array hitems =>
        rw [depth] at hd
        rw [Writer.writeTagged, ubjwBeginArray_mixed ha _ (by omega),
          writeItems_eq items hitems ⟨rfl, fun h => absurd h (by simp [openedArray,
            UbjwContainer.base])⟩ rfl (by simp only [List.length_cons]; omega),
          ubjwEnd_array, encode, ← encodeBody_eq 0x5D items.length (by
            intro h0; rw [List.length_eq_zero_iff.mp h0]; rfl)]
        simp [List.append_assoc]
  | .object fields, _, st, _, hv, ha, hd => by
      cases hv with
      | object _ hfields =>
        rw [depth] at hd
        rw [Writer.writeTagged, ubjwBeginObject_mixed ha _ (by omega),
          writeFields_truncated fields (keyed_of_roundTrip hfields) rfl rfl rfl
            (by simp only [List.length_cons]; omega),
          truncated_of_nulFree fun f hf => (mem_roundTripFields hfields f hf).1.2,
          ubjwEnd_object, encode, ← encodeBody_eq 0x7D fields.length (by
            intro h0; rw [List.length_eq_zero_iff.mp h0]; rfl)]
        simp [List.append_assoc]

/-- The loop over the items of an array, which is no object. -/
theorem writeItems_eq : ∀ (vs : List Value) {ch : UbjwContainer} {st : List UbjwContainer}
    {w : Bytes}, RoundTripItems vs → ch.Accepts → ch.isUbjObject = false →
    st.length + 1 + depthItems vs ≤ containerStackMax →
    Writer.writeItems vs ⟨ch :: st, false, w⟩
      = ⟨ch.ticked vs.length :: st, false, w ++ encodeItems vs⟩
  | [], _, _, _, _, _, _, _ => by simp [Writer.writeItems, encodeItems, UbjwContainer.ticked]
  | v :: vs, ch, _, _, hv, ha, hobj, hd => by
      cases hv with
      | cons hv hvs =>
        rw [depthItems] at hd
        have hacc : ch.tagged.Accepts :=
          ⟨by rw [UbjwContainer.tagged_isTyped]; exact ha.untyped,
            fun h => by rw [UbjwContainer.tagged_isUbjObject, hobj] at h; exact absurd h (by simp)⟩
        rw [Writer.writeItems, writeTagged_eq v hv ha (by omega),
          writeItems_eq vs hvs hacc (by rw [UbjwContainer.tagged_isUbjObject, hobj]) (by omega),
          List.length_cons, UbjwContainer.ticked_succ, encodeItems, List.append_assoc]

/-- The loop over fields that have keys, whatever bytes these are of. -/
theorem writeFields_truncated : ∀ (fs : Object) {ch : UbjwContainer} {st : List UbjwContainer}
    {w : Bytes}, Keyed fs → ch.isTyped = false → ch.isUbjObject = true → ch.expectsKey = true →
    st.length + 1 + depthFields fs ≤ containerStackMax →
    Writer.writeFields fs ⟨ch :: st, false, w⟩
      = ⟨ch.ticked fs.length :: st, false, w ++ encodeFields (truncated fs)⟩
  | [], _, _, _, _, _, _, _, _ => by
      simp [Writer.writeFields, truncated, encodeFields, UbjwContainer.ticked]
  | (k, v) :: fs, ch, _, _, hf, hu, hobj, hexp, hd => by
      obtain ⟨hk, hv⟩ := hf (k, v) (List.mem_cons_self ..)
      have hfs : Keyed fs := fun f hf' => hf f (List.mem_cons_of_mem _ hf')
      rw [depthFields] at hd
      have hne : k.isEmpty = false := by simpa using hk
      have hacc : UbjwContainer.Accepts { ch with expectsKey := false } := ⟨hu, fun _ => rfl⟩
      rw [Writer.writeFields, hne, if_neg Bool.false_ne_true, ubjwWriteKey_cstr,
        ubjwWriteKey_eq hobj hexp (cstr_nulFree k), writeTagged_eq v hv hacc (by omega),
        UbjwContainer.tagged_keyed hobj,
        writeFields_truncated fs hfs (by rw [UbjwContainer.tagged_isTyped]; exact hu)
          (by rw [UbjwContainer.tagged_isUbjObject]; exact hobj)
          (UbjwContainer.tagged_expectsKey hobj) (by omega),
        List.length_cons, UbjwContainer.ticked_succ]
      show UbjwContext.mk _ _ _ = UbjwContext.mk _ _ (_ ++ encodeFields ((cstr k, v) :: truncated fs))
      rw [encodeFields]
      simp only [List.append_assoc]

end

/-- **The writer produces the wire format.** -/
theorem collect_eq_encode {v : Value} (hv : RoundTrip v) (hroot : v.isContainer = true)
    (hd : depth v < containerStackMax) : Writer.collect v = encode v := by
  have hacc : UbjwContainer.base.Accepts := ⟨rfl, fun h => absurd h (by decide)⟩
  have hw : Writer.writeTagged v ubjwOpenCallback
      = ⟨[UbjwContainer.base.tagged], false, [] ++ encode v⟩ :=
    writeTagged_eq v hv hacc (by simp only [List.length_nil]; omega)
  unfold Writer.collect
  have : (Writer.writeTagged v ubjwOpenCallback).written = encode v := by rw [hw]; rfl
  cases v with
  | buffer _ => exact this
  | array _ => exact this
  | object _ => exact this
  | _ => exact absurd hroot (by simp [Value.isContainer])

end Zway.Ubj
