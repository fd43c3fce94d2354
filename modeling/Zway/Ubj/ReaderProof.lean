import Zway.Ubj.Reader
import Zway.Ubj.Wire

/-!
# The reader takes the wire format apart

`Parses m bs a` says that the parser `m` consumes exactly the bytes `bs` in front
of anything and returns `a`, without ever peeking behind the data. It composes
along `>>=` by concatenation, so the parse of a container follows its encoding
piece by piece.
-/

namespace Zway.Ubj

/-- `m` consumes exactly `bs` and returns `a`. -/
def Parses {α : Type} (m : UbjrM α) (bs : Bytes) (a : α) : Prop :=
  ∀ (rest : Bytes) (tr : Nat) (p : Bool),
    ∃ tr', m ⟨bs ++ rest, tr, p⟩ = .ok (a, ⟨rest, tr', p⟩)

theorem Parses.pure {α : Type} (a : α) : Parses (Pure.pure a : UbjrM α) [] a :=
  fun _ tr _ => ⟨tr, rfl⟩

theorem Parses.bind {α β : Type} {m : UbjrM α} {f : α → UbjrM β} {bs cs : Bytes} {a : α} {b : β}
    (hm : Parses m bs a) (hf : Parses (f a) cs b) : Parses (m >>= f) (bs ++ cs) b := by
  intro rest tr p
  obtain ⟨tr1, h1⟩ := hm (cs ++ rest) tr p
  obtain ⟨tr2, h2⟩ := hf rest tr1 p
  refine ⟨tr2, ?_⟩
  rw [List.append_assoc]
  show (m ⟨bs ++ (cs ++ rest), tr, p⟩ >>= fun q => f q.1 q.2) = _
  rw [h1]
  exact h2

/-- A parser that is followed by a pure step. -/
theorem Parses.map {α β : Type} {m : UbjrM α} {bs : Bytes} {a : α} (g : α → β)
    (hm : Parses m bs a) : Parses (m >>= fun x => Pure.pure (g x)) bs (g a) := by
  have h := hm.bind (f := fun x => Pure.pure (g x)) (Parses.pure (g a))
  rwa [List.append_nil] at h

variable {env : UbjrEnv}

theorem Parses.getc (b : UInt8) : Parses (privUbjrContextGetc env) [b] b :=
  fun _ tr _ => ⟨tr + 1, rfl⟩

/-- A peek sees the first byte of what comes next. -/
theorem Parses.peek {β : Type} {f : UInt8 → UbjrM β} {c : UInt8} {bs : Bytes} {b : β}
    (hf : Parses (f c) (c :: bs) b) : Parses (privUbjrContextPeek env >>= f) (c :: bs) b :=
  fun rest tr p => hf rest tr p

theorem Parses.contextRead (bs : Bytes) : Parses (privUbjrContextRead env bs.length) bs bs := by
  intro rest tr p
  refine ⟨tr + bs.length, ?_⟩
  simp [privUbjrContextRead]

/-! ## Numbers -/

theorem Parses.read1b (n : Nat) : Parses (privUbjrRead1b env) (beBytes 1 n) (n % 2 ^ 8) := by
  have hv : (UInt8.ofNat n).toNat = n % 2 ^ 8 := by simp
  have hb : beBytes 1 n = [UInt8.ofNat n] := by simp [beBytes]
  rw [hb, ← hv]
  exact (Parses.getc (UInt8.ofNat n)).map UInt8.toNat

theorem Parses.read2b (n : Nat) : Parses (privUbjrRead2b env) (beBytes 2 n) (n % 2 ^ 16) := by
  have hv : n / 256 ^ 1 % 2 ^ 8 * 2 ^ 8 + n % 2 ^ 8 = n % 2 ^ 16 := by omega
  rw [beBytes_add 1 1, ← hv]
  exact (Parses.read1b (n / 256 ^ 1)).bind ((Parses.read1b n).map _)

theorem Parses.read4b (n : Nat) : Parses (privUbjrRead4b env) (beBytes 4 n) (n % 2 ^ 32) := by
  have hv : n / 256 ^ 2 % 2 ^ 16 * 2 ^ 16 + n % 2 ^ 16 = n % 2 ^ 32 := by omega
  rw [beBytes_add 2 2, ← hv]
  exact (Parses.read2b (n / 256 ^ 2)).bind ((Parses.read2b n).map _)

theorem Parses.read8b (n : Nat) : Parses (privUbjrRead8b env) (beBytes 8 n) (n % 2 ^ 64) := by
  have hv : n / 256 ^ 4 % 2 ^ 32 * 2 ^ 32 + n % 2 ^ 32 = n % 2 ^ 64 := by omega
  rw [beBytes_add 4 4, ← hv]
  exact (Parses.read4b (n / 256 ^ 4)).bind ((Parses.read4b n).map _)

/-- A marker, then what it announces. -/
theorem Parses.dynamic {fuel : Nat} {c : UInt8} {typ : UbjType} {bs : Bytes} {d : UbjrDynamic}
    (hc : privUbjrTypeFromChar c = typ) (h : Parses (privUbjrReadToPtr env fuel typ) bs d) :
    Parses (ubjrReadDynamic env (fuel + 1)) (c :: bs) d := by
  subst hc
  rw [ubjrReadDynamic]
  exact (Parses.getc c).bind h

theorem Parses.fixed8 {typ : UbjType} (ht : typ = .int8 ∨ typ = .uint8) (f n : Nat) :
    Parses (privUbjrReadToPtr env (f + 1) typ) (beBytes 1 n) (fixedToDynamic typ (n % 2 ^ 8)) := by
  rcases ht with rfl | rfl <;> (rw [privUbjrReadToPtr]; exact (Parses.read1b n).map _)

theorem Parses.fixed16 (f n : Nat) :
    Parses (privUbjrReadToPtr env (f + 1) .int16) (beBytes 2 n)
      (fixedToDynamic .int16 (n % 2 ^ 16)) := by
  rw [privUbjrReadToPtr]; exact (Parses.read2b n).map _

theorem Parses.fixed32 {typ : UbjType} (ht : typ = .int32 ∨ typ = .float32) (f n : Nat) :
    Parses (privUbjrReadToPtr env (f + 1) typ) (beBytes 4 n) (fixedToDynamic typ (n % 2 ^ 32)) := by
  rcases ht with rfl | rfl <;> (rw [privUbjrReadToPtr]; exact (Parses.read4b n).map _)

theorem Parses.fixed64 {typ : UbjType} (ht : typ = .int64 ∨ typ = .float64) (f n : Nat) :
    Parses (privUbjrReadToPtr env (f + 1) typ) (beBytes 8 n) (fixedToDynamic typ (n % 2 ^ 64)) := by
  rcases ht with rfl | rfl <;> (rw [privUbjrReadToPtr]; exact (Parses.read8b n).map _)

/-- A number below half its range is its own signed reading. -/
theorem toInt_ofNat_of_lt {w n : Nat} (h : 2 * n < 2 ^ w) : (BitVec.ofNat w n).toInt = n := by
  have hn : (BitVec.ofNat w n).toNat = n := by
    rw [BitVec.toNat_ofNat, Nat.mod_eq_of_lt (by omega)]
  rw [BitVec.toInt_eq_toNat_of_lt (by omega), hn]

theorem LengthType.bound_le (l : LengthType) : l.bound ≤ 2 ^ 63 := by cases l <;> decide

/-- **A length is read back.** The five widths are one case each: the sign bit is never set. -/
theorem Parses.length {l : LengthType} {n : Nat} (hn : n < l.bound) {fuel : Nat} (hf : 3 ≤ fuel) :
    Parses (privUbjwReadInteger env fuel) (l.encode n) n := by
  obtain ⟨f, rfl⟩ : ∃ f, fuel = f + 3 := ⟨fuel - 3, by omega⟩
  have key : ∀ {typ : UbjType} {bs : Bytes} {d : UbjrDynamic},
      privUbjrTypeFromChar (ubjiTypecConvert typ) = typ →
      Parses (privUbjrReadToPtr env (f + 1) typ) bs d → d.toInteger = n →
      Parses (privUbjwReadInteger env (f + 3)) (ubjiTypecConvert typ :: bs) n := by
    intro typ bs d hc hp hi
    rw [privUbjwReadInteger, ← hi]
    exact (Parses.dynamic hc hp).map UbjrDynamic.toInteger
  cases l with
  | int8 =>
    refine key rfl (Parses.fixed8 (.inl rfl) f n) ?_
    have hb : n < 2 ^ 7 := hn
    rw [Nat.mod_eq_of_lt (by omega)]
    exact toInt_ofNat_of_lt (by omega)
  | uint8 =>
    refine key rfl (Parses.fixed8 (.inr rfl) f n) ?_
    have hb : n < 2 ^ 8 := hn
    rw [Nat.mod_eq_of_lt hb]
    rfl
  | int16 =>
    refine key rfl (Parses.fixed16 f n) ?_
    have hb : n < 2 ^ 15 := hn
    rw [Nat.mod_eq_of_lt (by omega)]
    exact toInt_ofNat_of_lt (by omega)
  | int32 =>
    refine key rfl (Parses.fixed32 (.inl rfl) f n) ?_
    have hb : n < 2 ^ 31 := hn
    rw [Nat.mod_eq_of_lt (by omega)]
    exact toInt_ofNat_of_lt (by omega)
  | int64 =>
    refine key rfl (Parses.fixed64 (.inl rfl) f n) ?_
    have hb : n < 2 ^ 63 := hn
    rw [Nat.mod_eq_of_lt (by omega)]
    exact toInt_ofNat_of_lt (by omega)

/-! ## Containers -/

theorem Parses.containerSize {l : LengthType} {n : Nat} (hn : n < l.bound) {fuel : Nat}
    (hf : 4 ≤ fuel) (typ : UbjType) :
    Parses (readContainerSize env fuel typ 0x23) (0x23 :: l.encode n) (typ, n) := by
  obtain ⟨f, rfl⟩ : ∃ f, fuel = f + 1 := ⟨fuel - 1, by omega⟩
  have hb := l.bound_le
  have hmod : ((n : Int) % 2 ^ 64).toNat = n := by omega
  suffices h : Parses (readContainerSize env (f + 1) typ 0x23) (0x23 :: l.encode n)
      (typ, ((n : Int) % 2 ^ 64).toNat) by rwa [hmod] at h
  rw [readContainerSize, if_pos rfl]
  exact (Parses.getc 0x23).bind ((Parses.length hn (by omega)).map _)

/-- A marker is read as the type it stands for. -/
theorem typeFromChar_marker {t : UbjType} (ht : t ≠ .numTypes) :
    privUbjrTypeFromChar (ubjiTypecConvert t) = t := by
  cases t with
  | numTypes => exact absurd rfl ht
  | _ => rfl

/-- The type and the size in front of the elements. -/
theorem Parses.params {form : Form} {n : Nat} (hform : form ≠ .terminated) (hn : form.Fits n)
    {fuel : Nat} (hf : 5 ≤ fuel) :
    Parses (privReadContainerParams env fuel) (form.opening n) (form.type, n) := by
  obtain ⟨f, rfl⟩ : ∃ f, fuel = f + 1 := ⟨fuel - 1, by omega⟩
  cases form with
  | terminated => exact absurd rfl hform
  | sized l =>
    rw [privReadContainerParams]
    exact Parses.peek (Parses.containerSize hn (by omega) _)
  | typed t l =>
    have hmark : privUbjrTypeFromChar (ubjiTypecConvert t) = t := typeFromChar_marker hn.2.2.2
    rw [privReadContainerParams]
    refine Parses.peek ?_
    rw [if_pos rfl]
    have hsize : Parses (readContainerSize env f t 0x23) (0x23 :: l.encode n) (t, n) :=
      Parses.containerSize hn.1 (by omega) t
    exact (Parses.getc 0x24).bind ((Parses.getc (ubjiTypecConvert t)).bind
      (Parses.peek (by rw [hmark]; exact hsize)))

/-- In front of a terminator there are no parameters. -/
theorem Parses.params_none {β : Type} {f : UbjType × Nat → UbjrM β} {fuel : Nat} (hf : 2 ≤ fuel)
    {close : UInt8} (h1 : close ≠ 0x24) (h2 : close ≠ 0x23) {bs : Bytes} {b : β}
    (h : Parses (f (.mixed, 0)) (close :: bs) b) :
    Parses (privReadContainerParams env fuel >>= f) (close :: bs) b := by
  obtain ⟨g, rfl⟩ : ∃ g, fuel = g + 2 := ⟨fuel - 2, by omega⟩
  rw [privReadContainerParams, bind_assoc]
  refine Parses.peek ?_
  rw [if_neg h1, readContainerSize, if_neg h2, pure_bind]
  exact h

theorem Parses.rawArray_empty {fuel : Nat} (hf : 3 ≤ fuel) :
    Parses (privUbjrReadRawArray env fuel) [0x5D] (.array .mixed []) := by
  obtain ⟨f, rfl⟩ : ∃ f, fuel = f + 3 := ⟨fuel - 3, by omega⟩
  rw [privUbjrReadRawArray]
  refine Parses.params_none (by omega) (by decide) (by decide) ?_
  have hloop : Parses (readUntil env (f + 1) 0x5D .mixed) [0x5D] [] := by
    rw [readUntil]
    exact Parses.peek ((Parses.getc 0x5D).map _)
  rw [readArraySize, if_neg (by simp), pure_bind, readArrayValues, if_neg (by decide), if_pos rfl]
  exact hloop.map _

theorem Parses.rawArray_sized {f n : Nat} {content : Bytes} {values : List UbjrDynamic}
    (hn : n ≠ 0) (hn' : 48 * n + 1 < mallocLimit) (hf : 4 ≤ f)
    (h : Parses (readCount env f n .mixed) content values) :
    Parses (privUbjrReadRawArray env (f + 2)) (0x23 :: encodeLength n ++ content)
      (.array .mixed values) := by
  have hroom : ¬ mallocLimit ≤ ubjrTypeLocalsize .mixed * n + 1 := by
    simp only [ubjrTypeLocalsize]; omega
  obtain ⟨l, hl, he⟩ := encodeLength_eq (n := n) (by unfold mallocLimit at hn'; omega)
  rw [privUbjrReadRawArray, he]
  refine (@Parses.params env (.sized l) n Form.noConfusion hl _ (by omega)).bind ?_
  dsimp only [Form.type]
  rw [readArraySize, if_neg (by simp), pure_bind, readArrayValues, if_neg (by decide), if_neg hn,
    if_neg hroom]
  exact h.map _

theorem readBlock_int8 (data : Bytes) : readBlock .int8 1 data.length data
    = data.map (fun b => UbjrDynamic.integer .int8 (BitVec.ofNat 8 b.toNat).toInt) := by
  induction data with
  | nil => rfl
  | cons b data ih =>
    rw [List.length_cons, readBlock, List.drop_one, List.tail_cons, ih]
    simp [beNat, fixedToDynamic]

theorem Parses.rawArray_buffer {fuel : Nat} (hf : 6 ≤ fuel) {data : Bytes} (hne : data ≠ [])
    (hlen : data.length + 1 < mallocLimit) :
    Parses (privUbjrReadRawArray env fuel)
      (0x24 :: 0x69 :: 0x23 :: encodeLength data.length ++ data)
      (.array .int8
        (data.map (fun b => UbjrDynamic.integer .int8 (BitVec.ofNat 8 b.toNat).toInt))) := by
  obtain ⟨f, rfl⟩ : ∃ f, fuel = f + 2 := ⟨fuel - 2, by omega⟩
  have hn : data.length ≠ 0 := fun h0 => hne (List.length_eq_zero_iff.mp h0)
  have hroom : ¬ mallocLimit ≤ ubjrTypeLocalsize .int8 * data.length + 1 := by
    simp only [ubjrTypeLocalsize]; omega
  obtain ⟨l, hl, he⟩ := encodeLength_eq (n := data.length) (by unfold mallocLimit at hlen; omega)
  rw [privUbjrReadRawArray, he]
  refine (@Parses.params env (.typed .int8 l) data.length Form.noConfusion
    ⟨hl, UbjType.noConfusion, UbjType.noConfusion, UbjType.noConfusion⟩ _ (by omega)).bind ?_
  dsimp only [Form.type]
  have hsz : (ubjiTypeSize .int8).toNat * data.length = data.length := by simp [ubjiTypeSize]
  rw [readArraySize, if_neg (by simp [hn]), pure_bind, readArrayValues, if_neg (by decide),
    if_neg hn, if_neg hroom, ← readBlock_int8]
  · rw [hsz]
    exact ((Parses.contextRead data).map _).map _
  -- the element types that take another path
  all_goals simp

theorem Parses.rawObject_empty {fuel : Nat} (hf : 3 ≤ fuel) :
    Parses (privUbjrReadRawObject env fuel) [0x7D] (.object .mixed [] []) := by
  obtain ⟨f, rfl⟩ : ∃ f, fuel = f + 3 := ⟨fuel - 3, by omega⟩
  rw [privUbjrReadRawObject]
  refine Parses.params_none (by omega) (by decide) (by decide) ?_
  have hloop : Parses (readFieldsUntil env (f + 1) .mixed) [0x7D] [] := by
    rw [readFieldsUntil]
    exact Parses.peek ((Parses.getc 0x7D).map _)
  rw [readObjectFields, if_neg (by decide), if_pos rfl]
  exact hloop.map _

theorem Parses.rawObject_sized {f n : Nat} {content : Bytes} {fields : List (Bytes × UbjrDynamic)}
    (hn : n ≠ 0) (hn' : 48 * n + 1 < mallocLimit) (hf : 4 ≤ f)
    (h : Parses (readFieldsCount env f n .mixed) content fields) :
    Parses (privUbjrReadRawObject env (f + 2)) (0x23 :: encodeLength n ++ content)
      (.object .mixed (fields.map Prod.fst) (fields.map Prod.snd)) := by
  have hroom : ¬ (mallocLimit ≤ ubjrTypeLocalsize .mixed * n + 1 ∨ mallocLimit ≤ 8 * n) := by
    simp only [ubjrTypeLocalsize]; omega
  obtain ⟨l, hl, he⟩ := encodeLength_eq (n := n) (by unfold mallocLimit at hn'; omega)
  rw [privUbjrReadRawObject, he]
  refine (@Parses.params env (.sized l) n Form.noConfusion hl _ (by omega)).bind ?_
  dsimp only [Form.type]
  rw [readObjectFields, if_neg (by decide), if_neg hn, if_neg hroom]
  exact h.map _

/-! ## Values -/

mutual

/-- The parse tree of a value. -/
def dynOf : Value → UbjrDynamic
  | .null => .null
  | .bool b => .bool b
  | .int32 i => .integer .int32 i.toInt
  | .int64 i => .integer .int64 i.toInt
  | .float32 bits => .float32 bits
  | .float64 bits => .float64 bits
  | .string s => .text .string s
  | .buffer data =>
      .array .int8 (data.map (fun b => .integer .int8 (BitVec.ofNat 8 b.toNat).toInt))
  | .array items => .array .mixed (dynsOf items)
  | .object fields =>
      .object .mixed ((dynFieldsOf fields).map Prod.fst) ((dynFieldsOf fields).map Prod.snd)

def dynsOf : List Value → List UbjrDynamic
  | [] => []
  | v :: vs => dynOf v :: dynsOf vs

def dynFieldsOf : List (Bytes × Value) → List (Bytes × UbjrDynamic)
  | [] => []
  | (k, v) :: fs => (k, dynOf v) :: dynFieldsOf fs

end

mutual

/-- How deep the parser recurses into a value: enough fuel for it. -/
def fuelOf : Value → Nat
  | .array items => fuelOfItems items + 8
  | .object fields => fuelOfFields fields + 8
  | _ => 8

def fuelOfItems : List Value → Nat
  | [] => 4
  | v :: vs => fuelOf v + fuelOfItems vs + 2

def fuelOfFields : List (Bytes × Value) → Nat
  | [] => 4
  | (_, v) :: fs => fuelOf v + fuelOfFields fs + 8

end

theorem fuelOf_ge (v : Value) : 8 ≤ fuelOf v := by
  cases v <;> simp [fuelOf]

theorem encode_length_pos (v : Value) : 0 < (encode v).length := by
  cases v with
  | buffer data => rw [encode]; split <;> simp
  | _ => simp [encode]

/-- No element of an array is free. -/
theorem length_le_encodeItems : ∀ (vs : List Value), vs.length ≤ (encodeItems vs).length
  | [] => Nat.le_refl _
  | v :: vs => by
      have h1 := encode_length_pos v
      have h2 := length_le_encodeItems vs
      rw [encodeItems, List.length_append, List.length_cons]
      omega

theorem length_le_encodeFields : ∀ (fs : List (Bytes × Value)),
    fs.length ≤ (encodeFields fs).length
  | [] => Nat.le_refl _
  | (_, v) :: fs => by
      have h1 := encode_length_pos v
      have h2 := length_le_encodeFields fs
      rw [encodeFields, List.length_append, List.length_append, List.length_cons]
      omega

theorem encodeBody_length_ge (close : UInt8) (n : Nat) (content : Bytes)
    (h : n = 0 → content = []) : content.length ≤ (encodeBody close n content).length := by
  unfold encodeBody
  by_cases hn : n = 0
  · simp [hn, h hn]
  · simp [hn]; omega

/-- A text is kept up to its first NUL. -/
theorem Parses.readText (typ : UbjType) {s : Bytes} (hlen : s.length < 2 ^ 32) :
    Parses (readText env typ s.length) s (.text typ (cstr s)) := by
  have hroom : ¬ ((s.length : Int) < 0 ∨ mallocLimit ≤ (s.length : Int).toNat + 1) := by
    unfold mallocLimit; omega
  unfold Zway.Ubj.readText
  rw [if_neg hroom, Int.toNat_natCast]
  exact (Parses.contextRead s).map fun t => UbjrDynamic.text typ (cstr t)

/-- A string behind its marker. The parser goes through a `C` string, which is where the NUL bytes
would matter. -/
theorem Parses.text {s : Bytes} (hs : NulFree s) (hlen : s.length < 2 ^ 32) {fuel : Nat}
    (hf : 4 ≤ fuel) :
    Parses (privUbjrReadToPtr env fuel .string) (encodeString s) (.text .string s) := by
  obtain ⟨f, rfl⟩ : ∃ f, fuel = f + 1 := ⟨fuel - 1, by omega⟩
  have hread : Parses (Zway.Ubj.readText env .string s.length) s (.text .string (cstr s)) :=
    Parses.readText .string hlen
  rw [cstr_of_nulFree hs] at hread
  obtain ⟨l, hl, he⟩ := encodeLength_eq (n := s.length) (by omega)
  rw [privUbjrReadToPtr, encodeString, he]
  exact (Parses.length hl (by omega)).bind hread

theorem Parses.key {k : Bytes} (hk : NulFree k) (hlen : k.length < 2 ^ 32) {fuel : Nat}
    (hf : 5 ≤ fuel) : Parses (readKey env fuel) (encodeString k) k := by
  obtain ⟨f, rfl⟩ : ∃ f, fuel = f + 1 := ⟨fuel - 1, by omega⟩
  have h : Parses (privUbjrReadToPtr env f .string) (encodeString k) (.text .string k) :=
    Parses.text hk hlen (by omega)
  rw [readKey, ← List.append_nil (encodeString k)]
  exact h.bind (Parses.pure k)

/-- An array, or a byte buffer, behind its marker. -/
theorem Parses.array {f : Nat} {bs : Bytes} {d : UbjrDynamic}
    (h : Parses (privUbjrReadRawArray env f) bs d) :
    Parses (ubjrReadDynamic env (f + 2)) (0x5B :: bs) d := by
  have hptr : Parses (privUbjrReadToPtr env (f + 1) .array) bs d := by
    rw [privUbjrReadToPtr]
    exact h
  exact Parses.dynamic rfl hptr

theorem Parses.object {f : Nat} {bs : Bytes} {d : UbjrDynamic}
    (h : Parses (privUbjrReadRawObject env f) bs d) :
    Parses (ubjrReadDynamic env (f + 2)) (0x7B :: bs) d := by
  have hptr : Parses (privUbjrReadToPtr env (f + 1) .object) bs d := by
    rw [privUbjrReadToPtr]
    exact h
  exact Parses.dynamic rfl hptr

/-- A leaf without payload. -/
theorem Parses.bare {f : Nat} {c : UInt8} {typ : UbjType}
    (hc : privUbjrTypeFromChar c = typ)
    (ht : typ = .nullType ∨ typ = .boolTrue ∨ typ = .boolFalse) :
    Parses (ubjrReadDynamic env (f + 2)) [c] (fixedToDynamic typ 0) := by
  have hptr : Parses (privUbjrReadToPtr env (f + 1) typ) [] (fixedToDynamic typ 0) := by
    rcases ht with rfl | rfl | rfl <;> (rw [privUbjrReadToPtr]; exact Parses.pure _)
  exact Parses.dynamic hc hptr

/-- An object, from the parse of its fields. -/
theorem Parses.encodedObject {fields : List (Bytes × Value)} {fuel : Nat}
    (hlen : (encode (.object fields)).length < 2 ^ 32) (hf : fuelOf (.object fields) ≤ fuel)
    (h : ∀ {f : Nat}, (encodeFields fields).length < 2 ^ 32 → fuelOfFields fields ≤ f →
      Parses (readFieldsCount env f fields.length .mixed) (encodeFields fields)
        (dynFieldsOf fields)) :
    Parses (ubjrReadDynamic env fuel) (encode (.object fields)) (dynOf (.object fields)) := by
  rw [fuelOf] at hf
  obtain ⟨f, rfl⟩ : ∃ f, fuel = f + 4 := ⟨fuel - 4, by omega⟩
  rw [encode, List.length_cons] at hlen
  have hbody := encodeBody_length_ge 0x7D fields.length (encodeFields fields) (by
    intro h0; rw [List.length_eq_zero_iff.mp h0]; rfl)
  have hcount := length_le_encodeFields fields
  rw [encode, dynOf]
  by_cases h0 : fields.length = 0
  · rw [encodeBody, if_pos h0, List.length_eq_zero_iff.mp h0]
    exact Parses.object (Parses.rawObject_empty (by omega))
  · rw [encodeBody, if_neg h0]
    exact Parses.object (Parses.rawObject_sized h0 (by unfold mallocLimit; omega) (by omega)
      (h (by omega) (by omega)))

mutual

/-- **The parser inverts the encoding**, up to the parse tree. -/
theorem parses_encode : ∀ (v : Value) {fuel : Nat}, RoundTrip v → (encode v).length < 2 ^ 32 →
    fuelOf v ≤ fuel → Parses (ubjrReadDynamic env fuel) (encode v) (dynOf v)
  | .null, fuel, _, _, hf => by
      obtain ⟨f, rfl⟩ : ∃ f, fuel = f + 8 := ⟨fuel - 8, by have := fuelOf_ge .null; omega⟩
      exact Parses.bare rfl (.inl rfl)
  | .bool b, fuel, _, _, hf => by
      obtain ⟨f, rfl⟩ : ∃ f, fuel = f + 8 := ⟨fuel - 8, by have := fuelOf_ge (.bool b); omega⟩
      cases b with
      | true => exact Parses.bare rfl (.inr (.inl rfl))
      | false => exact Parses.bare rfl (.inr (.inr rfl))
  | .int32 i, fuel, _, _, hf => by
      obtain ⟨f, rfl⟩ : ∃ f, fuel = f + 8 := ⟨fuel - 8, by have := fuelOf_ge (.int32 i); omega⟩
      have h : Parses (privUbjrReadToPtr env (f + 7) .int32) (beBytes 4 i.toNat)
          (fixedToDynamic .int32 (i.toNat % 2 ^ 32)) := Parses.fixed32 (.inl rfl) (f + 6) i.toNat
      rw [Nat.mod_eq_of_lt i.isLt, fixedToDynamic, BitVec.ofNat_toNat, BitVec.setWidth_eq] at h
      exact Parses.dynamic rfl h
  | .int64 i, fuel, _, _, hf => by
      obtain ⟨f, rfl⟩ : ∃ f, fuel = f + 8 := ⟨fuel - 8, by have := fuelOf_ge (.int64 i); omega⟩
      have h : Parses (privUbjrReadToPtr env (f + 7) .int64) (beBytes 8 i.toNat)
          (fixedToDynamic .int64 (i.toNat % 2 ^ 64)) := Parses.fixed64 (.inl rfl) (f + 6) i.toNat
      rw [Nat.mod_eq_of_lt i.isLt, fixedToDynamic, BitVec.ofNat_toNat, BitVec.setWidth_eq] at h
      exact Parses.dynamic rfl h
  | .float32 bits, fuel, _, _, hf => by
      obtain ⟨f, rfl⟩ : ∃ f, fuel = f + 8 := ⟨fuel - 8, by have := fuelOf_ge (.float32 bits); omega⟩
      have h : Parses (privUbjrReadToPtr env (f + 7) .float32) (beBytes 4 bits.toNat)
          (fixedToDynamic .float32 (bits.toNat % 2 ^ 32)) := Parses.fixed32 (.inr rfl) (f + 6) bits.toNat
      rw [Nat.mod_eq_of_lt bits.isLt, fixedToDynamic, BitVec.ofNat_toNat, BitVec.setWidth_eq] at h
      exact Parses.dynamic rfl h
  | .float64 bits, fuel, _, _, hf => by
      obtain ⟨f, rfl⟩ : ∃ f, fuel = f + 8 := ⟨fuel - 8, by have := fuelOf_ge (.float64 bits); omega⟩
      have h : Parses (privUbjrReadToPtr env (f + 7) .float64) (beBytes 8 bits.toNat)
          (fixedToDynamic .float64 (bits.toNat % 2 ^ 64)) := Parses.fixed64 (.inr rfl) (f + 6) bits.toNat
      rw [Nat.mod_eq_of_lt bits.isLt, fixedToDynamic, BitVec.ofNat_toNat, BitVec.setWidth_eq] at h
      exact Parses.dynamic rfl h
  | .string s, fuel, hv, hlen, hf => by
      obtain ⟨f, rfl⟩ : ∃ f, fuel = f + 8 := ⟨fuel - 8, by have := fuelOf_ge (.string s); omega⟩
      cases hv with
      | string hs =>
        rw [encode, encodeString] at hlen
        simp only [List.length_cons, List.length_append] at hlen
        exact Parses.dynamic rfl (Parses.text hs.2 (by omega) (by omega))
  | .buffer data, fuel, hv, hlen, hf => by
      obtain ⟨f, rfl⟩ : ∃ f, fuel = f + 8 := ⟨fuel - 8, by have := fuelOf_ge (.buffer data); omega⟩
      cases hv with
      | buffer hne =>
        have hpos : data.length ≠ 0 := fun h0 => hne (List.length_eq_zero_iff.mp h0)
        rw [encode, if_neg hpos] at hlen ⊢
        simp only [List.length_cons, List.length_append] at hlen
        exact Parses.array (Parses.rawArray_buffer (by omega) hne (by unfold mallocLimit; omega))
  | .array items, fuel, hv, hlen, hf => by
      cases hv with
      | array hitems =>
        rw [fuelOf] at hf
        obtain ⟨f, rfl⟩ : ∃ f, fuel = f + 4 := ⟨fuel - 4, by omega⟩
        rw [encode, List.length_cons] at hlen
        have hbody := encodeBody_length_ge 0x5D items.length (encodeItems items) (by
          intro h0; rw [List.length_eq_zero_iff.mp h0]; rfl)
        have hcount := length_le_encodeItems items
        rw [encode, dynOf]
        by_cases h0 : items.length = 0
        · rw [encodeBody, if_pos h0, List.length_eq_zero_iff.mp h0]
          exact Parses.array (Parses.rawArray_empty (by omega))
        · rw [encodeBody, if_neg h0]
          exact Parses.array (Parses.rawArray_sized h0 (by unfold mallocLimit; omega) (by omega)
            (parses_encodeItems items hitems (by omega) (by omega)))
  | .object fields, _, hv, hlen, hf => by
      cases hv with
      | object _ hfields =>
        exact Parses.encodedObject hlen hf fun hshort hfuel => parses_encodeFields fields
          (fun f hf => (mem_roundTripFields hfields f hf).imp And.right id) hshort hfuel

theorem parses_encodeItems : ∀ (vs : List Value) {fuel : Nat}, RoundTripItems vs →
    (encodeItems vs).length < 2 ^ 32 → fuelOfItems vs ≤ fuel →
    Parses (readCount env fuel vs.length .mixed) (encodeItems vs) (dynsOf vs)
  | [], fuel, _, _, hf => by
      obtain ⟨f, rfl⟩ : ∃ f, fuel = f + 1 := ⟨fuel - 1, by rw [fuelOfItems] at hf; omega⟩
      rw [List.length_nil, readCount]
      exact Parses.pure _
  | v :: vs, fuel, hv, hlen, hf => by
      cases hv with
      | cons hv hvs =>
        rw [fuelOfItems] at hf
        obtain ⟨f, rfl⟩ : ∃ f, fuel = f + 2 := ⟨fuel - 2, by omega⟩
        rw [encodeItems, List.length_append] at hlen
        have hhead : Parses (privUbjrReadToPtr env (f + 1) .mixed) (encode v) (dynOf v) := by
          rw [privUbjrReadToPtr]
          exact parses_encode v hv (by omega) (by omega)
        have htail : Parses (readCount env (f + 1) vs.length .mixed) (encodeItems vs) (dynsOf vs) :=
          parses_encodeItems vs hvs (by omega) (by omega)
        rw [List.length_cons, readCount]
        exact hhead.bind (htail.map _)

theorem parses_encodeFields : ∀ (fs : Object) {fuel : Nat},
    (∀ f ∈ fs, NulFree f.1 ∧ RoundTrip f.2) → (encodeFields fs).length < 2 ^ 32 →
    fuelOfFields fs ≤ fuel →
    Parses (readFieldsCount env fuel fs.length .mixed) (encodeFields fs) (dynFieldsOf fs)
  | [], fuel, _, _, hf => by
      obtain ⟨f, rfl⟩ : ∃ f, fuel = f + 1 := ⟨fuel - 1, by rw [fuelOfFields] at hf; omega⟩
      rw [List.length_nil, readFieldsCount]
      exact Parses.pure _
  | (k, v) :: fs, fuel, hv, hlen, hf => by
      have hk : NulFree k := (hv (k, v) (List.mem_cons_self ..)).1
      have hv' : RoundTrip v := (hv (k, v) (List.mem_cons_self ..)).2
      have hfs : ∀ f ∈ fs, NulFree f.1 ∧ RoundTrip f.2 :=
        fun f hf' => hv f (List.mem_cons_of_mem _ hf')
      rw [fuelOfFields] at hf
      obtain ⟨f, rfl⟩ : ∃ f, fuel = f + 6 := ⟨fuel - 6, by omega⟩
      rw [encodeFields] at hlen ⊢
      have hklen : k.length ≤ (encodeString k).length := by
        rw [encodeString, List.length_append]
        omega
      simp only [List.length_append] at hlen
      have hhead : Parses (privUbjrReadToPtr env (f + 5) .mixed) (encode v) (dynOf v) := by
        rw [privUbjrReadToPtr]
        exact parses_encode v hv' (by omega) (by omega)
      have htail : Parses (readFieldsCount env (f + 5) fs.length .mixed) (encodeFields fs)
          (dynFieldsOf fs) := parses_encodeFields fs hfs (by omega) (by omega)
      rw [List.length_cons, readFieldsCount, List.append_assoc]
      exact (Parses.key hk (by omega) (by omega)).bind (hhead.bind (htail.map _))

end

end Zway.Ubj
