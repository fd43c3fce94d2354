import Zway.Ubj.Document

/-!
# The parser takes a document apart

As far as the parser keeps step with a document, it loses nothing of it: `Node.dyn` is the tree
it returns, with every leaf and every element still there.

One lemma per form of a container; `Node.induct` puts them together.
-/

namespace Zway.Ubj

namespace Node

mutual

/-- The parse tree of a document. -/
def dyn : Node → UbjrDynamic
  | .null => .null
  | .bool b => .bool b
  | .char c => .text .char (cstr [c])
  | .string s => .text .string (cstr s.bytes)
  | .highPrecision s => .text .highPrecision (cstr s.bytes)
  | .int8 i => .integer .int8 i.toInt
  | .uint8 i => .integer .uint8 i.toNat
  | .int16 i => .integer .int16 i.toInt
  | .int32 i => .integer .int32 i.toInt
  | .int64 i => .integer .int64 i.toInt
  | .float32 bits => .float32 bits
  | .float64 bits => .float64 bits
  | .array form items => .array form.type (dyns items)
  | .object form fields =>
      .object form.type ((dynFields fields).map Prod.fst) ((dynFields fields).map Prod.snd)

def dyns : List Node → List UbjrDynamic
  | [] => []
  | v :: vs => dyn v :: dyns vs

def dynFields : List (Text × Node) → List (Bytes × UbjrDynamic)
  | [] => []
  | (k, v) :: fs => (cstr k.bytes, dyn v) :: dynFields fs

end

theorem fuel_ge (v : Node) : 8 ≤ v.fuel := by
  cases v <;> simp [fuel]

/-- No marker is one of the bytes that begin or end the elements. -/
theorem marker_ne (t : UbjType) : ubjiTypecConvert t ≠ 0x24 ∧ ubjiTypecConvert t ≠ 0x23 ∧
    ubjiTypecConvert t ≠ 0x5D ∧ ubjiTypecConvert t ≠ 0x7D := by
  cases t <;> decide

theorem type_ne (v : Node) : v.type ≠ .mixed ∧ v.type ≠ .numTypes := by
  cases v with
  | bool b => cases b <;> exact ⟨UbjType.noConfusion, UbjType.noConfusion⟩
  | _ => exact ⟨UbjType.noConfusion, UbjType.noConfusion⟩

variable {env : UbjrEnv}

/-! ## Leaves -/

theorem parses_text {typ : UbjType} (ht : typ = .string ∨ typ = .highPrecision) (s : Text)
    (hs : s.encode.length < 2 ^ 32) {fuel : Nat} (hf : 4 ≤ fuel) :
    Parses (privUbjrReadToPtr env fuel typ) s.encode (.text typ (cstr s.bytes)) := by
  obtain ⟨f, rfl⟩ : ∃ f, fuel = f + 1 := ⟨fuel - 1, by omega⟩
  rw [Text.encode, List.length_append] at hs
  have hlen : Parses (privUbjwReadInteger env f) (s.lengthType.encode s.bytes.length)
      s.bytes.length := Parses.length s.fits (by omega)
  have hread : Parses (readText env typ s.bytes.length) s.bytes (.text typ (cstr s.bytes)) :=
    Parses.readText typ (by omega)
  rcases ht with rfl | rfl
  · rw [privUbjrReadToPtr]
    exact hlen.bind hread
  · rw [privUbjrReadToPtr]
    exact hlen.bind hread

theorem parses_key (k : Text) (hk : k.encode.length < 2 ^ 32) {fuel : Nat} (hf : 5 ≤ fuel) :
    Parses (readKey env fuel) k.encode (cstr k.bytes) := by
  obtain ⟨f, rfl⟩ : ∃ f, fuel = f + 1 := ⟨fuel - 1, by omega⟩
  have h : Parses (privUbjrReadToPtr env f .string) k.encode (.text .string (cstr k.bytes)) :=
    parses_text (.inl rfl) k hk (by omega)
  rw [readKey, ← List.append_nil k.encode]
  exact h.bind (Parses.pure (cstr k.bytes))

/-! ## Elements -/

/-- The parser reads a value from behind its marker. -/
def Read (env : UbjrEnv) (v : Node) : Prop :=
  ∀ {fuel : Nat}, v.fuel ≤ fuel → Parses (privUbjrReadToPtr env fuel v.type) (payload v) v.dyn

/-- An element that has the type of its container, or any type in one without. -/
def Fits (typ : UbjType) (v : Node) : Prop := typ = .mixed ∨ v.type = typ

theorem parses_element {typ : UbjType} {v : Node} (htyp : Fits typ v) (hv : Read env v) {fuel : Nat}
    (hf : v.fuel + 2 ≤ fuel) :
    Parses (privUbjrReadToPtr env fuel typ) (marker typ v ++ payload v) v.dyn := by
  obtain ⟨f, rfl⟩ : ∃ f, fuel = f + 2 := ⟨fuel - 2, by omega⟩
  by_cases hmixed : typ = .mixed
  · subst hmixed
    rw [marker, if_pos rfl, privUbjrReadToPtr, List.singleton_append]
    exact Parses.dynamic (typeFromChar_marker v.type_ne.2) (hv (by omega))
  · rw [marker, if_neg hmixed, List.nil_append, ← htyp.resolve_left hmixed]
    exact hv (by omega)

/-- A container of known size. -/
theorem parses_count {typ : UbjType} : ∀ {items : List Node} {fuel : Nat},
    (∀ v ∈ items, Fits typ v ∧ Read env v) → fuelItems items ≤ fuel →
    Parses (readCount env fuel items.length typ) (payloads typ items) (dyns items)
  | [], fuel, _, hf => by
      obtain ⟨f, rfl⟩ : ∃ f, fuel = f + 1 := ⟨fuel - 1, by rw [fuelItems] at hf; omega⟩
      rw [List.length_nil, readCount]
      exact Parses.pure _
  | v :: vs, fuel, hv, hf => by
      rw [fuelItems] at hf
      obtain ⟨f, rfl⟩ : ∃ f, fuel = f + 1 := ⟨fuel - 1, by omega⟩
      obtain ⟨hfits, hread⟩ := hv v (List.mem_cons_self ..)
      have hhead : Parses (privUbjrReadToPtr env f typ) (marker typ v ++ payload v) v.dyn :=
        parses_element hfits hread (by omega)
      have htail : Parses (readCount env f vs.length typ) (payloads typ vs) (dyns vs) :=
        parses_count (fun u hu => hv u (List.mem_cons_of_mem _ hu)) (by omega)
      rw [List.length_cons, readCount, payloads]
      exact hhead.bind (htail.map _)

/-- A container up to its terminator, which no marker is. -/
theorem parses_until : ∀ {items : List Node} {fuel : Nat},
    (∀ v ∈ items, Read env v) → fuelItems items ≤ fuel →
    Parses (readUntil env fuel 0x5D .mixed) (payloads .mixed items ++ [0x5D]) (dyns items)
  | [], fuel, _, hf => by
      obtain ⟨f, rfl⟩ : ∃ f, fuel = f + 1 := ⟨fuel - 1, by rw [fuelItems] at hf; omega⟩
      rw [readUntil]
      exact Parses.peek ((Parses.getc 0x5D).map _)
  | v :: vs, fuel, hv, hf => by
      rw [fuelItems] at hf
      obtain ⟨f, rfl⟩ : ∃ f, fuel = f + 1 := ⟨fuel - 1, by omega⟩
      have hhead : Parses (privUbjrReadToPtr env f .mixed) (marker .mixed v ++ payload v) v.dyn :=
        parses_element (.inl rfl) (hv v (List.mem_cons_self ..)) (by omega)
      have htail : Parses (readUntil env f 0x5D .mixed) (payloads .mixed vs ++ [0x5D])
          (dyns vs) :=
        parses_until (fun u hu => hv u (List.mem_cons_of_mem _ hu)) (by omega)
      have hall := hhead.bind
        (f := fun d => readUntil env f 0x5D .mixed >>= fun ds => pure (d :: ds)) (htail.map _)
      rw [marker, if_pos rfl] at hall
      rw [readUntil, payloads, marker, if_pos rfl, List.append_assoc]
      refine Parses.peek ?_
      rw [if_neg (marker_ne v.type).2.2.1]
      exact hall

/-- The fields of an object of known size. -/
theorem parses_fieldsCount {typ : UbjType} : ∀ {fs : List (Text × Node)} {fuel : Nat},
    (∀ f ∈ fs, f.1.encode.length < 2 ^ 32 ∧ Fits typ f.2 ∧ Read env f.2) → fuelFields fs ≤ fuel →
    Parses (readFieldsCount env fuel fs.length typ) (payloadFields typ fs) (dynFields fs)
  | [], fuel, _, hf => by
      obtain ⟨f, rfl⟩ : ∃ f, fuel = f + 1 := ⟨fuel - 1, by rw [fuelFields] at hf; omega⟩
      rw [List.length_nil, readFieldsCount]
      exact Parses.pure _
  | (k, v) :: fs, fuel, hv, hf => by
      rw [fuelFields] at hf
      obtain ⟨f, rfl⟩ : ∃ f, fuel = f + 6 := ⟨fuel - 6, by omega⟩
      obtain ⟨hk, hfits, hread⟩ : k.encode.length < 2 ^ 32 ∧ Fits typ v ∧ Read env v :=
        hv (k, v) (List.mem_cons_self ..)
      have hhead : Parses (privUbjrReadToPtr env (f + 5) typ) (marker typ v ++ payload v) v.dyn :=
        parses_element hfits hread (by omega)
      have htail : Parses (readFieldsCount env (f + 5) fs.length typ) (payloadFields typ fs)
          (dynFields fs) :=
        parses_fieldsCount (fun g hg => hv g (List.mem_cons_of_mem _ hg)) (by omega)
      rw [List.length_cons, readFieldsCount, payloadFields, List.append_assoc]
      exact (parses_key k hk (by omega)).bind (hhead.bind (htail.map _))

/-- The fields of an object up to its terminator, which no length begins with. -/
theorem parses_fieldsUntil : ∀ {fs : List (Text × Node)} {fuel : Nat},
    (∀ f ∈ fs, f.1.encode.length < 2 ^ 32 ∧ Read env f.2) → fuelFields fs ≤ fuel →
    Parses (readFieldsUntil env fuel .mixed) (payloadFields .mixed fs ++ [0x7D]) (dynFields fs)
  | [], fuel, _, hf => by
      obtain ⟨f, rfl⟩ : ∃ f, fuel = f + 1 := ⟨fuel - 1, by rw [fuelFields] at hf; omega⟩
      rw [readFieldsUntil]
      exact Parses.peek ((Parses.getc 0x7D).map _)
  | (k, v) :: fs, fuel, hv, hf => by
      rw [fuelFields] at hf
      obtain ⟨f, rfl⟩ : ∃ f, fuel = f + 6 := ⟨fuel - 6, by omega⟩
      obtain ⟨hk, hread⟩ : k.encode.length < 2 ^ 32 ∧ Read env v :=
        hv (k, v) (List.mem_cons_self ..)
      have hhead : Parses (privUbjrReadToPtr env (f + 5) .mixed) (marker .mixed v ++ payload v)
          v.dyn := parses_element (.inl rfl) hread (by omega)
      have htail : Parses (readFieldsUntil env (f + 5) .mixed) (payloadFields .mixed fs ++ [0x7D])
          (dynFields fs) :=
        parses_fieldsUntil (fun g hg => hv g (List.mem_cons_of_mem _ hg)) (by omega)
      have hkey : Parses (readKey env (f + 5)) k.encode (cstr k.bytes) := parses_key k hk (by omega)
      have hall := hkey.bind
        (f := fun key => privUbjrReadToPtr env (f + 5) .mixed >>= fun d =>
          readFieldsUntil env (f + 5) .mixed >>= fun ds => pure ((key, d) :: ds))
        (hhead.bind (htail.map _))
      rw [readFieldsUntil, payloadFields, List.append_assoc, List.append_assoc]
      rw [Text.encode, LengthType.encode, List.append_assoc, List.cons_append] at hall ⊢
      refine Parses.peek ?_
      rw [if_neg (marker_ne k.lengthType.type).2.2.2]
      exact hall

/-! ## Containers -/

theorem payload_length_le {typ : UbjType} {v : Node} : ∀ {items : List Node}, v ∈ items →
    (payload v).length ≤ (payloads typ items).length
  | u :: items, hm => by
      rw [payloads, List.length_append, List.length_append]
      rcases List.mem_cons.mp hm with rfl | hm
      · omega
      · have ih : (payload v).length ≤ (payloads typ items).length := payload_length_le hm
        omega

theorem payloadField_length_le {typ : UbjType} {g : Text × Node} : ∀ {fs : List (Text × Node)},
    g ∈ fs → g.1.encode.length + (payload g.2).length ≤ (payloadFields typ fs).length
  | (k, v) :: fs, hm => by
      rw [payloadFields, List.length_append, List.length_append, List.length_append]
      rcases List.mem_cons.mp hm with rfl | hm
      · dsimp only
        omega
      · have ih : g.1.encode.length + (payload g.2).length ≤ (payloadFields typ fs).length :=
          payloadField_length_le hm
        omega

theorem opening_closing_pos (form : Form) (n : Nat) (close : UInt8) :
    1 ≤ (form.opening n).length + (form.closing close).length := by
  cases form <;> simp [Form.opening, Form.closing]

/-- What a value takes in memory, it takes on the wire. -/
theorem localsize_le (v : Node) : ubjrTypeLocalsize v.type ≤ 48 * (payload v).length := by
  cases v with
  | null => exact Nat.zero_le _
  | bool b => cases b <;> exact Nat.zero_le _
  | array form items =>
    have h := opening_closing_pos form items.length 0x5D
    rw [payload, List.length_append, List.length_append]
    show 40 ≤ _
    omega
  | object form fields =>
    have h := opening_closing_pos form fields.length 0x7D
    rw [payload, List.length_append, List.length_append]
    show 40 ≤ _
    omega
  | string s =>
    simp only [payload, type, ubjrTypeLocalsize, Text.encode, LengthType.encode, List.length_append,
      List.length_cons]
    omega
  | highPrecision s =>
    simp only [payload, type, ubjrTypeLocalsize, Text.encode, LengthType.encode, List.length_append,
      List.length_cons]
    omega
  | _ => simp [payload, type, ubjrTypeLocalsize]

theorem element_room {typ : UbjType} {v : Node} (h : Fits typ v) :
    ubjrTypeLocalsize typ ≤ 48 * (marker typ v ++ payload v).length := by
  by_cases hmixed : typ = .mixed
  · subst hmixed
    rw [marker, if_pos rfl, List.singleton_append, List.length_cons]
    show 48 ≤ _
    omega
  · have hlocal := localsize_le v
    rw [h.resolve_left hmixed] at hlocal
    rw [List.length_append]
    omega

theorem payloads_room {typ : UbjType} : ∀ {items : List Node}, (∀ v ∈ items, Fits typ v) →
    ubjrTypeLocalsize typ * items.length ≤ 48 * (payloads typ items).length
  | [], _ => Nat.zero_le _
  | v :: vs, h => by
      have hhead := element_room (h v (List.mem_cons_self ..))
      have htail := payloads_room fun u hu => h u (List.mem_cons_of_mem _ hu)
      rw [payloads, List.length_append, List.length_cons, Nat.mul_succ]
      omega

theorem payloadFields_room {typ : UbjType} : ∀ {fs : List (Text × Node)},
    (∀ f ∈ fs, Fits typ f.2) →
    ubjrTypeLocalsize typ * fs.length ≤ 48 * (payloadFields typ fs).length ∧
      fs.length ≤ (payloadFields typ fs).length
  | [], _ => ⟨Nat.zero_le _, Nat.zero_le _⟩
  | (k, v) :: fs, h => by
      have hhead : ubjrTypeLocalsize typ ≤ 48 * (marker typ v ++ payload v).length :=
        element_room (h (k, v) (List.mem_cons_self ..))
      obtain ⟨htail, hcount⟩ := payloadFields_room fun f hf => h f (List.mem_cons_of_mem _ hf)
      have hkey : 1 ≤ k.encode.length := by simp [Text.encode, LengthType.encode]
      rw [payloadFields, List.length_append, List.length_append, List.length_cons, Nat.mul_succ]
      omega

/-- A value of a type that has one width. -/
def FixedWidth (t : UbjType) : Prop := t ≠ .mixed ∧ t ≠ .char ∧ t ≠ .string ∧
  t ≠ .highPrecision ∧ t ≠ .array ∧ t ≠ .object ∧ t ≠ .numTypes

theorem beNat_toNat {k w : Nat} (i : BitVec w) (hw : 2 ^ w = 256 ^ k) :
    beNat (beBytes k i.toNat) = i.toNat := by
  rw [beNat_beBytes, ← hw, Nat.mod_eq_of_lt i.isLt]

theorem fixed_payload {v : Node} (h : FixedWidth v.type) :
    (payload v).length = (ubjiTypeSize v.type).toNat ∧
      fixedToDynamic v.type (beNat (payload v)) = v.dyn := by
  obtain ⟨-, hchar, hstring, hprec, harray, hobject, -⟩ := h
  cases v with
  | null => exact ⟨rfl, rfl⟩
  | bool b => cases b <;> exact ⟨rfl, rfl⟩
  | char c => exact absurd rfl hchar
  | string s => exact absurd rfl hstring
  | highPrecision s => exact absurd rfl hprec
  | array form items => exact absurd rfl harray
  | object form fields => exact absurd rfl hobject
  | uint8 i =>
    refine ⟨by simp [payload, type, ubjiTypeSize], ?_⟩
    rw [payload, beNat_toNat i rfl]
    rfl
  | _ i =>
    refine ⟨by simp [payload, type, ubjiTypeSize], ?_⟩
    rw [payload, beNat_toNat i rfl]
    simp [fixedToDynamic, type, dyn]

/-- Values of one width are read from one block. -/
theorem readBlock_payloads {t : UbjType} (ht : FixedWidth t) : ∀ {items : List Node},
    (∀ v ∈ items, v.type = t) →
    (payloads t items).length = (ubjiTypeSize t).toNat * items.length ∧
      readBlock t (ubjiTypeSize t).toNat items.length (payloads t items) = dyns items
  | [], _ => ⟨rfl, rfl⟩
  | v :: vs, h => by
      have hv : v.type = t := h v (List.mem_cons_self ..)
      obtain ⟨hlen, hread⟩ := readBlock_payloads ht fun u hu => h u (List.mem_cons_of_mem _ hu)
      subst hv
      obtain ⟨hwidth, hfixed⟩ := fixed_payload ht
      rw [payloads, marker, if_neg ht.1, List.nil_append]
      refine ⟨?_, ?_⟩
      · rw [List.length_append, List.length_cons, Nat.mul_succ, hwidth, hlen]
        omega
      · rw [List.length_cons, readBlock, ← hwidth, List.take_left, List.drop_left, hfixed, hwidth,
          hread]
        rfl

/-- In front of elements without parameters there is none that could be one. -/
theorem opens_elements (items : List Node) : ∃ c bs,
    payloads .mixed items ++ [0x5D] = c :: bs ∧ c ≠ 0x24 ∧ c ≠ 0x23 := by
  cases items with
  | nil => exact ⟨0x5D, [], rfl, by decide, by decide⟩
  | cons v vs =>
    refine ⟨ubjiTypecConvert v.type, payload v ++ payloads .mixed vs ++ [0x5D], ?_,
      (marker_ne v.type).1, (marker_ne v.type).2.1⟩
    rw [payloads, marker, if_pos rfl]
    rfl

theorem opens_fields (fs : List (Text × Node)) : ∃ c bs,
    payloadFields .mixed fs ++ [0x7D] = c :: bs ∧ c ≠ 0x24 ∧ c ≠ 0x23 := by
  cases fs with
  | nil => exact ⟨0x7D, [], rfl, by decide, by decide⟩
  | cons f fs =>
    obtain ⟨k, v⟩ := f
    rw [payloadFields, Text.encode, LengthType.encode]
    exact ⟨ubjiTypecConvert k.lengthType.type, _, rfl, (marker_ne _).1, (marker_ne _).2.1⟩

/-- The elements of an array of known size, one by one or as a block. -/
theorem parses_arrayValues {typ : UbjType} {items : List Node} (hnum : typ ≠ .numTypes)
    (harray : typ ≠ .array) (hobject : typ ≠ .object) (hne : items ≠ [])
    (hitems : ∀ v ∈ items, Fits typ v ∧ Read env v)
    (hlen : (payloads typ items).length < 2 ^ 32) {fuel : Nat} (hf : fuelItems items + 1 ≤ fuel) :
    Parses (readArrayValues env fuel typ items.length) (payloads typ items) (dyns items) := by
  obtain ⟨f, rfl⟩ : ∃ f, fuel = f + 1 := ⟨fuel - 1, by omega⟩
  have hroom := payloads_room fun v hv => (hitems v hv).1
  have hsize : items.length ≠ 0 := fun h0 => hne (List.length_eq_zero_iff.mp h0)
  have hlimit : ¬ mallocLimit ≤ ubjrTypeLocalsize typ * items.length + 1 := by
    unfold mallocLimit
    omega
  have hcount : Parses (readCount env f items.length typ) (payloads typ items) (dyns items) :=
    parses_count hitems (by omega)
  have hblock : FixedWidth typ → Parses (privUbjrContextRead env
      ((ubjiTypeSize typ).toNat * items.length) >>= fun block =>
        pure (readBlock typ (ubjiTypeSize typ).toNat items.length block))
      (payloads typ items) (dyns items) := by
    intro hfixed
    obtain ⟨hwidth, hread⟩ := readBlock_payloads hfixed fun v hv =>
      (hitems v hv).1.resolve_left hfixed.1
    rw [← hwidth, ← hread]
    exact (Parses.contextRead (payloads typ items)).map _
  cases typ with
  | numTypes => exact absurd rfl hnum
  | array => exact absurd rfl harray
  | object => exact absurd rfl hobject
  | mixed | char | string | highPrecision =>
    rw [readArrayValues, if_neg hnum, if_neg hsize, if_neg hlimit]
    exact hcount
  | _ =>
    have hread := hblock (by refine ⟨?_, ?_, ?_, ?_, ?_, ?_, ?_⟩ <;> exact UbjType.noConfusion)
    rw [readArrayValues, if_neg hnum, if_neg hsize, if_neg hlimit]
    · exact hread
    -- the element types that take another path
    all_goals exact UbjType.noConfusion

/-- What says that there are no parameters, and the elements up to the terminator. -/
theorem parses_terminated {items : List Node} (hitems : ∀ v ∈ items, Read env v) {fuel : Nat}
    (hf : fuelItems items + 5 ≤ fuel) :
    Parses (privUbjrReadRawArray env fuel) (payloads .mixed items ++ [0x5D])
      (.array .mixed (dyns items)) := by
  obtain ⟨f, rfl⟩ : ∃ f, fuel = f + 3 := ⟨fuel - 3, by omega⟩
  have hloop : Parses (readUntil env (f + 1) 0x5D .mixed) (payloads .mixed items ++ [0x5D])
      (dyns items) := parses_until hitems (by omega)
  obtain ⟨c, bs, he, hparam, hcount⟩ := opens_elements items
  rw [he] at hloop
  rw [privUbjrReadRawArray, he]
  refine Parses.params_none (by omega) hparam hcount ?_
  rw [readArraySize, if_neg (fun h => h.1 rfl), pure_bind, readArrayValues,
    if_neg UbjType.noConfusion, if_pos rfl]
  exact hloop.map _

theorem parses_array {form : Form} {items : List Node} (hfits : form.Fits items.length)
    (hstep : form = .terminated ∨ items ≠ []) (harray : form.type ≠ .array)
    (hobject : form.type ≠ .object) (hitems : ∀ v ∈ items, Fits form.type v ∧ Read env v)
    (hlen : (payloads form.type items).length < 2 ^ 32) {fuel : Nat}
    (hf : fuelItems items + 7 ≤ fuel) :
    Parses (privUbjrReadRawArray env fuel) (payload (.array form items))
      (.array form.type (dyns items)) := by
  rw [payload]
  by_cases hterm : form = .terminated
  · subst hterm
    exact parses_terminated (fun v hv => (hitems v hv).2) (by omega)
  · have hne : items ≠ [] := hstep.resolve_left hterm
    have hnum : form.type ≠ .numTypes := by
      cases form with
      | typed t l => exact hfits.2.2.2
      | _ => exact UbjType.noConfusion
    have hclosing : form.closing 0x5D = [] := by
      cases form with
      | terminated => exact absurd rfl hterm
      | _ => rfl
    have hsize : items.length ≠ 0 := fun h0 => hne (List.length_eq_zero_iff.mp h0)
    obtain ⟨f, rfl⟩ : ∃ f, fuel = f + 2 := ⟨fuel - 2, by omega⟩
    rw [hclosing, List.append_nil, privUbjrReadRawArray]
    refine (Parses.params hterm hfits (by omega)).bind ?_
    rw [readArraySize, if_neg (fun h => hsize h.2), pure_bind]
    exact (parses_arrayValues hnum harray hobject hne hitems hlen (by omega)).map _

theorem parses_object {form : Form} {fs : List (Text × Node)} (hfits : form.Fits fs.length)
    (hstep : form = .terminated ∨ fs ≠ [])
    (hfields : ∀ f ∈ fs, f.1.encode.length < 2 ^ 32 ∧ Fits form.type f.2 ∧ Read env f.2)
    (hlen : (payloadFields form.type fs).length < 2 ^ 32) {fuel : Nat}
    (hf : fuelFields fs + 7 ≤ fuel) :
    Parses (privUbjrReadRawObject env fuel) (payload (.object form fs))
      (dyn (.object form fs)) := by
  obtain ⟨f, rfl⟩ : ∃ f, fuel = f + 3 := ⟨fuel - 3, by omega⟩
  rw [payload, dyn]
  by_cases hterm : form = .terminated
  · subst hterm
    have hloop : Parses (readFieldsUntil env (f + 1) .mixed) (payloadFields .mixed fs ++ [0x7D])
        (dynFields fs) :=
      parses_fieldsUntil (fun g hg => ⟨(hfields g hg).1, (hfields g hg).2.2⟩) (by omega)
    show Parses _ (payloadFields .mixed fs ++ [0x7D]) _
    obtain ⟨c, bs, he, hparam, hcount⟩ := opens_fields fs
    rw [he] at hloop
    rw [privUbjrReadRawObject, he]
    refine Parses.params_none (by omega) hparam hcount ?_
    rw [readObjectFields, if_neg UbjType.noConfusion, if_pos rfl]
    exact hloop.map _
  · have hne : fs ≠ [] := hstep.resolve_left hterm
    have hnum : form.type ≠ .numTypes := by
      cases form with
      | typed t l => exact hfits.2.2.2
      | _ => exact UbjType.noConfusion
    have hclosing : form.closing 0x7D = [] := by
      cases form with
      | terminated => exact absurd rfl hterm
      | _ => rfl
    have hsize : fs.length ≠ 0 := fun h0 => hne (List.length_eq_zero_iff.mp h0)
    obtain ⟨hroom, hcount⟩ := payloadFields_room fun g hg => (hfields g hg).2.1
    have hlimit : ¬ (mallocLimit ≤ ubjrTypeLocalsize form.type * fs.length + 1 ∨
        mallocLimit ≤ 8 * fs.length) := by
      unfold mallocLimit
      omega
    rw [hclosing, List.append_nil, privUbjrReadRawObject]
    refine (Parses.params hterm hfits (by omega)).bind ?_
    rw [readObjectFields, if_neg hnum, if_neg hsize, if_neg hlimit]
    exact (parses_fieldsCount hfields (by omega)).map _

/-! ## Documents -/

/-- Induction over a document, element by element. -/
theorem induct {P : Node → Prop} (leaf : ∀ v : Node, v.isContainer = false → P v)
    (array : ∀ form (items : List Node), (∀ v ∈ items, P v) → P (.array form items))
    (object : ∀ form (fields : List (Text × Node)), (∀ f ∈ fields, P f.2) →
      P (.object form fields)) (v : Node) : P v :=
  match v with
  | .array form items => array form items fun u hu =>
      have := List.sizeOf_lt_of_mem hu
      induct leaf array object u
  | .object form fields => object form fields fun (k, u) hf =>
      have : sizeOf u < sizeOf fields := by
        have hlt := List.sizeOf_lt_of_mem hf
        rw [Prod.mk.sizeOf_spec] at hlt
        omega
      induct leaf array object u
  | .null => leaf _ rfl
  | .bool _ => leaf _ rfl
  | .char _ => leaf _ rfl
  | .string _ => leaf _ rfl
  | .highPrecision _ => leaf _ rfl
  | .int8 _ => leaf _ rfl
  | .uint8 _ => leaf _ rfl
  | .int16 _ => leaf _ rfl
  | .int32 _ => leaf _ rfl
  | .int64 _ => leaf _ rfl
  | .float32 _ => leaf _ rfl
  | .float64 _ => leaf _ rfl

theorem wellFormedItems_iff {typ : UbjType} : ∀ {items : List Node},
    WellFormedItems typ items ↔ ∀ v ∈ items, Fits typ v ∧ WellFormed v
  | [] => ⟨fun _ _ hm => absurd hm List.not_mem_nil, fun _ => trivial⟩
  | v :: vs => by
      rw [WellFormedItems, wellFormedItems_iff, List.forall_mem_cons, and_assoc]
      rfl

theorem wellFormedFields_iff {typ : UbjType} : ∀ {fs : List (Text × Node)},
    WellFormedFields typ fs ↔ ∀ f ∈ fs, Fits typ f.2 ∧ WellFormed f.2
  | [] => ⟨fun _ _ hm => absurd hm List.not_mem_nil, fun _ => trivial⟩
  | (k, v) :: fs => by
      rw [WellFormedFields, wellFormedFields_iff, List.forall_mem_cons, and_assoc]
      rfl

theorem inStepItems_iff : ∀ {items : List Node}, InStepItems items ↔ ∀ v ∈ items, InStep v
  | [] => ⟨fun _ _ hm => absurd hm List.not_mem_nil, fun _ => trivial⟩
  | v :: vs => by rw [InStepItems, inStepItems_iff, List.forall_mem_cons]

theorem inStepFields_iff : ∀ {fs : List (Text × Node)},
    InStepFields fs ↔ ∀ f ∈ fs, InStep f.2
  | [] => ⟨fun _ _ hm => absurd hm List.not_mem_nil, fun _ => trivial⟩
  | (k, v) :: fs => by rw [InStepFields, inStepFields_iff, List.forall_mem_cons]

theorem intactItems_iff : ∀ {items : List Node}, IntactItems items ↔ ∀ v ∈ items, Intact v
  | [] => ⟨fun _ _ hm => absurd hm List.not_mem_nil, fun _ => trivial⟩
  | v :: vs => by rw [IntactItems, intactItems_iff, List.forall_mem_cons]

theorem intactFields_iff : ∀ {fs : List (Text × Node)},
    IntactFields fs ↔ ∀ f ∈ fs, Intact f.2
  | [] => ⟨fun _ _ hm => absurd hm List.not_mem_nil, fun _ => trivial⟩
  | (k, v) :: fs => by rw [IntactFields, intactFields_iff, List.forall_mem_cons]

theorem dyns_eq_map : ∀ items : List Node, dyns items = items.map dyn
  | [] => rfl
  | v :: vs => by rw [dyns, List.map_cons, dyns_eq_map vs]

theorem dynFields_eq_map : ∀ fs : List (Text × Node),
    dynFields fs = fs.map fun f => (cstr f.1.bytes, f.2.dyn)
  | [] => rfl
  | (k, v) :: fs => by rw [dynFields, List.map_cons, dynFields_eq_map fs]

/-- A leaf is read from behind its marker. -/
theorem parses_leaf {v : Node} (hv : v.isContainer = false) (hlen : (payload v).length < 2 ^ 32) :
    Read env v := by
  intro fuel hf
  have hge := fuel_ge v
  obtain ⟨f, rfl⟩ : ∃ f, fuel = f + 1 := ⟨fuel - 1, by omega⟩
  cases v with
  | array form items => cases hv
  | object form fields => cases hv
  | null =>
    show Parses (privUbjrReadToPtr env (f + 1) .nullType) [] _
    rw [privUbjrReadToPtr]
    exact Parses.pure _
  | bool b =>
    cases b with
    | true =>
      show Parses (privUbjrReadToPtr env (f + 1) .boolTrue) [] _
      rw [privUbjrReadToPtr]
      exact Parses.pure _
    | false =>
      show Parses (privUbjrReadToPtr env (f + 1) .boolFalse) [] _
      rw [privUbjrReadToPtr]
      exact Parses.pure _
  | char c =>
    show Parses (privUbjrReadToPtr env (f + 1) .char) [c] _
    rw [privUbjrReadToPtr]
    exact Parses.readText .char hlen
  | string s => exact parses_text (.inl rfl) s hlen (by omega)
  | highPrecision s => exact parses_text (.inr rfl) s hlen (by omega)
  | int8 i =>
    have h := @Parses.fixed8 env .int8 (.inl rfl) f i.toNat
    rw [Nat.mod_eq_of_lt i.isLt, fixedToDynamic, BitVec.ofNat_toNat, BitVec.setWidth_eq] at h
    exact h
  | uint8 i =>
    have h := @Parses.fixed8 env .uint8 (.inr rfl) f i.toNat
    rw [Nat.mod_eq_of_lt i.isLt] at h
    exact h
  | int16 i =>
    have h := @Parses.fixed16 env f i.toNat
    rw [Nat.mod_eq_of_lt i.isLt, fixedToDynamic, BitVec.ofNat_toNat, BitVec.setWidth_eq] at h
    exact h
  | int32 i =>
    have h := @Parses.fixed32 env .int32 (.inl rfl) f i.toNat
    rw [Nat.mod_eq_of_lt i.isLt, fixedToDynamic, BitVec.ofNat_toNat, BitVec.setWidth_eq] at h
    exact h
  | int64 i =>
    have h := @Parses.fixed64 env .int64 (.inl rfl) f i.toNat
    rw [Nat.mod_eq_of_lt i.isLt, fixedToDynamic, BitVec.ofNat_toNat, BitVec.setWidth_eq] at h
    exact h
  | float32 bits =>
    have h := @Parses.fixed32 env .float32 (.inr rfl) f bits.toNat
    rw [Nat.mod_eq_of_lt bits.isLt, fixedToDynamic, BitVec.ofNat_toNat, BitVec.setWidth_eq] at h
    exact h
  | float64 bits =>
    have h := @Parses.fixed64 env .float64 (.inr rfl) f bits.toNat
    rw [Nat.mod_eq_of_lt bits.isLt, fixedToDynamic, BitVec.ofNat_toNat, BitVec.setWidth_eq] at h
    exact h

/-- **The parser keeps step**: nothing of a document is lost before the C++ layer. -/
theorem parses_payload (v : Node) : WellFormed v → InStep v → (payload v).length < 2 ^ 32 →
    Read env v := by
  refine induct (P := fun v => WellFormed v → InStep v → (payload v).length < 2 ^ 32 →
    Read env v) ?_ ?_ ?_ v
  · intro v hv _ _ hlen
    exact parses_leaf hv hlen
  · intro form items ih hwf hstep hlen fuel hf
    obtain ⟨hfits, hitems⟩ := hwf
    obtain ⟨hne, harray, hobject, hsteps⟩ := hstep
    have hshort : (payloads form.type items).length < 2 ^ 32 := by
      rw [payload, List.length_append, List.length_append] at hlen
      omega
    rw [Node.fuel] at hf
    obtain ⟨f, rfl⟩ : ∃ f, fuel = f + 1 := ⟨fuel - 1, by omega⟩
    show Parses (privUbjrReadToPtr env (f + 1) .array) _ _
    rw [privUbjrReadToPtr]
    refine parses_array hfits hne harray hobject (fun v hv => ?_) hshort (by omega)
    obtain ⟨hv1, hv2⟩ := wellFormedItems_iff.mp hitems v hv
    exact ⟨hv1, ih v hv hv2 (inStepItems_iff.mp hsteps v hv)
      (Nat.lt_of_le_of_lt (payload_length_le hv) hshort)⟩
  · intro form fields ih hwf hstep hlen fuel hf
    obtain ⟨hfits, -, hfields⟩ := hwf
    obtain ⟨hne, hsteps⟩ := hstep
    have hshort : (payloadFields form.type fields).length < 2 ^ 32 := by
      rw [payload, List.length_append, List.length_append] at hlen
      omega
    rw [Node.fuel] at hf
    obtain ⟨f, rfl⟩ : ∃ f, fuel = f + 1 := ⟨fuel - 1, by omega⟩
    show Parses (privUbjrReadToPtr env (f + 1) .object) _ _
    rw [privUbjrReadToPtr]
    refine parses_object hfits hne (fun g hg => ?_) hshort (by omega)
    obtain ⟨hg1, hg2⟩ := wellFormedFields_iff.mp hfields g hg
    have hpart : g.1.encode.length + (payload g.2).length ≤ (payloadFields form.type fields).length :=
      payloadField_length_le hg
    exact ⟨by omega, hg1, ih g hg hg2 (inStepFields_iff.mp hsteps g hg) (by omega)⟩

end Node

end Zway.Ubj
