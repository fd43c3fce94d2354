import Zway.Ubj.DocumentProof
import Zway.Ubj.RoundTrip

/-!
# What the reader makes of a document

What the parser has kept is lost on the way from its tree to a `Value`: the `switch` of
`Reader::readDynamic` has no case for half of the types, and `Reader::readArray` none for most
arrays with a type.
-/

namespace Zway.Ubj

/-! ## Leaves -/

/-- The detour through `double` sets the quiet bit of a NaN, and nothing else. -/
theorem floatViaDouble_iff (bits : BitVec 32) :
    floatViaDouble bits = bits ↔ isSignalling bits = false := by
  have hquiet : bits ||| 0x00400000#32 = bits ↔ bits.getLsbD 22 = true := by
    constructor
    · intro h
      rw [← h, BitVec.getLsbD_or]
      exact Bool.or_true _
    · intro h
      refine BitVec.eq_of_getLsbD_eq fun i hi => ?_
      have hmask : ∀ j : Fin 32, j.val ≠ 22 → (0x00400000#32).getLsbD j.val = false := by decide
      rw [BitVec.getLsbD_or]
      by_cases hj : i = 22
      · rw [hj, h]
        rfl
      · rw [hmask ⟨i, hi⟩ hj, Bool.or_false]
  unfold floatViaDouble isSignalling
  change (if isNaN32 bits = true then _ else _) = bits ↔ _
  cases hnan : isNaN32 bits with
  | false => exact ⟨fun _ => rfl, fun _ => rfl⟩
  | true =>
    rw [if_pos rfl, hquiet, Bool.true_and]
    cases bits.getLsbD 22 with
    | true => exact ⟨fun _ => rfl, fun _ => rfl⟩
    | false => exact ⟨fun h => absurd h Bool.false_ne_true, fun h => absurd h (by decide)⟩

/-- A string is kept if it is not empty and has no NUL in it. -/
theorem ofString_cstr_iff (s : Bytes) : Value.ofString (cstr s) = .string s ↔ Carried s := by
  constructor
  · intro h
    unfold Value.ofString at h
    split at h
    · cases h
    · rename_i hne
      have hs : cstr s = s := Value.string.inj h
      refine ⟨fun hnil => hne (by rw [hs, hnil]; rfl), ?_⟩
      rw [← hs]
      exact cstr_nulFree s
  · rintro ⟨hne, hnul⟩
    have hempty : s.isEmpty = false := by simpa using hne
    rw [cstr_of_nulFree hnul, Value.ofString, hempty]
    rfl

/-- Reading a value over what it was read as leaves it. -/
theorem readDynamic_again (d : UbjrDynamic) :
    Reader.readDynamic d (Reader.readDynamic d .null) = Reader.readDynamic d .null := by
  cases d with
  | integer t n => cases t <;> rfl
  | text t s => cases t <;> rfl
  | array t values => cases t <;> rfl
  | _ => rfl

namespace Node

theorem matches_leaf {v : Node} (hv : v.isContainer = false) :
    Matches v (Reader.readDynamic v.dyn .null) ↔ Intact v := by
  cases v with
  | array form items => cases hv
  | object form fields => cases hv
  | null => exact ⟨fun _ => trivial, fun _ => rfl⟩
  | bool b => exact ⟨fun _ => trivial, fun _ => rfl⟩
  | string s => exact ofString_cstr_iff s.bytes
  | int32 i =>
    rw [dyn, Reader.readDynamic, BitVec.ofInt_toInt]
    exact ⟨fun _ => trivial, fun _ => rfl⟩
  | int64 i =>
    rw [dyn, Reader.readDynamic, BitVec.ofInt_toInt]
    exact ⟨fun _ => trivial, fun _ => rfl⟩
  | float32 bits =>
    rw [dyn, Reader.readDynamic, Intact, ← floatViaDouble_iff]
    exact ⟨Value.float32.inj, congrArg Value.float32⟩
  | float64 bits => exact ⟨fun _ => trivial, fun _ => rfl⟩
  -- the types without a case in the `switch`
  | char c => exact ⟨fun h => absurd h Value.noConfusion, False.elim⟩
  | highPrecision s => exact ⟨fun h => absurd h Value.noConfusion, False.elim⟩
  | int8 i => exact ⟨fun h => Option.some_ne_none _ (Eq.symm h), False.elim⟩
  | uint8 i => exact ⟨fun h => Option.some_ne_none _ (Eq.symm h), False.elim⟩
  | int16 i => exact ⟨fun h => Option.some_ne_none _ (Eq.symm h), False.elim⟩

/-! ## Arrays -/

theorem matches_items : ∀ {items : List Node},
    (∀ v ∈ items, (Matches v (Reader.readDynamic v.dyn .null) ↔ Intact v)) →
    (MatchesItems items ((Reader.readDynamics (dyns items)).map fun read => read .null) ↔
      IntactItems items)
  | [], _ => ⟨fun _ => trivial, fun _ => rfl⟩
  | v :: vs, h => by
      obtain ⟨hv, hvs⟩ := List.forall_mem_cons.mp h
      rw [IntactItems, ← hv, ← matches_items hvs]
      exact Iff.rfl

/-- An array of bytes is read as a buffer of them. -/
theorem matches_bytes : ∀ {items : List Node}, (∀ v ∈ items, v.type = .int8) →
    MatchesBytes items ((dyns items).map Reader.int8Byte)
  | [], _ => trivial
  | v :: vs, h => by
      obtain ⟨hv, hvs⟩ := List.forall_mem_cons.mp h
      cases v with
      | int8 i =>
        have hbyte : BitVec.ofNat 8 (Reader.int8Byte (.integer .int8 i.toInt)).toNat = i := by
          have h := int8Byte_eq (UInt8.ofNat i.toNat)
          have hi : (UInt8.ofNat i.toNat).toNat = i.toNat := by
            rw [UInt8.toNat_ofNat', Nat.mod_eq_of_lt i.isLt]
          rw [hi, BitVec.ofNat_toNat, BitVec.setWidth_eq] at h
          rw [h, hi, BitVec.ofNat_toNat, BitVec.setWidth_eq]
        refine ⟨?_, matches_bytes hvs⟩
        rw [dyn, hbyte]
        rfl
      | bool b => cases b <;> cases hv
      | _ => cases hv

theorem matches_array {form : Form} {items : List Node} (hfits : ∀ v ∈ items, Fits form.type v)
    (hstep : form = .terminated ∨ items ≠ [])
    (ih : ∀ v ∈ items, (Matches v (Reader.readDynamic v.dyn .null) ↔ Intact v)) :
    Matches (.array form items) (Reader.readDynamic (dyn (.array form items)) .null) ↔
      Intact (.array form items) := by
  have hmixed : form.type = .mixed → (Matches (.array form items)
      (Reader.readDynamic (dyn (.array form items)) .null) ↔ Intact (.array form items)) := by
    intro htype
    rw [dyn, htype, Reader.readDynamic, Intact, htype]
    exact (matches_items ih).trans
      ⟨fun h => .inr ⟨rfl, h⟩, fun h => (h.resolve_left UbjType.noConfusion).2⟩
  cases form with
  | terminated => exact hmixed rfl
  | sized l => exact hmixed rfl
  | typed t l =>
    by_cases ht : t = .mixed
    · exact hmixed ht
    · have hne : items ≠ [] := hstep.resolve_left Form.noConfusion
      have htypes : ∀ v ∈ items, v.type = t := fun v hv => (hfits v hv).resolve_left ht
      by_cases hbytes : t = .int8
      · subst hbytes
        exact ⟨fun _ => .inl rfl, fun _ => matches_bytes htypes⟩
      · -- the value is an array without elements
        have hread : Reader.readDynamic (dyn (.array (.typed t l) items)) .null = .buffer [] := by
          cases t with
          | mixed => exact absurd rfl ht
          | int8 => exact absurd rfl hbytes
          | _ => rfl
        rw [hread]
        refine ⟨fun h => ?_, fun h => ?_⟩
        · cases items with
          | nil => exact absurd rfl hne
          | cons v vs => exact h.elim
        · rcases h with h | ⟨h, -⟩
          · exact absurd h hbytes
          · exact absurd h ht

/-! ## Objects -/

/-- The keys of what is read are keys of the document. -/
theorem mem_readObject {keys : List Bytes} {reads : List (Value → Value)} :
    ∀ {ks : List Bytes} {res : Object} {p : Bytes × Value},
      p ∈ Reader.readObject keys reads ks res → p.1 ∈ ks ∨ ∃ q ∈ res, q.1 = p.1
  | [], res, p, hp => .inr ⟨p, hp, rfl⟩
  | k :: ks, res, p, hp => by
      rw [Reader.readObject] at hp
      rcases mem_readObject hp with hk | ⟨q, hq, he⟩
      · exact .inl (List.mem_cons_of_mem _ hk)
      · rcases OrdMap.mem_insert hq with rfl | hq
        · exact .inl (he ▸ List.mem_cons_self ..)
        · exact .inr ⟨q, hq, he⟩

/-- The fields of an object, as the loop of `Reader::readObject` leaves them. -/
def readFields (fs : List (Text × Node)) : Object :=
  Reader.readObject (fs.map fun f => cstr f.1.bytes) (fs.map fun f => Reader.readDynamic f.2.dyn)
    (fs.map fun f => cstr f.1.bytes) []

theorem readDynamic_object (form : Form) (fs : List (Text × Node)) :
    Reader.readDynamic (dyn (.object form fs)) .null = .object (readFields fs) := by
  rw [dyn, Reader.readDynamic, readDynamics_eq_map, dynFields_eq_map, List.map_map, List.map_map,
    List.map_map]
  rfl

/-- With different keys every field is read with its own value. -/
theorem find?_readFields {fs : List (Text × Node)} (hnul : ∀ f ∈ fs, NulFree f.1.bytes)
    (hdiff : (fs.map (·.1.bytes)).Nodup) {f : Text × Node} (hf : f ∈ fs) :
    OrdMap.find? (readFields fs) f.1.bytes = some (Reader.readDynamic f.2.dyn .null) := by
  have hkeys : (fs.map fun g => cstr g.1.bytes) = fs.map (·.1.bytes) :=
    List.map_congr_left fun g hg => cstr_of_nulFree (hnul g hg)
  have hlook : ubjrObjectLookup (fs.map fun g => cstr g.1.bytes)
      (fs.map fun g => Reader.readDynamic g.2.dyn) f.1.bytes
        = some (Reader.readDynamic f.2.dyn) := by
    have h := ubjrObjectLookup_eq
      (m := fs.map fun g => (cstr g.1.bytes, Reader.readDynamic g.2.dyn))
      (by
        rw [List.map_map]
        exact hkeys ▸ hdiff)
      (List.mem_map_of_mem hf)
    rw [List.map_map, List.map_map, cstr_of_nulFree (hnul f hf)] at h
    exact h
  refine find?_readObject hlook rfl (readDynamic_again f.2.dyn) _ [] (.inl ⟨rfl, ?_⟩)
  rw [hkeys]
  exact List.mem_map_of_mem hf

theorem matches_fields {res : Object} : ∀ {fs : List (Text × Node)},
    MatchesFields fs res ↔
      ∀ f ∈ fs, ∃ val, OrdMap.find? res f.1.bytes = some val ∧ Matches f.2 val
  | [] => ⟨fun _ _ hm => absurd hm List.not_mem_nil, fun _ => trivial⟩
  | (k, v) :: fs => by
      rw [MatchesFields, matches_fields, List.forall_mem_cons]
      refine and_congr_left fun _ => ?_
      cases OrdMap.find? res k.bytes with
      | none => exact ⟨False.elim, fun ⟨_, h, _⟩ => Option.some_ne_none _ h.symm⟩
      | some val => exact ⟨fun h => ⟨val, rfl, h⟩, fun ⟨_, h, hm⟩ => Option.some.inj h ▸ hm⟩

theorem matches_object {form : Form} {fs : List (Text × Node)}
    (hdiff : (fs.map (·.1.bytes)).Nodup)
    (ih : ∀ f ∈ fs, (Matches f.2 (Reader.readDynamic f.2.dyn .null) ↔ Intact f.2)) :
    Matches (.object form fs) (Reader.readDynamic (dyn (.object form fs)) .null) ↔
      Intact (.object form fs) := by
  have hread : ∀ p ∈ readFields fs, p.1 ∈ fs.map fun f => cstr f.1.bytes := by
    intro p hp
    rcases mem_readObject hp with hk | ⟨_, hq, _⟩
    · exact hk
    · exact absurd hq List.not_mem_nil
  rw [readDynamic_object]
  constructor
  · rintro ⟨-, hfields⟩
    rw [matches_fields] at hfields
    -- a key with a NUL in it is the key of nothing that is read
    have hnul : ∀ f ∈ fs, NulFree f.1.bytes := by
      intro f hf
      obtain ⟨val, hfind, -⟩ := hfields f hf
      obtain ⟨g, -, hg⟩ := List.mem_map.mp (hread _ (OrdMap.mem_of_find? hfind))
      have he : cstr g.1.bytes = f.1.bytes := hg
      rw [← he]
      exact cstr_nulFree g.1.bytes
    refine ⟨hnul, intactFields_iff.mpr fun f hf => ?_⟩
    obtain ⟨val, hfind, hval⟩ := hfields f hf
    rw [find?_readFields hnul hdiff hf] at hfind
    rw [← ih f hf, Option.some.inj hfind]
    exact hval
  · rintro ⟨hnul, hintact⟩
    refine ⟨fun p hp => ?_, matches_fields.mpr fun f hf => ?_⟩
    · obtain ⟨f, hf, he⟩ := List.mem_map.mp (hread p hp)
      rw [cstr_of_nulFree (hnul f hf)] at he
      exact List.mem_map.mpr ⟨f, hf, he⟩
    · exact ⟨_, find?_readFields hnul hdiff hf, (ih f hf).mpr (intactFields_iff.mp hintact f hf)⟩

/-- **What the C++ layer keeps** of a tree the parser returns. -/
theorem matches_iff (v : Node) : WellFormed v → InStep v →
    (Matches v (Reader.readDynamic v.dyn .null) ↔ Intact v) := by
  refine induct (P := fun v => WellFormed v → InStep v →
    (Matches v (Reader.readDynamic v.dyn .null) ↔ Intact v)) ?_ ?_ ?_ v
  · intro v hv _ _
    exact matches_leaf hv
  · intro form items ih hwf hstep
    have hitems := wellFormedItems_iff.mp hwf.2
    have hsteps := inStepItems_iff.mp hstep.2.2.2
    exact matches_array (fun v hv => (hitems v hv).1) hstep.1
      fun v hv => ih v hv (hitems v hv).2 (hsteps v hv)
  · intro form fs ih hwf hstep
    have hfields := wellFormedFields_iff.mp hwf.2.2
    have hsteps := inStepFields_iff.mp hstep.2
    exact matches_object hwf.2.1 fun f hf => ih f hf (hfields f hf).2 (hsteps f hf)

/-! ## Documents -/

/-- What the reader returns for a document it keeps step with. -/
theorem read_document {v : Node} (hwf : v.WellFormed) (hstep : v.InStep)
    (hlen : v.encode.length < 2 ^ 32) (env : UbjrEnv) (val : Value) {fuel : Nat}
    (hf : v.fuel < fuel) :
    Reader.read env fuel val v.encode
      = .ok (if v.isContainer then (true, Reader.readDynamic v.dyn val) else (false, val)) := by
  obtain ⟨f, rfl⟩ : ∃ f, fuel = f + 1 := ⟨fuel - 1, by omega⟩
  rw [encode, List.length_cons] at hlen
  have hparses : Parses (ubjrReadDynamic env (f + 1)) v.encode v.dyn :=
    Parses.dynamic (typeFromChar_marker v.type_ne.2)
      (parses_payload v hwf hstep (by omega) (by omega))
  obtain ⟨tr, hparse⟩ := hparses [] 0 false
  rw [List.append_nil] at hparse
  have hne : v.encode.isEmpty = false := rfl
  have hroot : Reader.isContainer v.dyn = v.isContainer := by cases v <;> rfl
  unfold Reader.read ubjrOpenMemory
  rw [hne, if_neg Bool.false_ne_true, hparse]
  dsimp only
  rw [hroot]
  cases v.isContainer <;> rfl

/-- What a document is read into does not matter if all of it has a value. -/
theorem readDynamic_intact {v : Node} (hroot : v.isContainer = true) (h : Intact v) (val : Value) :
    Reader.readDynamic v.dyn val = Reader.readDynamic v.dyn .null := by
  cases v with
  | array form items =>
    rw [dyn]
    rcases h with h | ⟨h, -⟩
    · rw [h]
      rfl
    · rw [h]
      rfl
  | object form fields => rfl
  | _ => cases hroot

/-- **The reader loses nothing**, as far as it keeps step with the document and has a value for
every part of it. -/
theorem readWhole_iff {v : Node} (hwf : v.WellFormed) (hlen : v.encode.length < 2 ^ 32) :
    (v.Survives → v.ReadWhole) ∧ (v.InStep → v.ReadWhole → v.Survives) := by
  constructor
  · intro hsurvives env val fuel hf
    cases hroot : v.isContainer with
    | true =>
      obtain ⟨hstep, hintact⟩ := hsurvives hroot
      have hread := read_document hwf hstep hlen env val hf
      rw [hroot] at hread
      refine ⟨_, _, hread, fun _ => ?_⟩
      show Matches v (Reader.readDynamic v.dyn val)
      rw [readDynamic_intact hroot hintact]
      exact (matches_iff v hwf hstep).mpr hintact
    | false =>
      have hstep : v.InStep := by
        cases v with
        | array form items => cases hroot
        | object form fields => cases hroot
        | _ => trivial
      have hread := read_document hwf hstep hlen env val hf
      rw [hroot] at hread
      exact ⟨_, _, hread, fun h => absurd h Bool.false_ne_true⟩
  · intro hstep hwhole hroot
    refine ⟨hstep, (matches_iff v hwf hstep).mp ?_⟩
    obtain ⟨ok, res, hread, hmatches⟩ := hwhole ⟨0, fun _ => 0⟩ .null (v.fuel + 1) (by omega)
    rw [read_document hwf hstep hlen _ _ (by omega), hroot] at hread
    cases hread
    exact hmatches rfl

/-- `{"a": [1, "x"]}`, the array with its size and the string under an unsigned length. -/
theorem readWhole_object : ReadWhole (.object .terminated [(⟨.int8, [0x61], by decide⟩,
    .array (.sized .int8) [.int32 1, .string ⟨.uint8, [0x78], by decide⟩])]) := by
  refine (readWhole_iff ?_ (by decide)).1 fun _ => ⟨?_, ?_⟩
  · exact ⟨trivial, List.nodup_singleton _, .inl rfl,
      ⟨by show 2 < 2 ^ 7; decide, .inl rfl, trivial, .inl rfl, trivial, trivial⟩, trivial⟩
  · exact ⟨.inl rfl, ⟨.inr (List.cons_ne_nil _ _), UbjType.noConfusion, UbjType.noConfusion, trivial,
      trivial, trivial⟩, trivial⟩
  · refine ⟨fun f hf => ?_, .inr ⟨rfl, trivial, by unfold Intact Carried; decide, trivial⟩, trivial⟩
    obtain rfl := List.mem_singleton.mp hf
    decide

/-- `[5]` with the 5 under its unsigned marker is read as `[null]`. -/
theorem not_readWhole_uint8 : WellFormed (.array .terminated [.uint8 5]) ∧
    ¬ ReadWhole (.array .terminated [.uint8 5]) := by
  have hwf : WellFormed (.array .terminated [.uint8 5]) := ⟨trivial, .inl rfl, trivial, trivial⟩
  have hstep : InStep (.array .terminated [.uint8 5]) :=
    ⟨.inl rfl, UbjType.noConfusion, UbjType.noConfusion, trivial, trivial⟩
  refine ⟨hwf, fun hwhole => ?_⟩
  obtain ⟨ok, res, hread, hmatches⟩ := hwhole ⟨0, fun _ => 0⟩ .null 40 (by decide)
  rw [read_document hwf hstep (by decide) _ _ (by decide)] at hread
  cases hread
  obtain ⟨hfive, -⟩ := hmatches rfl
  exact Option.some_ne_none _ (Eq.symm hfive)

end Node

end Zway.Ubj
