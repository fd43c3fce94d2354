import Zway.Ubj.WriterProof
import Zway.Ubj.ReaderProof
import Zway.Ubj.Lookup

/-!
# The round trip

The parse tree of an encoding becomes the value again, and with it the document
that was written is the document that is read.

The only step with content is the object: `Reader::readObject` looks every key up
by binary search in a sorted copy of the fields, and inserts what it finds into a
map. Both agree with the fields of the written map because those are sorted.
-/

namespace Zway.Ubj

/-- A float that is not a NaN survives the detour through `double`. -/
theorem floatViaDouble_eq {bits : BitVec 32} (h : isNaN32 bits = false) :
    floatViaDouble bits = bits := by
  unfold floatViaDouble
  unfold isNaN32 at h
  rw [h]
  rfl

/-- A byte survives being read as a signed one. -/
theorem int8Byte_eq (b : UInt8) :
    Reader.int8Byte (.integer .int8 (BitVec.ofNat 8 b.toNat).toInt) = b := by
  have hb := b.toNat_lt
  have hmod : (b.toNat : Int).bmod (2 ^ 8) % 256 = (b.toNat : Int) % 256 := Int.bmod_emod
  have hn : ((BitVec.ofNat 8 b.toNat).toInt % 256).toNat = b.toNat := by
    rw [BitVec.toInt_ofNat', hmod]
    omega
  rw [Reader.int8Byte, hn]
  simp

/-! ## The parse tree as maps over the fields -/

theorem dynFieldsOf_eq_map : ∀ (fs : List (Bytes × Value)),
    dynFieldsOf fs = fs.map (fun f => (f.1, dynOf f.2))
  | [] => rfl
  | (k, v) :: fs => by rw [dynFieldsOf, List.map_cons, dynFieldsOf_eq_map fs]

theorem readDynamics_eq_map : ∀ (ds : List UbjrDynamic),
    Reader.readDynamics ds = ds.map Reader.readDynamic
  | [] => rfl
  | d :: ds => by rw [Reader.readDynamics, List.map_cons, readDynamics_eq_map ds]

/-- The loop of `Reader::readObject` rebuilds a sorted map: the fields `todo` go behind those that
are `done`. A null field is read as whatever was there, which is nothing as the key is new. -/
theorem readObject_eq {fields : Object} (hs : OrdMap.Sorted fields) {g : Value → Value → Value}
    (hg : ∀ f ∈ fields, g f.2 .null = f.2) :
    ∀ (done todo : Object), done ++ todo = fields →
      Reader.readObject (fields.map Prod.fst) (fields.map (fun f => g f.2)) (todo.map Prod.fst) done
        = fields
  | done, [], h => by
      rw [List.append_nil] at h
      exact h
  | done, (k, v) :: todo, h => by
      have hmem : (k, v) ∈ fields := by rw [← h]; simp
      have hlook : ubjrObjectLookup (fields.map Prod.fst) (fields.map (fun f => g f.2)) k
          = some (g v) := by
        have hsm : OrdMap.Sorted (fields.map (fun f => (f.1, g f.2))) := List.pairwise_map.mpr hs
        have := ubjrObjectLookup_eq hsm.nodup (List.mem_map.mpr ⟨(k, v), hmem, rfl⟩)
        rwa [List.map_map, List.map_map] at this
      have hlast : ∀ p ∈ done, p.1 < k := by
        intro p hp
        rw [← h] at hs
        exact (List.pairwise_append.mp hs).2.2 p hp (k, v) (List.mem_cons_self ..)
      have hnew : OrdMap.find? done k = none :=
        OrdMap.find?_eq_none (fun p hp he => irrefl k (he ▸ hlast p hp))
      have hnext : (done ++ [(k, v)]) ++ todo = fields := by rw [← h]; simp
      have ih := readObject_eq hs hg (done ++ [(k, v)]) todo hnext
      have hv : g v .null = v := hg (k, v) hmem
      rw [List.map_cons, Reader.readObject, hlook, hnew]
      dsimp only [Option.getD_none]
      rw [hv, OrdMap.insert_of_lt v hlast]
      exact ih

mutual

/-- The parse tree of a value is read back as the value. -/
theorem readDynamic_dynOf : ∀ (v : Value), RoundTrip v → Reader.readDynamic (dynOf v) .null = v
  | .null, _ => rfl
  | .bool b, _ => rfl
  | .int32 i, _ => by rw [dynOf, Reader.readDynamic, BitVec.ofInt_toInt]
  | .int64 i, _ => by rw [dynOf, Reader.readDynamic, BitVec.ofInt_toInt]
  | .float32 bits, hv => by
      cases hv with
      | float32 h => rw [dynOf, Reader.readDynamic, floatViaDouble_eq h]
  | .float64 bits, _ => rfl
  | .string s, hv => by
      cases hv with
      | string hs =>
        have hne : s.isEmpty = false := by simpa using hs.1
        rw [dynOf, Reader.readDynamic, Value.ofString, hne]
        rfl
  | .buffer data, _ => by
      have hmap : (data.map (fun b =>
          UbjrDynamic.integer .int8 (BitVec.ofNat 8 b.toNat).toInt)).map Reader.int8Byte = data := by
        rw [List.map_map]
        exact List.map_id'' int8Byte_eq data
      rw [dynOf, Reader.readDynamic, hmap]
  | .array items, hv => by
      cases hv with
      | array hitems =>
        rw [dynOf, Reader.readDynamic, readDynamics_dynsOf items hitems]
  | .object fields, hv => by
      cases hv with
      | object hs hfields =>
        rw [dynOf, Reader.readDynamic, readDynamics_eq_map, dynFieldsOf_eq_map, List.map_map,
          List.map_map, List.map_map]
        exact congrArg Value.object (readObject_eq hs (g := fun v => Reader.readDynamic (dynOf v))
          (readDynamic_dynOfFields fields hfields) [] fields rfl)

theorem readDynamics_dynsOf : ∀ (vs : List Value), RoundTripItems vs →
    (Reader.readDynamics (dynsOf vs)).map (fun read => read .null) = vs
  | [], _ => rfl
  | v :: vs, hv => by
      cases hv with
      | cons hv hvs =>
        rw [dynsOf, Reader.readDynamics, List.map_cons, readDynamic_dynOf v hv,
          readDynamics_dynsOf vs hvs]

theorem readDynamic_dynOfFields : ∀ (fs : List (Bytes × Value)), RoundTripFields fs →
    ∀ f ∈ fs, Reader.readDynamic (dynOf f.2) .null = f.2
  | [], _, _, hm => absurd hm (by simp)
  | (k, v) :: fs, hf, f, hm => by
      cases hf with
      | cons _ hv hfs =>
        rcases List.mem_cons.mp hm with rfl | hm
        · exact readDynamic_dynOf v hv
        · exact readDynamic_dynOfFields fs hfs f hm

end

/-! ## Documents -/

/-- What a document was read into does not matter. -/
theorem readDynamic_container {v : Value} (hv : v.isContainer = true) (val : Value) :
    Reader.readDynamic (dynOf v) val = Reader.readDynamic (dynOf v) .null := by
  cases v with
  | buffer _ => rfl
  | array _ => rfl
  | object _ => rfl
  | _ => exact absurd hv (by simp [Value.isContainer])

theorem dynOf_isContainer {v : Value} (hv : v.isContainer = true) :
    Reader.isContainer (dynOf v) = true := by
  cases v with
  | buffer _ => rfl
  | array _ => rfl
  | object _ => rfl
  | _ => exact absurd hv (by simp [Value.isContainer])

/-- Reading what stands for a document, whatever comes behind it. -/
theorem read_encode {v : Value} (hv : RoundTrip v) (hroot : v.isContainer = true)
    (hlen : (encode v).length < 2 ^ 32) (env : UbjrEnv) (val : Value) (rest : Bytes) {fuel : Nat}
    (hf : fuelOf v ≤ fuel) : Reader.read env fuel val (encode v ++ rest) = .ok (true, v) := by
  have hparses : Parses (ubjrReadDynamic env fuel) (encode v) (dynOf v) :=
    parses_encode v hv hlen hf
  obtain ⟨tr, hparse⟩ := hparses rest 0 false
  have hpos := encode_length_pos v
  have hne : (encode v ++ rest).isEmpty = false := by
    rw [List.isEmpty_eq_false_iff_exists_mem]
    obtain ⟨b, hb⟩ := List.exists_mem_of_length_pos hpos
    exact ⟨b, List.mem_append_left _ hb⟩
  unfold Reader.read ubjrOpenMemory
  rw [hne, if_neg (by simp), hparse]
  dsimp only
  rw [dynOf_isContainer hroot, if_pos rfl, readDynamic_container hroot, readDynamic_dynOf v hv]

/-- What `Writer::write` returns is the encoding, as long as its length fits a `uint32_t`. -/
theorem write_eq_encode {v : Value} (hv : RoundTrip v) (hroot : v.isContainer = true)
    (hd : depth v ≤ 63) (hlen : (Writer.collect v).length < 2 ^ 32) :
    Writer.write v = encode v ∧ (encode v).length < 2 ^ 32 := by
  have hcollect : Writer.collect v = encode v :=
    collect_eq_encode hv hroot (by unfold containerStackMax; omega)
  rw [hcollect] at hlen
  refine ⟨?_, hlen⟩
  rw [Writer.write, hcollect, Nat.mod_eq_of_lt hlen, List.take_length]

/-- **UBJ round trip.** What `Writer::write` makes of a document in the round-trip class is read
back as that document, for every content of the memory behind it and every value that is assigned
to. The parser needs no more recursion than `fuelOf`. -/
theorem read_write {v : Value} (hv : RoundTrip v) (hroot : v.isContainer = true)
    (hd : depth v ≤ 63) (hlen : (Writer.collect v).length < 2 ^ 32) (env : UbjrEnv) (val : Value)
    {fuel : Nat} (hf : fuelOf v ≤ fuel) :
    Reader.read env fuel val (Writer.write v) = .ok (true, v) := by
  obtain ⟨hwrite, hshort⟩ := write_eq_encode hv hroot hd hlen
  have hread := read_encode hv hroot hshort env val [] hf
  rw [List.append_nil] at hread
  rw [hwrite]
  exact hread

/-- `{"a": [null, 5, <01 02>], "b": "x"}`. -/
theorem read_write_object :
    Reader.read ⟨0x23, fun _ => 0⟩ 80 .null
        (Writer.write (.object [([0x61], .array [.null, .int32 5, .buffer [1, 2]]),
          ([0x62], .string [0x78])]))
      = .ok (true, .object [([0x61], .array [.null, .int32 5, .buffer [1, 2]]),
          ([0x62], .string [0x78])]) := by
  refine read_write (.object (by decide) ?_) rfl (by decide) (by decide) _ _ (by decide)
  refine .cons (by unfold Carried; decide) (.array ?_)
    (.cons (by unfold Carried; decide) (.string (by unfold Carried; decide)) .nil)
  exact .cons .null (.cons (.int32 5) (.cons (.buffer (by decide)) .nil))

end Zway.Ubj
