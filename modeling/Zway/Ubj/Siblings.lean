import Zway.Ubj.RoundTrip

/-!
# Fields next to a field

The fields of an object share one stream of bytes. A field whose key has a NUL byte is
written under the part before it, which may be the key of another field: the reader then
finds one of the two by binary search, and gives its value to both. A field without a key
is written without the marker of its value, and what comes behind it is read as something
else.
-/

namespace Zway.Ubj

/-! ## Keys as C strings -/

/-- A string without NUL that is below another one is not above its C string. -/
theorem le_cstr : ∀ {x k : Bytes}, NulFree x → x < k → x ≤ cstr k
  | [], _, _, _ => List.nil_le _
  | a :: x, [], _, h => absurd h (List.not_lt_nil _)
  | a :: x, b :: k, hx, h => by
      have ha : a ≠ 0 := hx a (List.mem_cons_self ..)
      have hx' : NulFree x := fun c hc => hx c (List.mem_cons_of_mem _ hc)
      rw [List.cons_lt_cons_iff] at h
      have hb : b ≠ 0 := by
        rintro rfl
        rcases h with h | ⟨h, -⟩
        · exact absurd h (by simp)
        · exact ha h
      have hcons : cstr (b :: k) = b :: cstr k := by
        unfold cstr
        rw [List.takeWhile_cons_of_pos (by simpa using hb)]
      rw [hcons, List.cons_le_cons_iff]
      rcases h with h | ⟨h, hlt⟩
      · exact Or.inl h
      · exact Or.inr ⟨h, le_cstr hx' hlt⟩

theorem cstr_le : ∀ k : Bytes, cstr k ≤ k
  | [] => List.le_refl _
  | b :: k => by
      by_cases hb : b = 0
      · have hnil : cstr (b :: k) = [] := by
          unfold cstr
          rw [List.takeWhile_cons_of_neg (by simpa using hb)]
        rw [hnil]
        exact List.nil_le _
      · have hcons : cstr (b :: k) = b :: cstr k := by
          unfold cstr
          rw [List.takeWhile_cons_of_pos (by simpa using hb)]
        rw [hcons, List.cons_le_cons_iff]
        exact Or.inr ⟨rfl, cstr_le k⟩

/-! ## Writing -/

/-- An object whose fields all have keys is written with the truncated ones. -/
theorem collect_truncated {fields : Object} (hf : Keyed fields) (hd : depthFields fields + 1 ≤ 63) :
    Writer.collect (.object fields) = encode (.object (truncated fields)) := by
  have hbase : UbjwContainer.base.Accepts := ⟨rfl, fun h => absurd h (by decide)⟩
  have hlength : (truncated fields).length = fields.length := List.length_map ..
  show (Writer.writeTagged (.object fields) ubjwOpenCallback).written = _
  rw [Writer.writeTagged]
  unfold ubjwOpenCallback
  rw [ubjwBeginObject_mixed hbase _ (by unfold containerStackMax; simp),
    writeFields_truncated fields hf rfl rfl rfl (by
      unfold containerStackMax; simp only [List.length_cons, List.length_nil]; omega),
    ubjwEnd_object, encode, hlength, ← encodeBody_eq 0x7D fields.length (by
      intro h0
      rw [List.length_eq_zero_iff.mp h0]
      rfl)]
  simp [List.append_assoc]

/-! ## Reading -/

/-- What the reader makes of the fields: one value for each key. -/
def readFields (fields : Object) : Object :=
  Reader.readObject (fields.map Prod.fst) (fields.map fun f => Reader.readDynamic (dynOf f.2))
    (fields.map Prod.fst) []

/-- An object is read as a loop over its keys, in whatever order they are and even if one of them
occurs twice. -/
theorem read_keyed {fields : Object} (hfields : ∀ f ∈ fields, NulFree f.1 ∧ RoundTrip f.2)
    (hlen : (encode (.object fields)).length < 2 ^ 32) (env : UbjrEnv) (val : Value) {fuel : Nat}
    (hf : fuelOf (.object fields) ≤ fuel) :
    Reader.read env fuel val (encode (.object fields)) = .ok (true, .object (readFields fields)) := by
  have hparses : Parses (ubjrReadDynamic env fuel) (encode (.object fields))
      (dynOf (.object fields)) :=
    Parses.encodedObject hlen hf fun hshort hfuel => parses_encodeFields fields hfields hshort hfuel
  obtain ⟨tr, hparse⟩ := hparses [] 0 false
  have hne : (encode (.object fields)).isEmpty = false := by
    rw [encode]
    rfl
  rw [List.append_nil] at hparse
  unfold Reader.read ubjrOpenMemory
  rw [hne, if_neg Bool.false_ne_true, hparse]
  dsimp only
  rw [dynOf, Reader.isContainer, if_pos rfl, Reader.readDynamic, readDynamics_eq_map,
    dynFieldsOf_eq_map, List.map_map, List.map_map, List.map_map]
  rfl

/-! ## Reading the fields -/

/-- Reading a value over itself leaves it. -/
theorem readDynamic_over {v : Value} (hv : RoundTrip v) : Reader.readDynamic (dynOf v) v = v := by
  have hread := readDynamic_dynOf v hv
  cases v with
  | null => rfl
  | bool b => rfl
  | int32 i => exact hread
  | int64 i => exact hread
  | float32 bits => exact hread
  | float64 bits => exact hread
  | string s => exact hread
  | buffer data => exact hread
  | array items => exact hread
  | object fields => exact hread

/-- The value that is read for a key is the one the search finds. -/
theorem find?_readFields {fields : Object} (h : fields.Pairwise (fun a b => a.1 ≤ b.1))
    {key : Bytes} {u : Value} (hu : RoundTrip u) (hmem : key ∈ fields.map Prod.fst)
    (hlook : ubjrObjectLookup (fields.map Prod.fst) (fields.map Prod.snd) key = some u) :
    OrdMap.find? (readFields fields) key = some u := by
  have hread : ubjrObjectLookup (fields.map Prod.fst)
      (fields.map fun f => Reader.readDynamic (dynOf f.2)) key
        = some (Reader.readDynamic (dynOf u)) := by
    rw [lookup_map h fun v => Reader.readDynamic (dynOf v), hlook]
    rfl
  exact find?_readObject hread (readDynamic_dynOf u hu) (readDynamic_over hu) _ []
    (Or.inl ⟨rfl, hmem⟩)

/-! ## A field that is added -/

theorem depthFields_le {n : Nat} : ∀ {fs : Object}, depthFields fs ≤ n ↔ ∀ f ∈ fs, depth f.2 ≤ n
  | [] => ⟨fun _ _ hm => absurd hm List.not_mem_nil, fun _ => Nat.zero_le n⟩
  | (k, v) :: fs => by
      rw [depthFields, Nat.max_le, depthFields_le, List.forall_mem_cons]

theorem fuelOfFields_truncated : ∀ fs : Object, fuelOfFields (truncated fs) = fuelOfFields fs
  | [] => rfl
  | (k, v) :: fs => by
      have ih := fuelOfFields_truncated fs
      show fuelOfFields ((cstr k, v) :: truncated fs) = _
      rw [fuelOfFields, fuelOfFields, ih]

/-- Where the key goes among those of the object: a NUL in it does not move it. -/
theorem truncated_insert {o : Object} {k : Bytes} (ho : OrdMap.Sorted o)
    (hkeys : ∀ f ∈ o, NulFree f.1) (hk : OrdMap.find? o k = none) (w : Value) :
    ∃ before behind, o = before ++ behind ∧
      truncated (OrdMap.insert k w o) = before ++ (cstr k, w) :: behind ∧
      (∀ p ∈ before, p.1 ≤ cstr k) ∧ ∀ p ∈ behind, cstr k < p.1 := by
  obtain ⟨before, behind, hsplit, hinsert, hbefore, hbehind⟩ :=
    OrdMap.insert_split ho (OrdMap.ne_of_find?_none hk) w
  have hkept : truncated o = o := truncated_of_nulFree hkeys
  refine ⟨before, behind, hsplit, ?_, ?_, ?_⟩
  · have hb : truncated before = before :=
      truncated_of_nulFree fun f hf => hkeys f (hsplit ▸ List.mem_append_left _ hf)
    have ha : truncated behind = behind :=
      truncated_of_nulFree fun f hf => hkeys f (hsplit ▸ List.mem_append_right _ hf)
    rw [hinsert]
    unfold truncated at hb ha ⊢
    rw [List.map_append, List.map_cons, hb, ha]
  · intro p hp
    exact le_cstr (hkeys p (hsplit ▸ List.mem_append_left _ hp)) (hbefore p hp)
  · intro p hp
    exact List.lt_of_le_of_lt (cstr_le k) (hbehind p hp)

/-- Around a field of a map its key does not occur. -/
theorem sorted_around {before behind : Object} {key : Bytes} {v : Value}
    (h : OrdMap.Sorted (before ++ (key, v) :: behind)) :
    (∀ p ∈ before, p.1 < key) ∧ ∀ p ∈ behind, key < p.1 := by
  obtain ⟨-, hright, hacross⟩ := List.pairwise_append.mp h
  exact ⟨fun p hp => hacross p hp (key, v) (List.mem_cons_self ..),
    fun p hp => (List.pairwise_cons.mp hright).1 p hp⟩

/-- The search for a field goes past a field that is put elsewhere. -/
theorem lookup_beside {before behind : Object} {c key : Bytes} {v w : Value}
    (h : (before ++ (c, w) :: behind).Pairwise (fun a b => a.1 ≤ b.1))
    (ho : OrdMap.Sorted (before ++ behind)) (hmem : (key, v) ∈ before ++ behind) (hne : c ≠ key) :
    ubjrObjectLookup ((before ++ (c, w) :: behind).map Prod.fst)
      ((before ++ (c, w) :: behind).map Prod.snd) key = some v := by
  have hbelow : ∀ {p : Bytes × Value}, p.1 < key → p.1 ≠ key :=
    fun hlt he => irrefl key (he ▸ hlt)
  have habove : ∀ {p : Bytes × Value}, key < p.1 → p.1 ≠ key :=
    fun hlt he => irrefl key (he ▸ hlt)
  rcases List.mem_append.mp hmem with hm | hm
  · obtain ⟨s, t, rfl⟩ := List.append_of_mem hm
    rw [List.append_assoc, List.cons_append] at h ho ⊢
    obtain ⟨hs, ht⟩ := sorted_around ho
    refine lookup_unique h (fun p hp => hbelow (hs p hp)) (fun p hp => ?_)
    rcases List.mem_append.mp hp with hp | hp
    · exact habove (ht p (List.mem_append_left _ hp))
    · rcases List.mem_cons.mp hp with rfl | hp
      · exact hne
      · exact habove (ht p (List.mem_append_right _ hp))
  · obtain ⟨s, t, rfl⟩ := List.append_of_mem hm
    rw [← List.append_assoc] at ho
    rw [show before ++ (c, w) :: (s ++ (key, v) :: t) = (before ++ (c, w) :: s) ++ (key, v) :: t by
      rw [List.append_assoc, List.cons_append]] at h ⊢
    obtain ⟨hs, ht⟩ := sorted_around ho
    refine lookup_unique h (fun p hp => ?_) (fun p hp => habove (ht p hp))
    rcases List.mem_append.mp hp with hp | hp
    · exact hbelow (hs p (List.mem_append_left _ hp))
    · rcases List.mem_cons.mp hp with rfl | hp
      · exact hne
      · exact hbelow (hs p (List.mem_append_right _ hp))

/-- A field of the object under the C string of the new key stands right before the new one. -/
theorem twin_before {before behind b bh : Object} {c : Bytes} {v : Value}
    (hsplit : before ++ behind = b ++ (c, v) :: bh) (ho : OrdMap.Sorted (b ++ (c, v) :: bh))
    (hbefore : ∀ p ∈ before, p.1 ≤ c) (hbehind : ∀ p ∈ behind, c < p.1) :
    before = b ++ [(c, v)] ∧ behind = bh := by
  obtain ⟨-, hbh⟩ := sorted_around ho
  rcases List.append_eq_append_iff.mp hsplit with ⟨front, hb, hrest⟩ | ⟨front, hb, hrest⟩
  · have hmem : (c, v) ∈ behind := by
      rw [hrest]
      exact List.mem_append_right _ (List.mem_cons_self ..)
    exact absurd (hbehind _ hmem) (irrefl c)
  · cases front with
    | nil =>
      have hmem : (c, v) ∈ behind := by
        rw [show behind = (c, v) :: bh from hrest.symm]
        exact List.mem_cons_self ..
      exact absurd (hbehind _ hmem) (irrefl c)
    | cons q front =>
      rw [List.cons_append] at hrest
      obtain ⟨rfl, hbhs⟩ := List.cons.inj hrest
      cases front with
      | nil => exact ⟨hb, hbhs.symm⟩
      | cons r front =>
        have hlow : r.1 ≤ c := hbefore r (by rw [hb]; simp)
        exact absurd (hbh r (by rw [hbhs]; simp)) hlow

/-- When a new field leaves the others alone: it has a key, and if the part of the key before its
first NUL is the key of another field, that one has the same value or is met first by the search
through the fields. -/
def Undisturbed (o : Object) (k : Bytes) (w : Value) : Prop :=
  k ≠ [] ∧ ∀ before v behind, o = before ++ (cstr k, v) :: behind →
    v = w ∨ bsearch (twinOrder before.length) (o.length + 1) = some before.length

/-- The object is read again with the new field, and every other field has its value. -/
def SiblingsKept (env : UbjrEnv) (fuel : Nat) (val : Value) (o : Object) (k : Bytes) (w : Value) :
    Prop :=
  ∃ res, Reader.read env fuel val (Writer.write (.object (OrdMap.insert k w o)))
      = .ok (true, .object res) ∧
    ∀ key v, OrdMap.find? o key = some v → OrdMap.find? res key = some v

section Inserted

variable {env : UbjrEnv} {fuel : Nat} {val : Value} {o : Object} {k : Bytes} {w : Value}

theorem mem_inserted (ho : RoundTripFields o) (hw : RoundTrip w) (hk : k ≠ []) :
    Keyed (OrdMap.insert k w o) := by
  intro f hf
  rcases OrdMap.mem_insert hf with rfl | hf
  · exact ⟨hk, hw⟩
  · obtain ⟨hcarried, hv⟩ := mem_roundTripFields ho f hf
    exact ⟨hcarried.1, hv⟩

theorem depth_inserted (ho : depthFields o ≤ 61) (hw : depth w ≤ 62) :
    depthFields (OrdMap.insert k w o) + 1 ≤ 63 := by
  refine Nat.succ_le_succ (depthFields_le.mpr fun f hf => ?_)
  rcases OrdMap.mem_insert hf with rfl | hf
  · exact hw
  · exact Nat.le_succ_of_le (depthFields_le.mp ho f hf)

/-- With a key, the object is read as a loop over its truncated keys. -/
theorem read_inserted (ho : RoundTrip (.object o)) (hod : depth (.object o) ≤ 62)
    (hw : RoundTrip w) (hwd : depth w ≤ 62) (hk : k ≠ [])
    (hlen : (Writer.collect (.object (OrdMap.insert k w o))).length < 2 ^ 32)
    (hf : fuelOf (.object (OrdMap.insert k w o)) ≤ fuel) :
    Reader.read env fuel val (Writer.write (.object (OrdMap.insert k w o)))
      = .ok (true, .object (readFields (truncated (OrdMap.insert k w o)))) := by
  cases ho with
  | object hs hfields =>
    rw [depth] at hod
    have hkeyed : Keyed (OrdMap.insert k w o) := mem_inserted hfields hw hk
    have hwrite : Writer.write (.object (OrdMap.insert k w o))
        = encode (.object (truncated (OrdMap.insert k w o))) := by
      rw [Writer.write, Nat.mod_eq_of_lt hlen, List.take_length]
      exact collect_truncated hkeyed (depth_inserted (by omega) hwd)
    have hlength : (encode (.object (truncated (OrdMap.insert k w o)))).length < 2 ^ 32 := by
      rw [← collect_truncated hkeyed (depth_inserted (by omega) hwd)]
      exact hlen
    rw [hwrite]
    refine read_keyed (fun f hf => ?_) hlength env val ?_
    · obtain ⟨p, hp, rfl⟩ := List.mem_map.mp hf
      exact ⟨cstr_nulFree p.1, (hkeyed p hp).2⟩
    · rw [fuelOf] at hf ⊢
      rwa [fuelOfFields_truncated]

/-- The truncated key stands among the others in their order. -/
theorem pairwise_inserted {before behind : Object} {c : Bytes}
    (ho : OrdMap.Sorted (before ++ behind)) (hbefore : ∀ p ∈ before, p.1 ≤ c)
    (hbehind : ∀ p ∈ behind, c < p.1) :
    (before ++ (c, w) :: behind).Pairwise (fun a b => a.1 ≤ b.1) := by
  obtain ⟨hleft, hright, hacross⟩ := List.pairwise_append.mp ho
  refine List.pairwise_append.mpr ⟨hleft.imp List.le_of_lt, List.pairwise_cons.mpr
    ⟨fun p hp => List.le_of_lt (hbehind p hp), hright.imp List.le_of_lt⟩, fun p hp q hq => ?_⟩
  rcases List.mem_cons.mp hq with rfl | hq
  · exact hbefore p hp
  · exact List.le_of_lt (hacross p hp q hq)

/-- A field under another key than the truncated one is read with its value. -/
theorem find?_readFields_other (ho : RoundTrip (.object o)) (hk : OrdMap.find? o k = none)
    {key : Bytes} {v : Value} (hne : cstr k ≠ key) (hfind : OrdMap.find? o key = some v) :
    OrdMap.find? (readFields (truncated (OrdMap.insert k w o))) key = some v := by
  cases ho with
  | object hs hfields =>
    have hcarried := mem_roundTripFields hfields
    have hmem : (key, v) ∈ o := OrdMap.mem_of_find? hfind
    obtain ⟨before, behind, rfl, htrunc, hbefore, hbehind⟩ :=
      truncated_insert hs (fun f hf => (hcarried f hf).1.2) hk w
    have hle := pairwise_inserted (w := w) hs hbefore hbehind
    rw [htrunc]
    refine find?_readFields hle (hcarried _ hmem).2 ?_ (lookup_beside hle hs hmem hne)
    rw [List.map_append, List.map_cons]
    rcases List.mem_append.mp hmem with hm | hm
    · exact List.mem_append_left _ (List.mem_map.mpr ⟨_, hm, rfl⟩)
    · exact List.mem_append_right _ (List.mem_cons_of_mem _ (List.mem_map.mpr ⟨_, hm, rfl⟩))

/-- Under the truncated key the reader finds one of the two values. -/
theorem find?_readFields_twin (ho : RoundTrip (.object o)) (hw : RoundTrip w)
    (hk : OrdMap.find? o k = none) {b bh : Object} {v : Value}
    (hsplit : o = b ++ (cstr k, v) :: bh) :
    OrdMap.find? (readFields (truncated (OrdMap.insert k w o))) (cstr k)
      = if bsearch (twinOrder b.length) (o.length + 1) = some b.length then some v else some w := by
  cases ho with
  | object hs hfields =>
    have hcarried := mem_roundTripFields hfields
    have hv : RoundTrip v := (hcarried (cstr k, v) (by rw [hsplit]; simp)).2
    have hlength : o.length + 1 = b.length + bh.length + 2 := by
      rw [hsplit, List.length_append, List.length_cons]
      omega
    obtain ⟨before, behind, hcut, htrunc, hbefore, hbehind⟩ :=
      truncated_insert hs (fun f hf => (hcarried f hf).1.2) hk w
    have hle := pairwise_inserted (w := w) (hcut ▸ hs) hbefore hbehind
    rw [hsplit] at hs
    obtain ⟨rfl, rfl⟩ := twin_before (hcut.symm.trans hsplit) hs hbefore hbehind
    obtain ⟨hlow, hhigh⟩ := sorted_around hs
    rw [List.append_assoc, List.singleton_append] at htrunc hle
    have hlook := lookup_twins hle (fun p hp he => irrefl (cstr k) (he ▸ hlow p hp))
      (fun p hp he => irrefl (cstr k) (he ▸ hhigh p hp))
    rw [htrunc, hlength]
    by_cases hfirst : bsearch (twinOrder b.length) (b.length + behind.length + 2) = some b.length
    · rw [if_pos hfirst] at hlook ⊢
      exact find?_readFields hle hv (by simp) hlook
    · rw [if_neg hfirst] at hlook ⊢
      exact find?_readFields hle hw (by simp) hlook

/-- **A field next to the others.** A new field that has a key leaves the others as they are if and
only if the reader does not mistake it for one of them. -/
theorem siblingsKept_iff (env : UbjrEnv) (val : Value) (ho : RoundTrip (.object o))
    (hod : depth (.object o) ≤ 62) (hw : RoundTrip w) (hwd : depth w ≤ 62)
    (hk : OrdMap.find? o k = none)
    (hlen : (Writer.collect (.object (OrdMap.insert k w o))).length < 2 ^ 32)
    (hf : fuelOf (.object (OrdMap.insert k w o)) ≤ fuel) :
    (Undisturbed o k w → SiblingsKept env fuel val o k w) ∧
      (k ≠ [] → SiblingsKept env fuel val o k w → Undisturbed o k w) := by
  constructor
  · rintro ⟨hne, hfirst⟩
    refine ⟨_, read_inserted ho hod hw hwd hne hlen hf, fun key v hfind => ?_⟩
    by_cases hkey : cstr k = key
    · subst hkey
      obtain ⟨b, bh, hsplit⟩ := List.append_of_mem (OrdMap.mem_of_find? hfind)
      rw [find?_readFields_twin ho hw hk hsplit]
      rcases hfirst b v bh hsplit with rfl | hfirst
      · exact ite_self _
      · exact if_pos hfirst
    · exact find?_readFields_other ho hk hkey hfind
  · intro hne hkept
    obtain ⟨res, hread, hfind⟩ := hkept
    rw [read_inserted ho hod hw hwd hne hlen hf] at hread
    obtain rfl : readFields (truncated (OrdMap.insert k w o)) = res := by
      cases hread
      rfl
    refine ⟨hne, fun b v bh hsplit => ?_⟩
    have hbound : OrdMap.find? o (cstr k) = some v := by
      cases ho with
      | object hs _ => exact OrdMap.find?_of_mem hs (p := (cstr k, v)) (by rw [hsplit]; simp)
    have hgot := hfind (cstr k) v hbound
    rw [find?_readFields_twin ho hw hk hsplit] at hgot
    by_cases hfirst : bsearch (twinOrder b.length) (o.length + 1) = some b.length
    · exact Or.inr hfirst
    · rw [if_neg hfirst] at hgot
      exact Or.inl (Option.some.inj hgot).symm

end Inserted

/-- `{"a": 1}` with a string under `"b"`. -/
theorem siblingsKept_string :
    SiblingsKept ⟨0x23, fun _ => 0⟩ 44 .null [([0x61], .int32 1)] [0x62] (.string [0x78]) := by
  refine (siblingsKept_iff _ _ (.object (by decide) ?_) (by decide) (.string ?_) (by decide)
    rfl (by decide) (by decide)).1 ⟨by decide, fun before v behind hsplit => ?_⟩
  · exact .cons (by unfold Carried; decide) (.int32 1) .nil
  · unfold Carried
    decide
  · have hmem : (cstr [0x62], v) ∈ [(([0x61] : Bytes), Value.int32 1)] := by
      rw [hsplit]
      simp
    have hkey : cstr [0x62] = [0x61] := congrArg Prod.fst (List.mem_singleton.mp hmem)
    exact absurd hkey (by decide)

/-- `{"a": 1}` loses its field to one without a key, and has it overwritten by one under `"a\0"`. -/
theorem not_siblingsKept :
    RoundTrip (.object [([0x61], .int32 1)]) ∧
      OrdMap.find? [(([0x61] : Bytes), Value.int32 1)] [] = none ∧
      ¬ SiblingsKept ⟨0x23, fun _ => 0⟩ 44 .null [([0x61], .int32 1)] [] (.int32 5) ∧
      OrdMap.find? [(([0x61] : Bytes), Value.int32 1)] [0x61, 0] = none ∧
      ¬ SiblingsKept ⟨0x23, fun _ => 0⟩ 44 .null [([0x61], .int32 1)] [0x61, 0] (.int32 5) := by
  have hread : ∀ k : Bytes, k = [] ∨ k = [0x61, 0] →
      (match Reader.read ⟨0x23, fun _ => 0⟩ 44 .null
        (Writer.write (.object (OrdMap.insert k (.int32 5) [([0x61], .int32 1)]))) with
        | .ok (_, v) => ((OrdMap.find? v.toObject [0x61]).map Value.toInt).getD 0
        | .error _ => 0) ≠ 1 := by
    rintro k (rfl | rfl) <;> decide +kernel
  have hlost : ∀ k : Bytes, k = [] ∨ k = [0x61, 0] →
      ¬ SiblingsKept ⟨0x23, fun _ => 0⟩ 44 .null [([0x61], .int32 1)] k (.int32 5) := by
    intro k hk ⟨res, hgot, hkept⟩
    refine hread k hk ?_
    rw [hgot]
    show ((OrdMap.find? res [0x61]).map Value.toInt).getD 0 = 1
    rw [hkept [0x61] (.int32 1) rfl]
    rfl
  exact ⟨.object (by decide) (.cons (by unfold Carried; decide) (.int32 1) .nil), rfl,
    hlost _ (Or.inl rfl), rfl, hlost _ (Or.inr rfl)⟩

end Zway.Ubj
