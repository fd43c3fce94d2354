import Zway.Ubj.Terminated
import Zway.Ubj.DocumentRead

/-!
# What was read is written and read again

A client stores what it receives: a value that came out of `Reader::read` goes into
`Writer::write`, and comes out of `Reader::read` once more. The reader accepts much that the
writer never writes, but whatever the bytes were, there are only few shapes the value can
have: `settled_of_read`. Of these, `reread_received` says which ones come out as they went in.
-/

namespace Zway.Ubj

/-! ## What the parser returns -/

mutual

/-- Texts and keys stop at their first NUL. -/
def UbjrDynamic.Clean : UbjrDynamic → Prop
  | .text _ s => NulFree s
  | .array _ values => CleanAll values
  | .object _ keys values => (∀ k ∈ keys, NulFree k) ∧ CleanAll values
  | _ => True

def CleanAll : List UbjrDynamic → Prop
  | [] => True
  | d :: ds => d.Clean ∧ CleanAll ds

end

/-- Every result of the parser has the property. -/
def Yields {α : Type} (m : UbjrM α) (P : α → Prop) : Prop :=
  ∀ (ctx : UbjrContext) (a : α) (ctx' : UbjrContext), m ctx = .ok (a, ctx') → P a

section

variable {α β : Type} {m : UbjrM α} {P : α → Prop} {Q : β → Prop}

theorem Yields.pure {a : α} (h : P a) : Yields (Pure.pure a : UbjrM α) P := by
  intro ctx b ctx' hrun
  cases hrun
  exact h

theorem Yields.fail (e : UbjrFault) : Yields (throw e : UbjrM α) P := by
  intro ctx a ctx' hrun
  cases hrun

theorem Yields.bind {f : α → UbjrM β} (hm : Yields m P) (hf : ∀ a, P a → Yields (f a) Q) :
    Yields (m >>= f) Q := by
  intro ctx b ctx' hrun
  have hrun' : (m ctx >>= fun q => f q.1 q.2) = .ok (b, ctx') := hrun
  cases hfirst : m ctx with
  | error e =>
    rw [hfirst] at hrun'
    cases hrun'
  | ok q =>
    rw [hfirst] at hrun'
    exact hf q.1 (hm ctx q.1 q.2 hfirst) q.2 b ctx' hrun'

/-- Where the first result does not matter. -/
theorem Yields.after {f : α → UbjrM β} (hf : ∀ a, Yields (f a) Q) : Yields (m >>= f) Q :=
  Yields.bind (P := fun _ => True) (fun _ _ _ _ => trivial) (fun a _ => hf a)

theorem Yields.ite {m₁ m₂ : UbjrM α} {c : Prop} [Decidable c] (h₁ : Yields m₁ P)
    (h₂ : Yields m₂ P) : Yields (if c then m₁ else m₂) P := by
  split
  · exact h₁
  · exact h₂

end

theorem clean_fixed (typ : UbjType) (n : Nat) : (fixedToDynamic typ n).Clean := by
  cases typ <;> exact trivial

theorem cleanAll_block (typ : UbjType) (sz : Nat) : ∀ (count : Nat) (block : Bytes),
    CleanAll (readBlock typ sz count block)
  | 0, _ => trivial
  | count + 1, _ => ⟨clean_fixed typ _, cleanAll_block typ sz count _⟩

theorem cleanAll_replicate (typ : UbjType) : ∀ size : Nat,
    CleanAll (List.replicate size (.other typ))
  | 0 => trivial
  | size + 1 => ⟨trivial, cleanAll_replicate typ size⟩

theorem cleanAll_fields : ∀ {fields : List (Bytes × UbjrDynamic)},
    (∀ f ∈ fields, NulFree f.1 ∧ f.2.Clean) → CleanAll (fields.map Prod.snd)
  | [], _ => trivial
  | _ :: _, h => ⟨(h _ List.mem_cons_self).2,
      cleanAll_fields (fun f hf => h f (List.mem_cons_of_mem _ hf))⟩

variable {env : UbjrEnv} {fuel : Nat}

theorem yields_readText (typ : UbjType) (n : Int) :
    Yields (readText env typ n) UbjrDynamic.Clean := by
  unfold readText
  refine Yields.ite (Yields.fail _) (Yields.after fun s => Yields.pure ?_)
  exact cstr_nulFree s

/-- The results of the functions that build values, with some fuel. -/
structure CleanAt (env : UbjrEnv) (fuel : Nat) : Prop where
  dynamic : Yields (ubjrReadDynamic env fuel) UbjrDynamic.Clean
  toPtr : ∀ typ, Yields (privUbjrReadToPtr env fuel typ) UbjrDynamic.Clean
  arrayValues : ∀ typ size, Yields (readArrayValues env fuel typ size) CleanAll
  rawArray : Yields (privUbjrReadRawArray env fuel) UbjrDynamic.Clean
  objectFields : ∀ typ size, Yields (readObjectFields env fuel typ size)
    (fun fields => ∀ f ∈ fields, NulFree f.1 ∧ f.2.Clean)
  rawObject : Yields (privUbjrReadRawObject env fuel) UbjrDynamic.Clean
  untl : ∀ close typ, Yields (readUntil env fuel close typ) CleanAll
  count : ∀ count typ, Yields (readCount env fuel count typ) CleanAll
  key : Yields (readKey env fuel) NulFree
  fieldsUntil : ∀ typ, Yields (readFieldsUntil env fuel typ)
    (fun fields => ∀ f ∈ fields, NulFree f.1 ∧ f.2.Clean)
  fieldsCount : ∀ count typ, Yields (readFieldsCount env fuel count typ)
    (fun fields => ∀ f ∈ fields, NulFree f.1 ∧ f.2.Clean)

theorem cleanAt_zero : CleanAt env 0 where
  dynamic := Yields.fail _
  toPtr _ := Yields.fail _
  arrayValues _ _ := Yields.fail _
  rawArray := Yields.fail _
  objectFields _ _ := Yields.fail _
  rawObject := Yields.fail _
  untl _ _ := Yields.fail _
  count _ _ := Yields.fail _
  key := Yields.fail _
  fieldsUntil _ := Yields.fail _
  fieldsCount _ _ := Yields.fail _

section

variable (h : CleanAt env fuel)
include h

theorem CleanAt.toPtr_succ (typ : UbjType) :
    Yields (privUbjrReadToPtr env (fuel + 1) typ) UbjrDynamic.Clean := by
  have hfixed : ∀ {m : UbjrM Nat}, Yields (m >>= fun n => Pure.pure (fixedToDynamic typ n))
      UbjrDynamic.Clean := Yields.after fun n => Yields.pure (clean_fixed typ n)
  cases typ with
  | mixed => exact h.dynamic
  | string => exact Yields.after fun n => yields_readText .string n
  | highPrecision => exact Yields.after fun n => yields_readText .highPrecision n
  | char => exact yields_readText .char 1
  | array => exact h.rawArray
  | object => exact h.rawObject
  | nullType => exact Yields.pure trivial
  | noop => exact Yields.pure trivial
  | boolTrue => exact Yields.pure trivial
  | boolFalse => exact Yields.pure trivial
  | numTypes => exact Yields.pure trivial
  | _ => exact hfixed

theorem CleanAt.arrayValues_succ (typ : UbjType) (size : Nat) :
    Yields (readArrayValues env (fuel + 1) typ size) CleanAll := by
  have hblock : Yields (privUbjrContextRead env ((ubjiTypeSize typ).toNat * size) >>= fun block =>
      Pure.pure (readBlock typ (ubjiTypeSize typ).toNat size block)) CleanAll :=
    Yields.after fun block => Yields.pure (cleanAll_block typ _ size block)
  have hremainder : Yields (readRemainder (ubjrTypeLocalsize typ * size + 1) >>= fun _ =>
      Pure.pure (List.replicate size (UbjrDynamic.other typ))) CleanAll :=
    Yields.after fun _ => Yields.pure (cleanAll_replicate typ size)
  refine Yields.ite (Yields.fail _) (Yields.ite (h.untl 0x5D typ) (Yields.ite (Yields.fail _) ?_))
  cases typ with
  | mixed => exact h.count size .mixed
  | string => exact h.count size .string
  | highPrecision => exact h.count size .highPrecision
  | char => exact h.count size .char
  | array => exact hremainder
  | object => exact hremainder
  | _ => exact hblock

theorem CleanAt.untl_succ (close : UInt8) (typ : UbjType) :
    Yields (readUntil env (fuel + 1) close typ) CleanAll := by
  refine Yields.after fun c => Yields.ite (Yields.after fun _ => Yields.pure trivial) ?_
  refine (h.toPtr typ).bind fun d hd => ?_
  exact (h.untl close typ).bind fun ds hds => Yields.pure ⟨hd, hds⟩

theorem CleanAt.count_succ (count : Nat) (typ : UbjType) :
    Yields (readCount env (fuel + 1) count typ) CleanAll := by
  cases count with
  | zero => exact Yields.pure trivial
  | succ count =>
    refine (h.toPtr typ).bind fun d hd => ?_
    exact (h.count count typ).bind fun ds hds => Yields.pure ⟨hd, hds⟩

theorem CleanAt.key_succ : Yields (readKey env (fuel + 1)) NulFree := by
  refine (h.toPtr .string).bind fun d hd => ?_
  cases d with
  | text typ s => exact Yields.pure hd
  | _ => exact Yields.pure (fun b hb => absurd hb List.not_mem_nil)

/-- One more field. -/
theorem CleanAt.field (typ : UbjType) {m : UbjrM (List (Bytes × UbjrDynamic))}
    (hm : Yields m (fun fields => ∀ f ∈ fields, NulFree f.1 ∧ f.2.Clean)) :
    Yields (do
      let k ← readKey env fuel
      let d ← privUbjrReadToPtr env fuel typ
      let fs ← m
      return (k, d) :: fs) (fun fields => ∀ f ∈ fields, NulFree f.1 ∧ f.2.Clean) := by
  refine h.key.bind fun k hk => (h.toPtr typ).bind fun d hd => hm.bind fun fs hfs => Yields.pure ?_
  intro f hf
  rcases List.mem_cons.mp hf with rfl | hf
  · exact ⟨hk, hd⟩
  · exact hfs f hf

theorem CleanAt.succ : CleanAt env (fuel + 1) where
  dynamic := Yields.after fun c => h.toPtr _
  toPtr := h.toPtr_succ
  arrayValues := h.arrayValues_succ
  rawArray := Yields.after fun params => Yields.after fun size =>
    (h.arrayValues params.1 size).bind fun _ hvalues => Yields.pure hvalues
  objectFields typ size := Yields.ite (Yields.fail _) (Yields.ite (h.fieldsUntil typ)
    (Yields.ite (Yields.fail _) (h.fieldsCount size typ)))
  rawObject := Yields.after fun params => (h.objectFields params.1 params.2).bind
    fun fields hfields => Yields.pure ⟨fun k hk => by
      obtain ⟨f, hf, rfl⟩ := List.mem_map.mp hk
      exact (hfields f hf).1, cleanAll_fields hfields⟩
  untl := h.untl_succ
  count := h.count_succ
  key := h.key_succ
  fieldsUntil typ := Yields.after fun c => Yields.ite
    (Yields.after fun _ => Yields.pure fun f hf => absurd hf List.not_mem_nil)
    (h.field typ (h.fieldsUntil typ))
  fieldsCount count typ := match count with
    | 0 => Yields.pure fun f hf => absurd hf List.not_mem_nil
    | count + 1 => h.field typ (h.fieldsCount count typ)

end

theorem cleanAt (env : UbjrEnv) (fuel : Nat) : CleanAt env fuel := by
  induction fuel with
  | zero => exact cleanAt_zero
  | succ fuel ih => exact ih.succ

/-! ## What the reader makes of it -/

mutual

/-- **The values that are read**: strings are there and stop at their first NUL, and the fields of
an object are in the order of their keys. -/
def Value.Settled : Value → Prop
  | .string s => Carried s
  | .array items => SettledItems items
  | .object fields => OrdMap.Sorted fields ∧ SettledFields fields
  | _ => True

def SettledItems : List Value → Prop
  | [] => True
  | v :: vs => v.Settled ∧ SettledItems vs

def SettledFields : List (Bytes × Value) → Prop
  | [] => True
  | (key, v) :: fs => NulFree key ∧ v.Settled ∧ SettledFields fs

end

theorem settledFields_iff : ∀ {fs : Object},
    SettledFields fs ↔ ∀ f ∈ fs, NulFree f.1 ∧ f.2.Settled
  | [] => ⟨fun _ _ hf => absurd hf List.not_mem_nil, fun _ => trivial⟩
  | (key, v) :: fs => by
      rw [SettledFields, List.forall_mem_cons, settledFields_iff, and_assoc]

theorem settled_ofString {s : Bytes} (h : NulFree s) : (Value.ofString s).Settled := by
  unfold Value.ofString
  split
  · exact trivial
  · rename_i hne
    exact ⟨fun hnil => hne (by rw [hnil]; rfl), h⟩

theorem settled_retypeArray {val : Value} (h : val.Settled) : (Reader.retypeArray val).Settled := by
  cases val with
  | array items => exact h
  | _ => exact trivial

theorem settled_items : ∀ {reads : List (Value → Value)},
    (∀ read ∈ reads, ∀ val : Value, val.Settled → (read val).Settled) →
    SettledItems (reads.map fun read => read .null)
  | [], _ => trivial
  | read :: _, h => ⟨h read List.mem_cons_self .null trivial,
      settled_items (fun r hr => h r (List.mem_cons_of_mem _ hr))⟩

/-- The search returns a field. -/
theorem mem_of_lookup {α : Type} {keys : List Bytes} {values : List α} {key : Bytes} {a : α}
    (h : ubjrObjectLookup keys values key = some a) : a ∈ values := by
  unfold ubjrObjectLookup at h
  dsimp only at h
  split at h
  · rename_i i _
    obtain ⟨p, hp, rfl⟩ := Option.map_eq_some_iff.mp h
    have hmem := List.mem_of_getElem? hp
    unfold privUbjrObjectBuildSortedKeys at hmem
    exact (List.of_mem_zip ((List.mem_insertionSort _).mp hmem)).2
  · cases h

/-- The loop over the keys keeps the object in order. -/
theorem settled_readObject {keys : List Bytes} {reads : List (Value → Value)}
    (hreads : ∀ read ∈ reads, ∀ val : Value, val.Settled → (read val).Settled) :
    ∀ (ks : List Bytes) (res : Object), (∀ k ∈ ks, NulFree k) →
      OrdMap.Sorted res → SettledFields res →
      OrdMap.Sorted (Reader.readObject keys reads ks res)
        ∧ SettledFields (Reader.readObject keys reads ks res)
  | [], res, _, hsorted, hres => ⟨hsorted, hres⟩
  | k :: ks, res, hks, hsorted, hres => by
      have hprior : ((OrdMap.find? res k).getD .null).Settled := by
        cases hfind : OrdMap.find? res k with
        | none => exact trivial
        | some v => exact (settledFields_iff.mp hres (k, v) (OrdMap.mem_of_find? hfind)).2
      rw [Reader.readObject]
      refine settled_readObject hreads ks _ (fun key hkey => hks key (List.mem_cons_of_mem _ hkey))
        (hsorted.insert k _) (settledFields_iff.mpr fun f hf => ?_)
      rcases OrdMap.mem_insert hf with rfl | hf
      · refine ⟨hks k List.mem_cons_self, ?_⟩
        cases hlook : ubjrObjectLookup keys reads k with
        | none => exact hprior
        | some read => exact hreads read (mem_of_lookup hlook) _ hprior
      · exact settledFields_iff.mp hres f hf

mutual

/-- Whatever the tree is, and whatever value it is read into. -/
theorem settled_readDynamic : ∀ (d : UbjrDynamic) (val : Value), d.Clean → val.Settled →
    (Reader.readDynamic d val).Settled
  | .null, _, _, hval => hval
  | .noop, _, _, hval => hval
  | .bool _, _, _, _ => trivial
  | .text typ s, val, hd, hval => by
      cases typ with
      | string => exact settled_ofString hd
      | _ => exact hval
  | .integer typ _, val, _, hval => by
      cases typ with
      | int32 => exact trivial
      | int64 => exact trivial
      | _ => exact hval
  | .float32 _, _, _, _ => trivial
  | .float64 _, _, _, _ => trivial
  | .array typ values, val, hd, hval => by
      have hvalues := settled_readDynamics values hd
      cases typ with
      | mixed => exact settled_items hvalues
      | int8 => exact trivial
      | _ => exact settled_retypeArray hval
  | .object _ keys values, _, hd, _ =>
      settled_readObject (settled_readDynamics values hd.2) keys [] hd.1 List.Pairwise.nil trivial
  | .other _, _, _, hval => hval

theorem settled_readDynamics : ∀ ds : List UbjrDynamic, CleanAll ds →
    ∀ read ∈ Reader.readDynamics ds, ∀ val : Value, val.Settled → (read val).Settled
  | [], _, _, hread => absurd hread List.not_mem_nil
  | d :: ds, hds, read, hread => by
      rcases List.mem_cons.mp hread with rfl | hread
      · exact fun val hval => settled_readDynamic d val hds.1 hval
      · exact settled_readDynamics ds hds.2 read hread

end

/-- **What comes out of the reader has one of few shapes**, whatever the bytes were, and is a
container. -/
theorem settled_of_read {env : UbjrEnv} {fuel : Nat} {val v : Value} {data : Bytes}
    (h : Reader.read env fuel val data = .ok (true, v)) (hval : val.Settled) :
    v.Settled ∧ v.isContainer = true := by
  unfold Reader.read at h
  split at h
  · cases h
  · split at h
    · cases h
    · rename_i d ctx hrun
      have hclean : d.Clean := (cleanAt env fuel).dynamic _ d ctx hrun
      have hsettled := settled_readDynamic d val hclean hval
      by_cases hroot : Reader.isContainer d = true
      · rw [if_pos hroot] at h
        obtain rfl : Reader.readDynamic d val = v := congrArg Prod.snd (Except.ok.inj h)
        refine ⟨hsettled, ?_⟩
        cases d with
        | array typ values =>
          cases typ <;> first | rfl | (cases val <;> rfl)
        | object typ keys values => rfl
        | _ => cases hroot
      · rw [if_neg hroot] at h
        cases h

/-! ## What becomes of it when it is stored -/

mutual

/-- Every field has a name and no number is a NaN. -/
def Value.Regular : Value → Prop
  | .float32 bits => isNaN32 bits = false
  | .float64 bits => isNaN64 bits = false
  | .array items => RegularItems items
  | .object fields => RegularFields fields
  | _ => True

def RegularItems : List Value → Prop
  | [] => True
  | v :: vs => v.Regular ∧ RegularItems vs

def RegularFields : List (Bytes × Value) → Prop
  | [] => True
  | (key, v) :: fs => key ≠ [] ∧ v.Regular ∧ RegularFields fs

end

mutual

/-- There is no empty byte buffer in it. -/
def Value.Filled : Value → Prop
  | .buffer data => data ≠ []
  | .array items => FilledItems items
  | .object fields => FilledFields fields
  | _ => True

def FilledItems : List Value → Prop
  | [] => True
  | v :: vs => v.Filled ∧ FilledItems vs

def FilledFields : List (Bytes × Value) → Prop
  | [] => True
  | (_, v) :: fs => v.Filled ∧ FilledFields fs

end

mutual

/-- With an array in the place of every empty byte buffer. -/
def Value.emptied : Value → Value
  | .buffer data => if data.length = 0 then .array [] else .buffer data
  | .array items => .array (emptiedItems items)
  | .object fields => .object (emptiedFields fields)
  | v => v

def emptiedItems : List Value → List Value
  | [] => []
  | v :: vs => v.emptied :: emptiedItems vs

def emptiedFields : List (Bytes × Value) → List (Bytes × Value)
  | [] => []
  | (key, v) :: fs => (key, v.emptied) :: emptiedFields fs

end

theorem emptiedItems_length : ∀ vs : List Value, (emptiedItems vs).length = vs.length
  | [] => rfl
  | _ :: vs => congrArg Nat.succ (emptiedItems_length vs)

theorem emptiedFields_keys : ∀ fs : List (Bytes × Value),
    (emptiedFields fs).map Prod.fst = fs.map Prod.fst
  | [] => rfl
  | (key, _) :: fs => congrArg (key :: ·) (emptiedFields_keys fs)

theorem emptiedFields_length (fs : List (Bytes × Value)) :
    (emptiedFields fs).length = fs.length := by
  have h := congrArg List.length (emptiedFields_keys fs)
  rwa [List.length_map, List.length_map] at h

mutual

/-- The writer has no bytes to write for an empty buffer, and writes an array. -/
theorem writeTagged_emptied : ∀ (v : Value) (ctx : UbjwContext),
    Writer.writeTagged v.emptied ctx = Writer.writeTagged v ctx
  | .null, _ => rfl
  | .bool _, _ => rfl
  | .int32 _, _ => rfl
  | .int64 _, _ => rfl
  | .float32 _, _ => rfl
  | .float64 _, _ => rfl
  | .string _, _ => rfl
  | .buffer data, ctx => by
      rw [Value.emptied]
      by_cases hlen : data.length = 0
      · rw [if_pos hlen, Writer.writeTagged, Writer.writeTagged, if_pos hlen]
        rfl
      · rw [if_neg hlen]
  | .array items, ctx => by
      rw [Value.emptied, Writer.writeTagged, Writer.writeTagged, emptiedItems_length,
        writeItems_emptied items]
  | .object fields, ctx => by
      rw [Value.emptied, Writer.writeTagged, Writer.writeTagged, emptiedFields_length,
        writeFields_emptied fields]

theorem writeItems_emptied : ∀ (vs : List Value) (ctx : UbjwContext),
    Writer.writeItems (emptiedItems vs) ctx = Writer.writeItems vs ctx
  | [], _ => rfl
  | v :: vs, ctx => by
      rw [emptiedItems, Writer.writeItems, Writer.writeItems, writeTagged_emptied v,
        writeItems_emptied vs]

theorem writeFields_emptied : ∀ (fs : List (Bytes × Value)) (ctx : UbjwContext),
    Writer.writeFields (emptiedFields fs) ctx = Writer.writeFields fs ctx
  | [], _ => rfl
  | (key, v) :: fs, ctx => by
      rw [emptiedFields, Writer.writeFields, Writer.writeFields, writeTagged_emptied v,
        writeFields_emptied fs]

end

theorem write_emptied (v : Value) : Writer.write v.emptied = Writer.write v := by
  have hcollect : Writer.collect v.emptied = Writer.collect v := by
    have hwritten := congrArg UbjwContext.written (writeTagged_emptied v ubjwOpenCallback)
    cases v with
    | array items => exact hwritten
    | object fields => exact hwritten
    | buffer data =>
      rw [Value.emptied] at hwritten ⊢
      by_cases hlen : data.length = 0
      · rw [if_pos hlen] at hwritten ⊢
        exact hwritten
      · rw [if_neg hlen]
    | _ => rfl
  unfold Writer.write
  rw [hcollect]

mutual

theorem roundTrip_emptied : ∀ {v : Value}, v.Settled → v.Regular → RoundTrip v.emptied
  | .null, _, _ => .null
  | .bool b, _, _ => .bool b
  | .int32 i, _, _ => .int32 i
  | .int64 i, _, _ => .int64 i
  | .float32 _, _, h => .float32 h
  | .float64 _, _, h => .float64 h
  | .string _, h, _ => .string h
  | .buffer data, _, _ => by
      rw [Value.emptied]
      by_cases hlen : data.length = 0
      · rw [if_pos hlen]
        exact .array .nil
      · rw [if_neg hlen]
        exact .buffer (fun hnil => hlen (by rw [hnil]; rfl))
  | .array _, hs, hr => .array (roundTripItems_emptied hs hr)
  | .object fields, hs, hr => by
      refine .object ?_ (roundTripFields_emptied hs.2 hr)
      have hkeys := List.pairwise_map.mpr hs.1
      rw [← emptiedFields_keys fields] at hkeys
      exact List.pairwise_map.mp hkeys

theorem roundTripItems_emptied : ∀ {vs : List Value}, SettledItems vs → RegularItems vs →
    RoundTripItems (emptiedItems vs)
  | [], _, _ => .nil
  | _ :: _, hs, hr => .cons (roundTrip_emptied hs.1 hr.1) (roundTripItems_emptied hs.2 hr.2)

theorem roundTripFields_emptied : ∀ {fs : List (Bytes × Value)}, SettledFields fs →
    RegularFields fs → RoundTripFields (emptiedFields fs)
  | [], _, _ => .nil
  | (_, _) :: _, hs, hr => .cons ⟨hr.1, hs.1⟩ (roundTrip_emptied hs.2.1 hr.2.1)
      (roundTripFields_emptied hs.2.2 hr.2.2)

end

mutual

theorem emptied_eq_iff : ∀ v : Value, v.emptied = v ↔ v.Filled
  | .null => ⟨fun _ => trivial, fun _ => rfl⟩
  | .bool _ => ⟨fun _ => trivial, fun _ => rfl⟩
  | .int32 _ => ⟨fun _ => trivial, fun _ => rfl⟩
  | .int64 _ => ⟨fun _ => trivial, fun _ => rfl⟩
  | .float32 _ => ⟨fun _ => trivial, fun _ => rfl⟩
  | .float64 _ => ⟨fun _ => trivial, fun _ => rfl⟩
  | .string _ => ⟨fun _ => trivial, fun _ => rfl⟩
  | .buffer data => by
      rw [Value.emptied, Value.Filled]
      by_cases hlen : data.length = 0
      · rw [if_pos hlen]
        exact ⟨fun h => (by cases h), fun h => absurd (List.length_eq_zero_iff.mp hlen) h⟩
      · rw [if_neg hlen]
        exact ⟨fun _ hnil => hlen (by rw [hnil]; rfl), fun _ => rfl⟩
  | .array items => by
      rw [Value.emptied, Value.Filled, ← emptiedItems_eq_iff items]
      exact ⟨Value.array.inj, congrArg Value.array⟩
  | .object fields => by
      rw [Value.emptied, Value.Filled, ← emptiedFields_eq_iff fields]
      exact ⟨Value.object.inj, congrArg Value.object⟩

theorem emptiedItems_eq_iff : ∀ vs : List Value, emptiedItems vs = vs ↔ FilledItems vs
  | [] => ⟨fun _ => trivial, fun _ => rfl⟩
  | v :: vs => by
      rw [emptiedItems, FilledItems, ← emptied_eq_iff v, ← emptiedItems_eq_iff vs]
      exact List.cons_eq_cons

theorem emptiedFields_eq_iff : ∀ fs : List (Bytes × Value), emptiedFields fs = fs ↔ FilledFields fs
  | [] => ⟨fun _ => trivial, fun _ => rfl⟩
  | (key, v) :: fs => by
      rw [emptiedFields, FilledFields, ← emptied_eq_iff v, ← emptiedFields_eq_iff fs,
        List.cons_eq_cons, Prod.mk.injEq]
      exact ⟨fun h => ⟨h.1.2, h.2⟩, fun h => ⟨⟨rfl, h.1⟩, h.2⟩⟩

end

/-- **What becomes of a received value that is stored.** What came out of the reader, of whatever
bytes, is written and read again as it is, but for the empty byte buffers in it. -/
theorem reread_received {env : UbjrEnv} {fuel : Nat} {val v : Value} {data : Bytes}
    (h : Reader.read env fuel val data = .ok (true, v)) (hval : val.Settled) (hregular : v.Regular)
    (hdepth : depth v.emptied ≤ 63) (hlen : (encode v.emptied).length < 2 ^ 32)
    (env' : UbjrEnv) (val' : Value) {fuel' : Nat} (hfuel : fuelOf v.emptied ≤ fuel') :
    Reader.read env' fuel' val' (Writer.write v) = .ok (true, v.emptied)
      ∧ (v.emptied = v ↔ v.Filled) := by
  obtain ⟨hsettled, hroot⟩ := settled_of_read h hval
  have hround := roundTrip_emptied hsettled hregular
  have hroot' : v.emptied.isContainer = true := by
    cases v with
    | buffer data =>
      rw [Value.emptied]
      split <;> rfl
    | array items => rfl
    | object fields => rfl
    | _ => cases hroot
  have hcollect := collect_eq_encode hround hroot' (Nat.lt_succ_of_le hdepth)
  have hread := read_write hround hroot' hdepth (by rw [hcollect]; exact hlen) env' val' hfuel
  rw [write_emptied] at hread
  exact ⟨hread, emptied_eq_iff v⟩

/-- `{"a": <05>}` with a terminator instead of a size, and read back from where it was stored. -/
theorem reread_received_terminated :
    Reader.read ⟨0x23, fun _ => 0⟩ 52 .null (Writer.write (.object [([0x61], .buffer [5])]))
        = .ok (true, .object [([0x61], .buffer [5])])
      ∧ ((Value.object [([0x61], .buffer [5])]).emptied = .object [([0x61], .buffer [5])]
        ↔ (Value.object [([0x61], .buffer [5])]).Filled) := by
  have hread : Reader.read ⟨0, fun _ => 0⟩ 30 .null
      [0x7B, 0x69, 1, 0x61, 0x5B, 0x24, 0x69, 0x23, 0x69, 1, 5, 0x7D]
      = .ok (true, .object [([0x61], .buffer [5])]) := rfl
  exact reread_received hread trivial ⟨by decide, trivial, trivial⟩ (by decide) (by decide) _ _
    (by decide)

end Zway.Ubj
