import Zway.Ubj.RoundTrip

/-!
# Strings with a terminator

A `Value` keeps whatever bytes its string was made of, also a NUL at the end. The writer
takes `c_str()`, so what is read is the document whose strings stop at their first NUL:
`read_terminated`. It has the same shape, and so what is at a place in the one is at that
place in the other.
-/

namespace Zway.Ubj

mutual

/-- Every string up to its first NUL. The keys stay. -/
def Value.trimmed : Value → Value
  | .string s => .string (cstr s)
  | .array items => .array (trimmedItems items)
  | .object fields => .object (trimmedFields fields)
  | v => v

def trimmedItems : List Value → List Value
  | [] => []
  | v :: vs => v.trimmed :: trimmedItems vs

def trimmedFields : List (Bytes × Value) → List (Bytes × Value)
  | [] => []
  | (key, v) :: fs => (key, v.trimmed) :: trimmedFields fs

end

theorem trimmedItems_eq_map : ∀ vs : List Value, trimmedItems vs = vs.map Value.trimmed
  | [] => rfl
  | v :: vs => by rw [trimmedItems, List.map_cons, trimmedItems_eq_map vs]

theorem trimmedFields_eq_map : ∀ fs : List (Bytes × Value),
    trimmedFields fs = fs.map (fun f => (f.1, f.2.trimmed))
  | [] => rfl
  | (key, v) :: fs => by rw [trimmedFields, List.map_cons, trimmedFields_eq_map fs]

/-! ## What is written -/

mutual

/-- The writer does not see what is cut off. -/
theorem writeTagged_trimmed : ∀ (v : Value) (ctx : UbjwContext),
    Writer.writeTagged v.trimmed ctx = Writer.writeTagged v ctx
  | .null, _ => rfl
  | .bool _, _ => rfl
  | .int32 _, _ => rfl
  | .int64 _, _ => rfl
  | .float32 _, _ => rfl
  | .float64 _, _ => rfl
  | .string s, ctx => by
      rw [Value.trimmed, Writer.writeTagged, Writer.writeTagged, ubjwWriteString, ubjwWriteString,
        privUbjwWriteRawString, privUbjwWriteRawString, cstr_cstr]
  | .buffer _, _ => rfl
  | .array items, ctx => by
      have hlen : (trimmedItems items).length = items.length := by
        rw [trimmedItems_eq_map, List.length_map]
      rw [Value.trimmed, Writer.writeTagged, Writer.writeTagged, hlen, writeItems_trimmed items]
  | .object fields, ctx => by
      have hlen : (trimmedFields fields).length = fields.length := by
        rw [trimmedFields_eq_map, List.length_map]
      rw [Value.trimmed, Writer.writeTagged, Writer.writeTagged, hlen, writeFields_trimmed fields]

theorem writeItems_trimmed : ∀ (vs : List Value) (ctx : UbjwContext),
    Writer.writeItems (trimmedItems vs) ctx = Writer.writeItems vs ctx
  | [], _ => rfl
  | v :: vs, ctx => by
      rw [trimmedItems, Writer.writeItems, Writer.writeItems, writeTagged_trimmed v,
        writeItems_trimmed vs]

theorem writeFields_trimmed : ∀ (fs : List (Bytes × Value)) (ctx : UbjwContext),
    Writer.writeFields (trimmedFields fs) ctx = Writer.writeFields fs ctx
  | [], _ => rfl
  | (key, v) :: fs, ctx => by
      rw [trimmedFields, Writer.writeFields, Writer.writeFields, writeTagged_trimmed v,
        writeFields_trimmed fs]

end

theorem write_trimmed (v : Value) : Writer.write v.trimmed = Writer.write v := by
  have hcollect : Writer.collect v.trimmed = Writer.collect v := by
    have hwritten := congrArg UbjwContext.written (writeTagged_trimmed v ubjwOpenCallback)
    cases v with
    | array items => exact hwritten
    | object fields => exact hwritten
    | _ => rfl
  unfold Writer.write
  rw [hcollect]

/-! ## What is read -/

theorem roundTripFields_of_forall : ∀ {fs : Object}, (∀ f ∈ fs, Carried f.1 ∧ RoundTrip f.2) →
    RoundTripFields fs
  | [], _ => .nil
  | (_, _) :: _, h =>
      .cons (h _ List.mem_cons_self).1 (h _ List.mem_cons_self).2
        (roundTripFields_of_forall (fun f hf => h f (List.mem_cons_of_mem _ hf)))

/-- A document of the round-trip class, as it can be written. -/
structure Document (v : Value) : Prop where
  roundTrip : RoundTrip v
  root : v.isContainer = true
  depth_le : depth v ≤ 63
  length_lt : (encode v).length < 2 ^ 32

/-- **A document is read back as it is without the terminators.** -/
theorem read_terminated {v : Value} (h : Document v.trimmed) (env : UbjrEnv) (val : Value) {fuel : Nat}
    (hf : fuelOf v.trimmed ≤ fuel) :
    Reader.read env fuel val (Writer.write v) = .ok (true, v.trimmed) := by
  have hdepth : depth v.trimmed < containerStackMax := Nat.lt_succ_of_le h.depth_le
  have hcollect := collect_eq_encode h.roundTrip h.root hdepth
  obtain ⟨hwrite, -⟩ := write_eq_encode h.roundTrip h.root h.depth_le (by rw [hcollect]; exact h.length_lt)
  have hread := read_encode h.roundTrip h.root h.length_lt env val [] hf
  rw [List.append_nil] at hread
  rw [← write_trimmed, hwrite]
  exact hread

/-! ## Places -/

/-- From a container to what is in it. -/
inductive PathStep where
  | key (k : Bytes)
  | index (i : Nat)
  deriving Repr, DecidableEq

/-- What is at a place. -/
def Value.at : Value → List PathStep → Option Value
  | v, [] => some v
  | .object fields, .key k :: path => (OrdMap.find? fields k).bind (fun v => v.at path)
  | .array items, .index i :: path => items[i]?.bind (fun v => v.at path)
  | _, _ :: _ => none

theorem find?_trimmedFields (fields : List (Bytes × Value)) (k : Bytes) :
    OrdMap.find? (trimmedFields fields) k = (OrdMap.find? fields k).map Value.trimmed := by
  induction fields with
  | nil => rfl
  | cons f fs ih =>
    rw [trimmedFields, OrdMap.find?, OrdMap.find?]
    by_cases hk : f.1 = k
    · rw [if_pos hk, if_pos hk]
      rfl
    · rw [if_neg hk, if_neg hk]
      exact ih

/-- Cutting off the terminators moves nothing. -/
theorem at_trimmed (path : List PathStep) : ∀ v : Value,
    v.trimmed.at path = (v.at path).map Value.trimmed := by
  induction path with
  | nil => exact fun _ => rfl
  | cons step path ih =>
    intro v
    cases step with
    | key k =>
      cases v with
      | object fields =>
        rw [Value.trimmed, Value.at, Value.at, find?_trimmedFields]
        cases OrdMap.find? fields k with
        | none => rfl
        | some v => exact ih v
      | _ => rfl
    | index i =>
      cases v with
      | array items =>
        rw [Value.trimmed, Value.at, Value.at, trimmedItems_eq_map, List.getElem?_map]
        cases items[i]? with
        | none => rfl
        | some v => exact ih v
      | _ => rfl

/-- What `v` has at a place, after it is written and read. -/
def reread (env : UbjrEnv) (fuel : Nat) (val v : Value) (path : List PathStep) : Option Value :=
  match Reader.read env fuel val (Writer.write v) with
  | .ok (true, w) => w.at path
  | _ => none

/-- **What was at a place is there again**, without the terminators. -/
theorem reread_eq {v : Value} (h : Document v.trimmed) (env : UbjrEnv) (val : Value) {fuel : Nat}
    (hf : fuelOf v.trimmed ≤ fuel) (path : List PathStep) :
    reread env fuel val v path = (v.at path).map Value.trimmed := by
  unfold reread
  rw [read_terminated h env val hf]
  exact at_trimmed path v

end Zway.Ubj
