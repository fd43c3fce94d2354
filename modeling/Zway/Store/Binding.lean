import Zway.Store.ActionProof

/-!
# Which parameter a value is bound to

`bindUbjToStmt` counts the parameters itself, and counts one only where it binds
something. What is looked at here are its calls of the `sqlite3_bind_` functions: the
number of the parameter each gets, and the element of `m_bound` it is made for.
-/

namespace Zway.Ubj.Store

open Sql

/-- A call of one of the `sqlite3_bind_` functions. -/
structure BindCall where
  /-- The number of the parameter, from one on. -/
  param : Nat
  /-- The number of the element of `m_bound`, from one on. -/
  element : Nat
  /-- What is bound. -/
  bound : Param
  deriving Repr, DecidableEq

section

variable (behind : BitVec 32) (vtab : Bool)

/-- The calls of `Action::bindUbjToStmt`, with `i` as the source has it, after so many
elements. -/
def bindCalls : List Value → (i seen : Nat) → List BindCall
  | [], _, _ => []
  | value :: values, i, seen =>
      match bindUbj behind vtab value with
      | some p => ⟨i + 1, seen + 1, p⟩ :: bindCalls values (i + 1) (seen + 1)
      -- a branch that binds nothing leaves `i` where it is
      | none => bindCalls values i (seen + 1)

/-- The calls for an `m_bound`. -/
def callsOf (values : List Value) : List BindCall := bindCalls behind vtab values 0 0

theorem bindCalls_bound : ∀ (values : List Value) (i seen : Nat),
    (bindCalls behind vtab values i seen).map (·.bound) = values.filterMap (bindUbj behind vtab)
  | [], _, _ => rfl
  | value :: values, i, seen => by
      rw [bindCalls]
      cases h : bindUbj behind vtab value with
      | some p =>
        rw [List.filterMap_cons_some h, ← bindCalls_bound values (i + 1) (seen + 1)]
        rfl
      | none =>
        rw [List.filterMap_cons_none h, ← bindCalls_bound values i (seen + 1)]

/-- The numbers of the parameters are counted up, one for each call. -/
theorem bindCalls_param : ∀ (values : List Value) (i seen : Nat),
    (bindCalls behind vtab values i seen).map (·.param)
      = List.range' (i + 1) (bindCalls behind vtab values i seen).length
  | [], _, _ => rfl
  | value :: values, i, seen => by
      rw [bindCalls]
      cases bindUbj behind vtab value with
      | some p => exact congrArg ((i + 1) :: ·) (bindCalls_param values (i + 1) (seen + 1))
      | none => exact bindCalls_param values i (seen + 1)

/-- What the calls leave the parameters at, from the first one on. -/
theorem bindUbjToStmt_eq_calls (sqlite : Behaviour) (values : List Value) :
    (callsOf behind vtab values).map (·.param)
        = List.range' 1 (callsOf behind vtab values).length ∧
      bindUbjToStmt behind sqlite vtab values
        = (callsOf behind vtab values).map (fun call =>
            match call.bound with
            | .value (.blob data) =>
                if data.length ≤ sqlite.maxLength then call.bound else .value .null
            | _ => call.bound) := by
  refine ⟨bindCalls_param behind vtab values 0 0, ?_⟩
  unfold bindUbjToStmt callsOf
  rw [← bindCalls_bound behind vtab values 0 0, List.map_map]
  refine List.map_congr_left ?_
  intro call _
  show (match call.bound with | .value (.blob data) => _ | p => p) = _
  split
  · rfl
  · rfl

/-- Each element is bound once, to the parameter of its own number, as the value it is; and no
call is made for anything else. -/
structure OwnParams (values : List Value) (calls : List BindCall) : Prop where
  bound : ∀ k (h : k < values.length), ∃ p,
    bindUbj behind vtab values[k] = some p ∧ ⟨k + 1, k + 1, p⟩ ∈ calls
  once : (calls.map (·.element)).Nodup
  own : ∀ call ∈ calls, call.param = call.element ∧ call.element ≤ values.length

/-- There is a branch for the value that binds something. -/
def Bindable (value : Value) : Prop := (bindUbj behind vtab value).isSome = true

variable {behind vtab}

/-- If something is bound for every element, the two counters stay together. -/
theorem own_of_bindable : ∀ {values : List Value}, (∀ v ∈ values, Bindable behind vtab v) →
    ∀ (n : Nat), ∀ call ∈ bindCalls behind vtab values n n, call.param = call.element
  | [], _, _, call, hcall => by cases hcall
  | value :: values, h, n, call, hcall => by
      obtain ⟨p, hp⟩ := Option.isSome_iff_exists.mp (h value (List.mem_cons_self ..))
      rw [bindCalls, hp] at hcall
      rcases List.mem_cons.mp hcall with rfl | hrest
      · rfl
      · exact own_of_bindable (fun v hv => h v (List.mem_cons_of_mem _ hv)) (n + 1) call hrest

theorem mem_of_bindable : ∀ {values : List Value}, (∀ v ∈ values, Bindable behind vtab v) →
    ∀ (n k : Nat) (hk : k < values.length), ∃ p, bindUbj behind vtab values[k] = some p ∧
      ⟨n + k + 1, n + k + 1, p⟩ ∈ bindCalls behind vtab values n n
  | [], _, _, _, hk => absurd hk (Nat.not_lt_zero _)
  | value :: values, h, n, k, hk => by
      obtain ⟨p, hp⟩ := Option.isSome_iff_exists.mp (h value (List.mem_cons_self ..))
      rw [bindCalls, hp]
      cases k with
      | zero => exact ⟨p, hp, List.mem_cons_self ..⟩
      | succ k =>
        obtain ⟨q, hq, hmem⟩ := mem_of_bindable (fun v hv => h v (List.mem_cons_of_mem _ hv))
          (n + 1) k (Nat.lt_of_succ_lt_succ hk)
        rw [Nat.add_right_comm n 1 k] at hmem
        exact ⟨q, hq, List.mem_cons_of_mem _ hmem⟩

/-- The element of a call is one of those that were still to come. -/
theorem bindCalls_element : ∀ {values : List Value} {i seen : Nat} {call : BindCall},
    call ∈ bindCalls behind vtab values i seen →
    seen < call.element ∧ call.element ≤ seen + values.length
  | [], _, _, _, h => by cases h
  | value :: values, i, seen, call, h => by
      rw [bindCalls] at h
      cases hp : bindUbj behind vtab value with
      | some p =>
        rw [hp] at h
        rcases List.mem_cons.mp h with rfl | h
        · rw [List.length_cons]
          show seen < seen + 1 ∧ seen + 1 ≤ seen + (values.length + 1)
          omega
        · have := bindCalls_element h
          rw [List.length_cons]
          omega
      | none =>
        rw [hp] at h
        have := bindCalls_element h
        rw [List.length_cons]
        omega

/-- No element is met twice. -/
theorem bindCalls_nodup : ∀ (values : List Value) (i seen : Nat),
    ((bindCalls behind vtab values i seen).map (·.element)).Nodup
  | [], _, _ => List.nodup_nil
  | value :: values, i, seen => by
      rw [bindCalls]
      cases bindUbj behind vtab value with
      | none => exact bindCalls_nodup values i (seen + 1)
      | some p =>
        refine List.nodup_cons.mpr ⟨?_, bindCalls_nodup values (i + 1) (seen + 1)⟩
        intro hmem
        obtain ⟨call, hcall, helement⟩ := List.mem_map.mp hmem
        exact absurd (bindCalls_element hcall).1 (by rw [helement]; exact Nat.lt_irrefl _)

theorem ownParams_of_bindable {values : List Value} (h : ∀ v ∈ values, Bindable behind vtab v) :
    OwnParams behind vtab values (callsOf behind vtab values) where
  bound k hk := by
    obtain ⟨p, hp, hmem⟩ := mem_of_bindable h 0 k hk
    rw [Nat.zero_add] at hmem
    exact ⟨p, hp, hmem⟩
  once := bindCalls_nodup values 0 0
  own call hcall := by
    have hle := (bindCalls_element hcall).2
    rw [Nat.zero_add] at hle
    exact ⟨own_of_bindable h 0 call hcall, hle⟩

/-! ## The values nothing is bound for -/

/-- A value `bindUbjToStmt` has no branch for, unless the table is virtual: an empty buffer, an
array of values, and an object that neither asks for zeros nor for NULL. -/
def Unbindable : Value → Prop
  | .buffer data => data = []
  | .array _ => True
  | .object fields =>
      OrdMap.find? fields (lit "$zeroBlob") = none ∧ OrdMap.find? fields (lit "$bindNull") = none
  | _ => False

theorem bindable_iff (value : Value) :
    Bindable behind vtab value ↔ vtab = true ∨ ¬ Unbindable value := by
  unfold Bindable
  cases value with
  | object fields =>
    rw [bindUbj, Unbindable]
    cases OrdMap.find? fields (lit "$zeroBlob") with
    | some size => simp
    | none =>
      cases OrdMap.find? fields (lit "$bindNull") with
      | some _ => simp
      | none => cases vtab with
        | true => simp
        | false => simp
  | buffer data =>
    rw [bindUbj, Unbindable]
    cases data with
    | nil => cases vtab with
      | true => simp
      | false => simp
    | cons byte data => simp
  | array items =>
    rw [bindUbj, Unbindable]
    cases vtab with
    | true => simp
    | false => simp
  | _ => simp [bindUbj, Unbindable]

end

/-- **`bindUbjToStmt` binds every element of `m_bound` to the parameter of its own number, and to
no other, exactly for a virtual table or where no element is a value it has no branch for.** -/
theorem ownParams_iff (behind : BitVec 32) (vtab : Bool) (values : List Value) :
    OwnParams behind vtab values (callsOf behind vtab values) ↔
      vtab = true ∨ ∀ v ∈ values, ¬ Unbindable v := by
  constructor
  · intro h
    cases vtab with
    | true => exact Or.inl rfl
    | false =>
      refine Or.inr ?_
      intro v hv
      obtain ⟨k, hk, rfl⟩ := List.getElem_of_mem hv
      obtain ⟨p, hp, _⟩ := h.bound k hk
      have hbindable : Bindable behind false values[k] := Option.isSome_iff_exists.mpr ⟨p, hp⟩
      exact ((bindable_iff _).mp hbindable).resolve_left Bool.false_ne_true
  · intro h
    refine ownParams_of_bindable ?_
    intro v hv
    exact (bindable_iff v).mpr (h.imp_right fun hnone => hnone v hv)

/-- The value after an empty buffer goes to the parameter of the buffer, and the last parameter
gets nothing. -/
theorem not_ownParams_buffer :
    ¬ OwnParams 0 false [.buffer [], .int32 7] (callsOf 0 false [.buffer [], .int32 7]) := by
  intro h
  have hown := h.own ⟨1, 2, .value (.integer 7)⟩ (List.mem_cons_self ..)
  exact absurd hown.1 (by decide)

end Zway.Ubj.Store
