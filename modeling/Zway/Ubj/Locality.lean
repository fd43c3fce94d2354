import Mathlib.InformationTheory.Coding.UniquelyDecodable
import Zway.Ubj.Terminated

/-!
# A document ends where its bytes say

`Reader::read` does not say how many bytes it has taken, and the parser takes what is behind
the data for granted. What it has left is enough to know that it took nothing for granted:
if one byte is left, then nothing behind this byte was looked at, and neither the memory, nor
what follows, nor how deep the recursion may go had a part in the result.

`Local` is what the parser keeps. Each function says how many bytes it has taken and how many
it has looked at: a peek looks at one more, and only in front of the elements of a container
without a size does that byte matter to what comes next.
-/

namespace Zway.Ubj

/-! ## How far a parser looks -/

/-- On everything that begins with the first `k` of these bytes `m` takes `n` of them and
returns `a`, with at least this fuel. -/
def Looks {α : Type} (m : UbjrEnv → Nat → UbjrM α) (fuel : Nat) (data : Bytes) (a : α) (n k : Nat) :
    Prop :=
  ∀ (env : UbjrEnv) (more : Nat), fuel ≤ more → ∀ (data' : Bytes) (tr : Nat) (p : Bool),
    data'.take k = data.take k →
    ∃ tr', m env more ⟨data', tr, p⟩ = .ok (a, ⟨data'.drop n, tr', p⟩)

/-- A parser that leaves bytes depends on those it has looked at. `c` relates its result, how
many bytes it has taken, and how many it has looked at. -/
def Local {α : Type} (m : UbjrEnv → Nat → UbjrM α) (fuel : Nat) (c : α → Nat → Nat → Prop) : Prop :=
  ∀ (env : UbjrEnv) (ctx : UbjrContext) (a : α) (ctx' : UbjrContext),
    m env fuel ctx = .ok (a, ctx') →
    ∃ n, ctx'.rest = ctx.rest.drop n ∧
      (ctx'.rest ≠ [] → ∃ k, k ≤ ctx.rest.length ∧ c a n k ∧ Looks m fuel ctx.rest a n k)

/-- It has looked at no byte that it has not taken. -/
def Took {α : Type} (_ : α) (n k : Nat) : Prop := k ≤ n

variable {α β : Type} {m : UbjrEnv → Nat → UbjrM α} {fuel : Nat} {c : α → Nat → Nat → Prop}

theorem Local.mono {c' : α → Nat → Nat → Prop} (h : Local m fuel c)
    (hc : ∀ a n k, c a n k → c' a n k) : Local m fuel c' := by
  intro env ctx a ctx' hrun
  obtain ⟨n, hrest, hlooks⟩ := h env ctx a ctx' hrun
  refine ⟨n, hrest, fun hne => ?_⟩
  obtain ⟨k, hk, hcond, hlooks⟩ := hlooks hne
  exact ⟨k, hk, hc a n k hcond, hlooks⟩

theorem Local.pure (a : α) (hc : c a 0 0) :
    Local (fun _ _ => (Pure.pure a : UbjrM α)) fuel c := by
  intro env ctx b ctx' hrun
  cases hrun
  exact ⟨0, rfl, fun _ => ⟨0, Nat.zero_le _, hc, fun _ _ _ _ tr _ _ => ⟨tr, rfl⟩⟩⟩

theorem Local.fail (e : UbjrFault) : Local (fun _ _ => (throw e : UbjrM α)) fuel c := by
  intro env ctx a ctx' hrun
  cases hrun

theorem looks_bind {f : α → UbjrEnv → Nat → UbjrM β} {data : Bytes} {a : α} {b : β}
    {n₁ k₁ n₂ k₂ : Nat} (hm : Looks m fuel data a n₁ k₁)
    (hf : Looks (f a) fuel (data.drop n₁) b n₂ k₂) :
    Looks (fun env g => m env g >>= fun x => f x env g) fuel data b (n₁ + n₂)
      (max k₁ (n₁ + k₂)) := by
  intro env more hmore data' tr p hdata
  have hfirst : data'.take k₁ = data.take k₁ := by
    have h := congrArg (List.take k₁) hdata
    rwa [List.take_take, List.take_take, Nat.min_eq_left (Nat.le_max_left _ _)] at h
  have hsecond : (data'.drop n₁).take k₂ = (data.drop n₁).take k₂ := by
    have h := congrArg (List.take (n₁ + k₂)) hdata
    rw [List.take_take, List.take_take, Nat.min_eq_left (Nat.le_max_right _ _)] at h
    rw [List.take_drop, List.take_drop, h]
  obtain ⟨tr₁, h₁⟩ := hm env more hmore data' tr p hfirst
  obtain ⟨tr₂, h₂⟩ := hf env more hmore (data'.drop n₁) tr₁ p hsecond
  refine ⟨tr₂, ?_⟩
  show (m env more ⟨data', tr, p⟩ >>= fun q => f q.1 env more q.2) = _
  rw [h₁, ← List.drop_drop]
  exact h₂

/-- The second parser looks from where the first one stops. -/
theorem Local.bind {f : α → UbjrEnv → Nat → UbjrM β} {p : α → Nat → Nat → Prop}
    {q : α → β → Nat → Nat → Prop} {c : β → Nat → Nat → Prop} (hm : Local m fuel p)
    (hf : ∀ a, Local (f a) fuel (q a))
    (hc : ∀ a b n₁ k₁ n₂ k₂, p a n₁ k₁ → q a b n₂ k₂ → c b (n₁ + n₂) (max k₁ (n₁ + k₂))) :
    Local (fun env g => m env g >>= fun x => f x env g) fuel c := by
  intro env ctx b ctx₂ hrun
  have hrun' : (m env fuel ctx >>= fun q => f q.1 env fuel q.2) = .ok (b, ctx₂) := hrun
  cases hfirst : m env fuel ctx with
  | error e =>
    rw [hfirst] at hrun'
    cases hrun'
  | ok q =>
    obtain ⟨a, ctx₁⟩ := q
    rw [hfirst] at hrun'
    obtain ⟨n₁, hrest₁, hlooks₁⟩ := hm env ctx a ctx₁ hfirst
    obtain ⟨n₂, hrest₂, hlooks₂⟩ := hf a env ctx₁ b ctx₂ hrun'
    have hrest : ctx₂.rest = ctx.rest.drop (n₁ + n₂) := by
      rw [hrest₂, hrest₁, List.drop_drop]
    refine ⟨n₁ + n₂, hrest, fun hne => ?_⟩
    -- what is left at the end was also left in between
    have hne₁ : ctx₁.rest ≠ [] := by
      intro hnil
      rw [hrest₂, hnil, List.drop_nil] at hne
      exact hne rfl
    obtain ⟨k₁, hk₁, hc₁, hlooks₁⟩ := hlooks₁ hne₁
    obtain ⟨k₂, hk₂, hc₂, hlooks₂⟩ := hlooks₂ hne
    rw [hrest₁] at hk₂ hlooks₂ hne₁
    have hlt : n₁ < ctx.rest.length := by
      by_contra hge
      exact hne₁ (List.drop_eq_nil_of_le (Nat.le_of_not_lt hge))
    rw [List.length_drop] at hk₂
    exact ⟨max k₁ (n₁ + k₂), by omega, hc a b n₁ k₁ n₂ k₂ hc₁ hc₂, looks_bind hlooks₁ hlooks₂⟩

/-- One step of the recursion. -/
theorem Local.succ {m' : UbjrEnv → Nat → UbjrM α} (h : ∀ env g, m' env (g + 1) = m env g)
    (hm : Local m fuel c) : Local m' (fuel + 1) c := by
  intro env ctx a ctx' hrun
  rw [h] at hrun
  obtain ⟨n, hrest, hlooks⟩ := hm env ctx a ctx' hrun
  refine ⟨n, hrest, fun hne => ?_⟩
  obtain ⟨k, hk, hcond, hlooks⟩ := hlooks hne
  refine ⟨k, hk, hcond, fun env' more hmore data' tr p hdata => ?_⟩
  obtain ⟨g, rfl⟩ : ∃ g, more = g + 1 := ⟨more - 1, by omega⟩
  rw [h]
  exact hlooks env' g (by omega) data' tr p hdata

/-- Without fuel there is no result. -/
theorem Local.zero (h : ∀ env, m env 0 = throw .fuel) : Local m 0 c := by
  intro env ctx a ctx' hrun
  rw [h] at hrun
  cases hrun

theorem Local.ite {m₁ m₂ : UbjrEnv → Nat → UbjrM α} {P : Prop} [Decidable P]
    (h₁ : P → Local m₁ fuel c) (h₂ : ¬ P → Local m₂ fuel c) :
    Local (fun env g => if P then m₁ env g else m₂ env g) fuel c := by
  by_cases hP : P
  · simp only [if_pos hP]
    exact h₁ hP
  · simp only [if_neg hP]
    exact h₂ hP

/-! ## The bytes -/

theorem local_getc :
    Local (fun env _ => privUbjrContextGetc env) fuel (fun _ n k => n = 1 ∧ k = 1) := by
  rintro env ⟨rest, tr, p⟩ a ctx' hrun
  cases rest with
  | nil =>
    cases hrun
    exact ⟨1, rfl, fun hne => absurd rfl hne⟩
  | cons b rest =>
    cases hrun
    refine ⟨1, rfl, fun hne => ⟨1, Nat.succ_pos _, ⟨rfl, rfl⟩, ?_⟩⟩
    intro env' more _ data' tr' p' hdata
    cases data' with
    | nil => cases hdata
    | cons b' data' =>
      rw [(List.cons.inj hdata).1]
      exact ⟨tr' + 1, rfl⟩

/-- A peek takes nothing, and looks at one byte. -/
theorem local_peek :
    Local (fun env _ => privUbjrContextPeek env) fuel (fun _ n k => n = 0 ∧ k = 1) := by
  rintro env ⟨rest, tr, p⟩ a ctx' hrun
  cases rest with
  | nil =>
    cases hrun
    exact ⟨0, rfl, fun hne => absurd rfl hne⟩
  | cons b rest =>
    cases hrun
    refine ⟨0, rfl, fun hne => ⟨1, Nat.succ_pos _, ⟨rfl, rfl⟩, ?_⟩⟩
    intro env' more _ data' tr' p' hdata
    cases data' with
    | nil => cases hdata
    | cons b' data' =>
      rw [(List.cons.inj hdata).1]
      exact ⟨tr', rfl⟩

theorem local_contextRead (size : Nat) :
    Local (fun env _ => privUbjrContextRead env size) fuel (fun _ n k => n = size ∧ k = size) := by
  rintro env ⟨rest, tr, p⟩ a ctx' hrun
  unfold privUbjrContextRead at hrun
  cases hrun
  refine ⟨size, rfl, fun hne => ?_⟩
  have hlt : size < rest.length := by
    by_contra hge
    exact hne (List.drop_eq_nil_of_le (Nat.le_of_not_lt hge))
  refine ⟨size, Nat.le_of_lt hlt, ⟨rfl, rfl⟩, ?_⟩
  intro env' more _ data' tr' p' hdata
  have hlen : (rest.take size).length = size := List.length_take_of_le (Nat.le_of_lt hlt)
  refine ⟨tr' + size, ?_⟩
  unfold privUbjrContextRead
  dsimp only
  rw [hdata, hlen, Nat.sub_self]
  rfl

/-- What takes all that is left leaves nothing. -/
theorem local_readRemainder (room : Nat) {c : Unit → Nat → Nat → Prop} :
    Local (fun _ _ => readRemainder room) fuel c := by
  rintro env ⟨rest, tr, p⟩ a ctx' hrun
  unfold readRemainder at hrun
  dsimp only at hrun
  split at hrun
  · cases hrun
  · cases hrun
    exact ⟨rest.length, List.drop_length.symm, fun hne => absurd rfl hne⟩

/-- A parser that is followed by a pure step. -/
theorem Local.map {c : β → Nat → Nat → Prop} {p : α → Nat → Nat → Prop} (g : α → β)
    (hm : Local m fuel p) (hc : ∀ a n k, p a n k → c (g a) n (max k n)) :
    Local (fun env f => m env f >>= fun x => Pure.pure (g x)) fuel c := by
  refine hm.bind (q := fun a b n k => b = g a ∧ n = 0 ∧ k = 0)
    (fun a => Local.pure _ ⟨rfl, rfl, rfl⟩) ?_
  rintro a b n₁ k₁ n₂ k₂ h₁ ⟨rfl, rfl, rfl⟩
  exact hc a n₁ k₁ h₁

/-- Two parsers that look at no byte they do not take. -/
theorem Local.seq {f : α → UbjrEnv → Nat → UbjrM β} (hm : Local m fuel Took)
    (hf : ∀ a, Local (f a) fuel Took) :
    Local (fun env g => m env g >>= fun x => f x env g) fuel Took := by
  refine hm.bind hf ?_
  intro a b n₁ k₁ n₂ k₂ h₁ h₂
  unfold Took at h₁ h₂ ⊢
  omega

theorem Local.took_map (g : α → β) (hm : Local m fuel Took) :
    Local (fun env f => m env f >>= fun x => Pure.pure (g x)) fuel Took :=
  hm.seq (fun _ => Local.pure _ (Nat.le_refl _))

theorem local_read1b : Local (fun env _ => privUbjrRead1b env) fuel Took := by
  have h : Local _ fuel Took := local_getc.mono (fun a n k h => by unfold Took; omega)
  exact h.took_map UInt8.toNat

theorem local_read2b : Local (fun env _ => privUbjrRead2b env) fuel Took :=
  local_read1b.seq (fun _ => local_read1b.took_map _)

theorem local_read4b : Local (fun env _ => privUbjrRead4b env) fuel Took :=
  local_read2b.seq (fun _ => local_read2b.took_map _)

theorem local_read8b : Local (fun env _ => privUbjrRead8b env) fuel Took :=
  local_read4b.seq (fun _ => local_read4b.took_map _)

theorem local_readText (typ : UbjType) (n : Int) :
    Local (fun env _ => readText env typ n) fuel Took := by
  unfold readText
  refine Local.ite (fun _ => Local.fail _) (fun _ => ?_)
  have h : Local _ fuel Took :=
    (local_contextRead n.toNat).mono (fun a n k h => by unfold Took; omega)
  exact h.took_map _

/-! ## The recursion -/

/-- What each function of the parser looks at, with some fuel. -/
structure LocalAt (fuel : Nat) : Prop where
  dynamic : Local ubjrReadDynamic fuel Took
  integer : Local privUbjwReadInteger fuel Took
  toPtr : ∀ typ, Local (fun env g => privUbjrReadToPtr env g typ) fuel Took
  containerSize : ∀ typ c, Local (fun env g => readContainerSize env g typ c) fuel
    (fun params n k => k ≤ n ∧ (params.2 ≠ 0 → 0 < n))
  /-- Without a size the next byte decides. -/
  params : Local privReadContainerParams fuel (fun params n k => k ≤ n + 1 ∧ (params.2 ≠ 0 → k ≤ n))
  dims : ∀ ndims size, Local (fun env g => readDims env g ndims size) fuel Took
  arraySize : ∀ typ size, Local (fun env g => readArraySize env g typ size) fuel
    (fun res n k => k ≤ n + 1 ∧ (res ≠ 0 → k ≤ n ∧ (size = 0 → 0 < n)))
  /-- Behind a container without a size stands its terminator. -/
  arrayValues : ∀ typ size, Local (fun env g => readArrayValues env g typ size) fuel
    (fun _ n k => k ≤ n ∧ (size = 0 → 0 < n))
  rawArray : Local privUbjrReadRawArray fuel Took
  objectFields : ∀ typ size, Local (fun env g => readObjectFields env g typ size) fuel
    (fun _ n k => k ≤ n ∧ (size = 0 → 0 < n))
  rawObject : Local privUbjrReadRawObject fuel Took
  untl : ∀ close typ, Local (fun env g => readUntil env g close typ) fuel
    (fun _ n k => k ≤ n ∧ 0 < n)
  count : ∀ count typ, Local (fun env g => readCount env g count typ) fuel Took
  key : Local readKey fuel Took
  fieldsUntil : ∀ typ, Local (fun env g => readFieldsUntil env g typ) fuel
    (fun _ n k => k ≤ n ∧ 0 < n)
  fieldsCount : ∀ count typ, Local (fun env g => readFieldsCount env g count typ) fuel Took

theorem localAt_zero : LocalAt 0 where
  dynamic := Local.zero (fun _ => rfl)
  integer := Local.zero (fun _ => rfl)
  toPtr _ := Local.zero (fun _ => rfl)
  containerSize _ _ := Local.zero (fun _ => rfl)
  params := Local.zero (fun _ => rfl)
  dims _ _ := Local.zero (fun _ => rfl)
  arraySize _ _ := Local.zero (fun _ => rfl)
  arrayValues _ _ := Local.zero (fun _ => rfl)
  rawArray := Local.zero (fun _ => rfl)
  objectFields _ _ := Local.zero (fun _ => rfl)
  rawObject := Local.zero (fun _ => rfl)
  untl _ _ := Local.zero (fun _ => rfl)
  count _ _ := Local.zero (fun _ => rfl)
  key := Local.zero (fun _ => rfl)
  fieldsUntil _ := Local.zero (fun _ => rfl)
  fieldsCount _ _ := Local.zero (fun _ => rfl)

section

variable (h : LocalAt fuel)
include h

theorem LocalAt.dynamic_succ : Local ubjrReadDynamic (fuel + 1) Took := by
  refine Local.succ (m := fun env g => privUbjrContextGetc env >>= fun c =>
    privUbjrReadToPtr env g (privUbjrTypeFromChar c)) (fun _ _ => rfl) ?_
  refine local_getc.bind (fun c => h.toPtr _) ?_
  intro a b n₁ k₁ n₂ k₂ h₁ h₂
  unfold Took at h₂ ⊢
  omega

theorem LocalAt.integer_succ : Local privUbjwReadInteger (fuel + 1) Took :=
  Local.succ (fun _ _ => rfl) (h.dynamic.took_map UbjrDynamic.toInteger)

theorem LocalAt.toPtr_succ (typ : UbjType) :
    Local (fun env g => privUbjrReadToPtr env g typ) (fuel + 1) Took := by
  have hconst : Local (fun _ _ => (Pure.pure (fixedToDynamic typ 0) : UbjrM UbjrDynamic)) fuel Took :=
    Local.pure _ (Nat.le_refl _)
  cases typ with
  | mixed => exact Local.succ (fun _ _ => rfl) h.dynamic
  | string => exact Local.succ (fun _ _ => rfl) (h.integer.seq (fun n => local_readText .string n))
  | highPrecision =>
    exact Local.succ (fun _ _ => rfl) (h.integer.seq (fun n => local_readText .highPrecision n))
  | char => exact Local.succ (fun _ _ => rfl) (local_readText .char 1)
  | int8 => exact Local.succ (fun _ _ => rfl) (local_read1b.took_map (fixedToDynamic .int8))
  | uint8 => exact Local.succ (fun _ _ => rfl) (local_read1b.took_map (fixedToDynamic .uint8))
  | int16 => exact Local.succ (fun _ _ => rfl) (local_read2b.took_map (fixedToDynamic .int16))
  | int32 => exact Local.succ (fun _ _ => rfl) (local_read4b.took_map (fixedToDynamic .int32))
  | float32 => exact Local.succ (fun _ _ => rfl) (local_read4b.took_map (fixedToDynamic .float32))
  | int64 => exact Local.succ (fun _ _ => rfl) (local_read8b.took_map (fixedToDynamic .int64))
  | float64 => exact Local.succ (fun _ _ => rfl) (local_read8b.took_map (fixedToDynamic .float64))
  | array => exact Local.succ (fun _ _ => rfl) h.rawArray
  | object => exact Local.succ (fun _ _ => rfl) h.rawObject
  | nullType => exact Local.succ (fun _ _ => rfl) hconst
  | noop => exact Local.succ (fun _ _ => rfl) hconst
  | boolTrue => exact Local.succ (fun _ _ => rfl) hconst
  | boolFalse => exact Local.succ (fun _ _ => rfl) hconst
  | numTypes => exact Local.succ (fun _ _ => rfl) hconst

theorem LocalAt.containerSize_succ (typ : UbjType) (c : UInt8) :
    Local (fun env g => readContainerSize env g typ c) (fuel + 1)
      (fun params n k => k ≤ n ∧ (params.2 ≠ 0 → 0 < n)) := by
  by_cases hc : c = 0x23
  · refine Local.succ (m := fun env g => privUbjrContextGetc env >>= fun _ =>
      privUbjwReadInteger env g >>= fun n => Pure.pure (typ, (n % 2 ^ 64).toNat))
      (fun env g => by rw [readContainerSize, if_pos hc]) ?_
    refine local_getc.bind (fun _ => h.integer.took_map fun n => (typ, (n % 2 ^ 64).toNat)) ?_
    intro a b n₁ k₁ n₂ k₂ h₁ h₂
    unfold Took at h₂
    omega
  · refine Local.succ (m := fun _ _ => Pure.pure (typ, 0))
      (fun env g => by rw [readContainerSize, if_neg hc]) ?_
    exact Local.pure _ ⟨Nat.le_refl _, fun hne => absurd rfl hne⟩

theorem LocalAt.params_succ : Local privReadContainerParams (fuel + 1)
    (fun params n k => k ≤ n + 1 ∧ (params.2 ≠ 0 → k ≤ n)) := by
  refine Local.succ (m := fun env g => privUbjrContextPeek env >>= fun c =>
    if c = 0x24 then
      privUbjrContextGetc env >>= fun _ => privUbjrContextGetc env >>= fun t =>
        privUbjrContextPeek env >>= fun c => readContainerSize env g (privUbjrTypeFromChar t) c
    else readContainerSize env g .mixed c) (fun _ _ => rfl) ?_
  have hpeeked : ∀ t, Local (fun env g => privUbjrContextPeek env >>= fun c =>
      readContainerSize env g (privUbjrTypeFromChar t) c) fuel
      (fun params n k => k ≤ n + 1 ∧ (params.2 ≠ 0 → k ≤ n)) := by
    intro t
    refine local_peek.bind (fun c => h.containerSize _ c) ?_
    intro a b n₁ k₁ n₂ k₂ h₁ h₂
    omega
  have htyped : Local (fun env g => privUbjrContextGetc env >>= fun _ =>
      privUbjrContextGetc env >>= fun t => privUbjrContextPeek env >>= fun c =>
        readContainerSize env g (privUbjrTypeFromChar t) c) fuel
      (fun params n k => 0 < n ∧ k ≤ n + 1 ∧ (params.2 ≠ 0 → k ≤ n)) := by
    refine local_getc.bind (q := fun _ params n k => k ≤ n + 1 ∧ (params.2 ≠ 0 → k ≤ n))
      (fun _ => ?_) ?_
    · refine local_getc.bind hpeeked ?_
      intro a b n₁ k₁ n₂ k₂ h₁ h₂
      omega
    · intro a b n₁ k₁ n₂ k₂ h₁ h₂
      omega
  refine local_peek.bind (q := fun _ params n k =>
    k ≤ n + 1 ∧ (params.2 ≠ 0 → k ≤ n ∧ 0 < n)) (fun c => Local.ite (fun _ => ?_) (fun _ => ?_)) ?_
  · exact htyped.mono (fun params n k h => by omega)
  · exact (h.containerSize .mixed c).mono (fun params n k h => by omega)
  · intro a b n₁ k₁ n₂ k₂ h₁ h₂
    omega

theorem LocalAt.dims_succ (ndims size : Nat) :
    Local (fun env g => readDims env g ndims size) (fuel + 1) Took := by
  cases ndims with
  | zero => exact Local.succ (fun _ _ => rfl) (Local.pure size (Nat.le_refl _))
  | succ ndims =>
    refine Local.succ (m := fun env g => privUbjwReadInteger env g >>= fun d =>
      readDims env g ndims (size * (d % 2 ^ 64).toNat % 2 ^ 64)) (fun _ _ => rfl) ?_
    exact h.integer.seq (fun d => h.dims ndims _)

theorem LocalAt.arraySize_succ (typ : UbjType) (size : Nat) :
    Local (fun env g => readArraySize env g typ size) (fuel + 1)
      (fun res n k => k ≤ n + 1 ∧ (res ≠ 0 → k ≤ n ∧ (size = 0 → 0 < n))) := by
  by_cases hsize : typ ≠ .mixed ∧ size = 0
  · refine Local.succ (m := fun env g => privUbjrContextPeek env >>= fun c =>
      if c = 0x40 then
        privUbjrContextGetc env >>= fun _ => privUbjrContextGetc env >>= fun ndims =>
          readDims env g ndims.toNat 1
      else Pure.pure size) (fun env g => by rw [readArraySize, if_pos hsize]) ?_
    refine local_peek.bind (q := fun _ res n k => k ≤ n ∧ (res ≠ 0 → 0 < n))
      (fun c => Local.ite (fun _ => ?_) (fun _ => ?_)) ?_
    · refine local_getc.bind (q := fun _ => Took) (fun _ => ?_) ?_
      · refine local_getc.bind (fun ndims => h.dims _ 1) ?_
        intro a b n₁ k₁ n₂ k₂ h₁ h₂
        unfold Took at h₂ ⊢
        omega
      · intro a b n₁ k₁ n₂ k₂ h₁ h₂
        unfold Took at h₂
        omega
    · exact Local.pure _ ⟨Nat.le_refl _, fun hne => absurd hsize.2 hne⟩
    · intro a b n₁ k₁ n₂ k₂ h₁ h₂
      omega
  · refine Local.succ (m := fun _ _ => Pure.pure size)
      (fun env g => by rw [readArraySize, if_neg hsize]) ?_
    exact Local.pure _ ⟨Nat.zero_le _, fun hne => ⟨Nat.le_refl _, fun h0 => absurd h0 hne⟩⟩

theorem LocalAt.count_succ (count : Nat) (typ : UbjType) :
    Local (fun env g => readCount env g count typ) (fuel + 1) Took := by
  cases count with
  | zero => exact Local.succ (fun _ _ => rfl) (Local.pure [] (Nat.le_refl _))
  | succ count =>
    refine Local.succ (m := fun env g => privUbjrReadToPtr env g typ >>= fun d =>
      readCount env g count typ >>= fun ds => Pure.pure (d :: ds)) (fun _ _ => rfl) ?_
    exact (h.toPtr typ).seq (fun d => (h.count count typ).took_map _)

theorem LocalAt.untl_succ (close : UInt8) (typ : UbjType) :
    Local (fun env g => readUntil env g close typ) (fuel + 1) (fun _ n k => k ≤ n ∧ 0 < n) := by
  refine Local.succ (m := fun env g => privUbjrContextPeek env >>= fun c =>
    if c = close then privUbjrContextGetc env >>= fun _ => Pure.pure []
    else privUbjrReadToPtr env g typ >>= fun d =>
      readUntil env g close typ >>= fun ds => Pure.pure (d :: ds)) (fun _ _ => rfl) ?_
  refine local_peek.bind (q := fun _ _ n k => k ≤ n ∧ 0 < n)
    (fun c => Local.ite (fun _ => ?_) (fun _ => ?_)) ?_
  · refine local_getc.map (fun _ => []) ?_
    intro a n k h
    omega
  · have hrest : ∀ d, Local (fun env g => readUntil env g close typ >>= fun ds =>
        Pure.pure (d :: ds)) fuel (fun _ n k => k ≤ n ∧ 0 < n) := by
      intro d
      refine (h.untl close typ).map (fun ds => d :: ds) ?_
      intro a n k h
      omega
    refine (h.toPtr typ).bind hrest ?_
    intro a b n₁ k₁ n₂ k₂ h₁ h₂
    unfold Took at h₁
    omega
  · intro a b n₁ k₁ n₂ k₂ h₁ h₂
    omega

theorem LocalAt.key_succ : Local readKey (fuel + 1) Took := by
  refine Local.succ (fun env g => readKey.eq_2 env g) ?_
  refine (h.toPtr .string).seq (fun d => ?_)
  cases d with
  | text typ s => exact Local.pure _ (Nat.le_refl _)
  | _ => exact Local.pure _ (Nat.le_refl _)

theorem LocalAt.fieldsUntil_succ (typ : UbjType) :
    Local (fun env g => readFieldsUntil env g typ) (fuel + 1) (fun _ n k => k ≤ n ∧ 0 < n) := by
  refine Local.succ (m := fun env g => privUbjrContextPeek env >>= fun c =>
    if c = 0x7D then privUbjrContextGetc env >>= fun _ => Pure.pure []
    else readKey env g >>= fun key => privUbjrReadToPtr env g typ >>= fun d =>
      readFieldsUntil env g typ >>= fun fs => Pure.pure ((key, d) :: fs)) (fun _ _ => rfl) ?_
  refine local_peek.bind (q := fun _ _ n k => k ≤ n ∧ 0 < n)
    (fun c => Local.ite (fun _ => ?_) (fun _ => ?_)) ?_
  · refine local_getc.map (fun _ => []) ?_
    intro a n k h
    omega
  · have hrest : ∀ key, Local (fun env g => privUbjrReadToPtr env g typ >>= fun d =>
        readFieldsUntil env g typ >>= fun fs => Pure.pure ((key, d) :: fs)) fuel
        (fun _ n k => k ≤ n ∧ 0 < n) := by
      intro key
      refine (h.toPtr typ).bind (q := fun _ _ n k => k ≤ n ∧ 0 < n)
        (fun d => (h.fieldsUntil typ).map (fun fs => (key, d) :: fs) ?_) ?_
      · intro a n k h
        omega
      · intro a b n₁ k₁ n₂ k₂ h₁ h₂
        unfold Took at h₁
        omega
    refine h.key.bind hrest ?_
    intro a b n₁ k₁ n₂ k₂ h₁ h₂
    unfold Took at h₁
    omega
  · intro a b n₁ k₁ n₂ k₂ h₁ h₂
    omega

theorem LocalAt.fieldsCount_succ (count : Nat) (typ : UbjType) :
    Local (fun env g => readFieldsCount env g count typ) (fuel + 1) Took := by
  cases count with
  | zero => exact Local.succ (fun _ _ => rfl) (Local.pure [] (Nat.le_refl _))
  | succ count =>
    refine Local.succ (m := fun env g => readKey env g >>= fun key =>
      privUbjrReadToPtr env g typ >>= fun d =>
        readFieldsCount env g count typ >>= fun fs => Pure.pure ((key, d) :: fs))
      (fun _ _ => rfl) ?_
    exact h.key.seq (fun key => (h.toPtr typ).seq fun d => (h.fieldsCount count typ).took_map _)

omit h in
theorem readArrayValues_succ (env : UbjrEnv) (g : Nat) (typ : UbjType) (size : Nat) :
    readArrayValues env (g + 1) typ size
      = if typ = .numTypes then throw .memory
        else if size = 0 then readUntil env g 0x5D typ
        else if mallocLimit ≤ ubjrTypeLocalsize typ * size + 1 then throw .memory
        else match typ with
          | .mixed | .string | .highPrecision | .char => readCount env g size typ
          | .array | .object => readRemainder (ubjrTypeLocalsize typ * size + 1) >>= fun _ =>
              Pure.pure (List.replicate size (UbjrDynamic.other typ))
          | _ => privUbjrContextRead env ((ubjiTypeSize typ).toNat * size) >>= fun block =>
              Pure.pure (readBlock typ (ubjiTypeSize typ).toNat size block) := rfl

theorem LocalAt.arrayValues_succ (typ : UbjType) (size : Nat) :
    Local (fun env g => readArrayValues env g typ size) (fuel + 1)
      (fun _ n k => k ≤ n ∧ (size = 0 → 0 < n)) := by
  by_cases htyp : typ = .numTypes
  · refine Local.succ (m := fun _ _ => throw .memory)
      (fun env g => by rw [readArrayValues_succ, if_pos htyp]) ?_
    exact Local.fail _
  by_cases hsize : size = 0
  · refine Local.succ (m := fun env g => readUntil env g 0x5D typ)
      (fun env g => by rw [readArrayValues_succ, if_neg htyp, if_pos hsize]) ?_
    exact (h.untl 0x5D typ).mono (fun a n k h => ⟨h.1, fun _ => h.2⟩)
  by_cases hroom : mallocLimit ≤ ubjrTypeLocalsize typ * size + 1
  · refine Local.succ (m := fun _ _ => throw .memory)
      (fun env g => by rw [readArrayValues_succ, if_neg htyp, if_neg hsize, if_pos hroom]) ?_
    exact Local.fail _
  have htook : ∀ {m : UbjrEnv → Nat → UbjrM (List UbjrDynamic)},
      (∀ env g, readArrayValues env (g + 1) typ size = m env g) → Local m fuel Took →
      Local (fun env g => readArrayValues env g typ size) (fuel + 1)
        (fun _ n k => k ≤ n ∧ (size = 0 → 0 < n)) := by
    intro m heq hm
    exact Local.succ heq (hm.mono (fun a n k h => ⟨h, fun h0 => absurd h0 hsize⟩))
  have hcount := h.count size typ
  have hremainder : Local (fun _ _ => readRemainder (ubjrTypeLocalsize typ * size + 1) >>= fun _ =>
      Pure.pure (List.replicate size (UbjrDynamic.other typ))) fuel Took :=
    (local_readRemainder _).took_map (fun _ => List.replicate size (UbjrDynamic.other typ))
  have hblock : Local (fun env _ => privUbjrContextRead env ((ubjiTypeSize typ).toNat * size) >>=
      fun block => Pure.pure (readBlock typ (ubjiTypeSize typ).toNat size block)) fuel Took := by
    refine (local_contextRead _).map (fun block => readBlock typ (ubjiTypeSize typ).toNat size block) ?_
    intro a n k h
    unfold Took
    omega
  have heq := fun env g => readArrayValues_succ env g typ size
  simp only [if_neg htyp, if_neg hsize, if_neg hroom] at heq
  cases typ with
  | mixed => exact htook heq hcount
  | string => exact htook heq hcount
  | highPrecision => exact htook heq hcount
  | char => exact htook heq hcount
  | array => exact htook heq hremainder
  | object => exact htook heq hremainder
  | _ => exact htook heq hblock

theorem LocalAt.objectFields_succ (typ : UbjType) (size : Nat) :
    Local (fun env g => readObjectFields env g typ size) (fuel + 1)
      (fun _ n k => k ≤ n ∧ (size = 0 → 0 < n)) := by
  by_cases htyp : typ = .numTypes
  · refine Local.succ (m := fun _ _ => throw .memory)
      (fun env g => by rw [readObjectFields, if_pos htyp]) ?_
    exact Local.fail _
  by_cases hsize : size = 0
  · refine Local.succ (m := fun env g => readFieldsUntil env g typ)
      (fun env g => by rw [readObjectFields, if_neg htyp, if_pos hsize]) ?_
    exact (h.fieldsUntil typ).mono (fun a n k h => ⟨h.1, fun _ => h.2⟩)
  by_cases hroom : mallocLimit ≤ ubjrTypeLocalsize typ * size + 1 ∨ mallocLimit ≤ 8 * size
  · refine Local.succ (m := fun _ _ => throw .memory)
      (fun env g => by rw [readObjectFields, if_neg htyp, if_neg hsize, if_pos hroom]) ?_
    exact Local.fail _
  · refine Local.succ (m := fun env g => readFieldsCount env g size typ)
      (fun env g => by rw [readObjectFields, if_neg htyp, if_neg hsize, if_neg hroom]) ?_
    exact (h.fieldsCount size typ).mono (fun a n k h => ⟨h, fun h0 => absurd h0 hsize⟩)

theorem LocalAt.rawArray_succ : Local privUbjrReadRawArray (fuel + 1) Took := by
  refine Local.succ (m := fun env g => privReadContainerParams env g >>= fun params =>
    readArraySize env g params.1 params.2 >>= fun size =>
      readArrayValues env g params.1 size >>= fun values =>
        Pure.pure (.array params.1 values)) (fun _ _ => rfl) ?_
  have hvalues : ∀ params : UbjType × Nat, Local (fun env g =>
      readArraySize env g params.1 params.2 >>= fun size =>
        readArrayValues env g params.1 size >>= fun values =>
          Pure.pure (UbjrDynamic.array params.1 values)) fuel
      (fun _ n k => k ≤ n ∧ (params.2 = 0 → 0 < n)) := by
    intro params
    refine (h.arraySize params.1 params.2).bind
      (q := fun size _ n k => k ≤ n ∧ (size = 0 → 0 < n)) (fun size =>
        (h.arrayValues params.1 size).map (fun values => UbjrDynamic.array params.1 values) ?_) ?_
    · intro a n k h
      omega
    · intro size b n₁ k₁ n₂ k₂ h₁ h₂
      by_cases hsize : size = 0
      · omega
      · omega
  refine h.params.bind hvalues ?_
  intro params b n₁ k₁ n₂ k₂ h₁ h₂
  unfold Took
  by_cases hsize : params.2 = 0
  · omega
  · omega

theorem LocalAt.rawObject_succ : Local privUbjrReadRawObject (fuel + 1) Took := by
  refine Local.succ (m := fun env g => privReadContainerParams env g >>= fun params =>
    readObjectFields env g params.1 params.2 >>= fun fields =>
      Pure.pure (.object params.1 (fields.map Prod.fst) (fields.map Prod.snd))) (fun _ _ => rfl) ?_
  refine h.params.bind (q := fun params _ n k => k ≤ n ∧ (params.2 = 0 → 0 < n)) (fun params =>
    (h.objectFields params.1 params.2).map (fun fields =>
      UbjrDynamic.object params.1 (fields.map Prod.fst) (fields.map Prod.snd)) ?_) ?_
  · intro a n k h
    omega
  · intro params b n₁ k₁ n₂ k₂ h₁ h₂
    unfold Took
    by_cases hsize : params.2 = 0
    · omega
    · omega

end

/-- One more round of the recursion. -/
theorem LocalAt.succ (h : LocalAt fuel) : LocalAt (fuel + 1) where
  dynamic := h.dynamic_succ
  integer := h.integer_succ
  toPtr := h.toPtr_succ
  containerSize := h.containerSize_succ
  params := h.params_succ
  dims := h.dims_succ
  arraySize := h.arraySize_succ
  arrayValues := h.arrayValues_succ
  rawArray := h.rawArray_succ
  objectFields := h.objectFields_succ
  rawObject := h.rawObject_succ
  untl := h.untl_succ
  count := h.count_succ
  key := h.key_succ
  fieldsUntil := h.fieldsUntil_succ
  fieldsCount := h.fieldsCount_succ

theorem localAt (fuel : Nat) : LocalAt fuel := by
  induction fuel with
  | zero => exact localAt_zero
  | succ fuel ih => exact ih.succ

/-! ## Documents that end by themselves -/

/-- **These bytes are a document of their own**: wherever they stand, whatever the memory holds and
however much deeper the parser may go, it takes them and nothing else, and has this result. -/
def Delimited (bs : Bytes) (d : UbjrDynamic) : Prop :=
  ∃ fuel, ∀ (env : UbjrEnv) (more : Nat), fuel ≤ more → Parses (ubjrReadDynamic env more) bs d

/-- **What is left proves that nothing was taken for granted.** -/
theorem delimited_of_rest {env : UbjrEnv} {fuel : Nat} {ctx ctx' : UbjrContext} {d : UbjrDynamic}
    (hrun : ubjrReadDynamic env fuel ctx = .ok (d, ctx')) (hrest : ctx'.rest ≠ []) :
    ∃ bs, ctx.rest = bs ++ ctx'.rest ∧ Delimited bs d := by
  obtain ⟨n, hdrop, hlooks⟩ := (localAt fuel).dynamic env ctx d ctx' hrun
  obtain ⟨k, hk, htook, hlooks⟩ := hlooks hrest
  have hlt : n < ctx.rest.length := by
    by_contra hge
    rw [hdrop] at hrest
    exact hrest (List.drop_eq_nil_of_le (Nat.le_of_not_lt hge))
  have hlen : (ctx.rest.take n).length = n := List.length_take_of_le (Nat.le_of_lt hlt)
  refine ⟨ctx.rest.take n, ?_, fuel, fun env' more hmore rest tr p => ?_⟩
  · rw [hdrop, List.take_append_drop]
  · have hseen : (ctx.rest.take n ++ rest).take k = ctx.rest.take k := by
      unfold Took at htook
      rw [List.take_append_of_le_length (by omega), List.take_take, Nat.min_eq_left htook]
    obtain ⟨tr', hrun'⟩ := hlooks env' more hmore (ctx.rest.take n ++ rest) tr p hseen
    refine ⟨tr', ?_⟩
    rw [hrun', List.drop_append_of_le_length (by omega), List.drop_of_length_le (by omega)]
    rfl

/-- **How to tell a document that ends by itself**: the parser leaves a byte that is put behind it,
one byte, in one memory. -/
theorem delimited_iff (bs : Bytes) (d : UbjrDynamic) :
    Delimited bs d ↔ ∃ (env : UbjrEnv) (fuel : Nat) (b : UInt8) (ctx : UbjrContext),
      ubjrReadDynamic env fuel (ubjrOpenMemory (bs ++ [b])) = .ok (d, ctx) ∧ ctx.rest = [b] := by
  constructor
  · rintro ⟨fuel, h⟩
    obtain ⟨tr, hrun⟩ := h ⟨0, fun _ => 0⟩ fuel (Nat.le_refl _) [0] 0 false
    exact ⟨_, fuel, 0, _, hrun, rfl⟩
  · rintro ⟨env, fuel, b, ctx, hrun, hrest⟩
    obtain ⟨bs', hsplit, hdelimited⟩ := delimited_of_rest hrun (by rw [hrest]; exact List.cons_ne_nil _ _)
    rw [hrest] at hsplit
    obtain rfl : bs = bs' := List.append_cancel_right hsplit
    exact hdelimited

/-! ## One document behind the other -/

/-- Words of which none begins another one can be told apart behind each other. -/
theorem uniquelyDecodable_of_prefixFree {α : Type} {S : Set (List α)} (hne : [] ∉ S)
    (hfree : ∀ u ∈ S, ∀ cs, u ++ cs ∈ S → cs = []) : InformationTheory.UniquelyDecodable S := by
  intro us
  induction us with
  | nil =>
    intro ws _ hws heq
    cases ws with
    | nil => rfl
    | cons w ws =>
      have hw : w = [] := (List.append_eq_nil_iff.mp heq.symm).1
      exact absurd (hw ▸ hws w List.mem_cons_self) hne
  | cons u us ih =>
    intro ws hus hws heq
    have hu := hus u List.mem_cons_self
    cases ws with
    | nil =>
      have hnil : u = [] := (List.append_eq_nil_iff.mp heq).1
      exact absurd (hnil ▸ hu) hne
    | cons w ws =>
      have hw := hws w List.mem_cons_self
      rw [List.flatten_cons, List.flatten_cons] at heq
      -- one of the first words begins the other one
      have hsame : u = w := by
        rcases List.append_eq_append_iff.mp heq with ⟨cs, hcs, -⟩ | ⟨cs, hcs, -⟩
        · rw [hcs, hfree u hu cs (hcs ▸ hw), List.append_nil]
        · rw [hcs, hfree w hw cs (hcs ▸ hu), List.append_nil]
      subst hsame
      rw [ih ws (fun v hv => hus v (List.mem_cons_of_mem _ hv))
        (fun v hv => hws v (List.mem_cons_of_mem _ hv)) (List.append_cancel_left heq)]

/-- No document begins another one. -/
theorem Delimited.prefix_free {bs cs : Bytes} {d d' : UbjrDynamic} (h : Delimited bs d)
    (h' : Delimited (bs ++ cs) d') : cs = [] ∧ d = d' := by
  obtain ⟨fuel, h⟩ := h
  obtain ⟨fuel', h'⟩ := h'
  obtain ⟨tr, hrun⟩ := h ⟨0, fun _ => 0⟩ (max fuel fuel') (Nat.le_max_left _ _) cs 0 false
  obtain ⟨tr', hrun'⟩ := h' ⟨0, fun _ => 0⟩ (max fuel fuel') (Nat.le_max_right _ _) [] 0 false
  rw [List.append_nil, hrun] at hrun'
  have heq := Except.ok.inj hrun'
  exact ⟨congrArg (fun q => q.2.rest) heq, congrArg Prod.fst heq⟩

/-- A document has at least its marker. -/
theorem Delimited.ne_nil {bs : Bytes} {d : UbjrDynamic} (h : Delimited bs d) : bs ≠ [] := by
  rintro rfl
  obtain ⟨fuel, h⟩ := h
  obtain ⟨tr, hrun⟩ := h ⟨0, fun _ => 0⟩ (fuel + 2) (by omega) [0x5A] 0 false
  have hnull : ubjrReadDynamic ⟨0, fun _ => 0⟩ (fuel + 2) ⟨[0x5A], 0, false⟩
      = .ok (.null, ⟨[], 1, false⟩) := rfl
  rw [List.nil_append, hnull] at hrun
  have hrest : ([] : Bytes) = [0x5A] := congrArg (fun q => q.2.rest) (Except.ok.inj hrun)
  cases hrest

theorem delimited_encode {v : Value} (hv : RoundTrip v) (hlen : (encode v).length < 2 ^ 32) :
    Delimited (encode v) (dynOf v) :=
  ⟨fuelOf v, fun _ _ hmore => parses_encode v hv hlen hmore⟩

/-- **Documents can be written one behind the other.** The bytes of a document begin those of no
other one, so a sequence of documents is determined by their bytes alone, without a length or a
separator; and what the writer makes of its documents are such bytes, different ones for
different documents. -/
theorem documents_apart :
    InformationTheory.UniquelyDecodable {bs : Bytes | ∃ d, Delimited bs d}
      ∧ Set.MapsTo Writer.write {v | Document v} {bs : Bytes | ∃ d, Delimited bs d}
      ∧ Set.InjOn Writer.write {v | Document v} := by
  have hwrite : ∀ v, Document v → Writer.write v = encode v := by
    intro v hv
    have hcollect := collect_eq_encode hv.roundTrip hv.root (Nat.lt_succ_of_le hv.depth_le)
    exact (write_eq_encode hv.roundTrip hv.root hv.depth_le
      (by rw [hcollect]; exact hv.length_lt)).1
  refine ⟨uniquelyDecodable_of_prefixFree ?_ ?_, ?_, ?_⟩
  · rintro ⟨d, hd⟩
    exact hd.ne_nil rfl
  · rintro u ⟨d, hd⟩ cs ⟨d', hd'⟩
    exact (hd.prefix_free hd').1
  · intro v hv
    rw [hwrite v hv]
    exact ⟨dynOf v, delimited_encode hv.roundTrip hv.length_lt⟩
  · intro v hv w hw heq
    have heq' : encode w = encode v ++ [] := by
      rw [List.append_nil, ← hwrite v hv, ← hwrite w hw]
      exact heq.symm
    have hdelimited := delimited_encode hw.roundTrip hw.length_lt
    rw [heq'] at hdelimited
    have hdyn := (delimited_encode hv.roundTrip hv.length_lt).prefix_free hdelimited
    rw [← readDynamic_dynOf v hv.roundTrip, hdyn.2, readDynamic_dynOf w hw.roundTrip]

end Zway.Ubj
