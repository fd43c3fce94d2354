import Mathlib.Data.List.Perm.Basic
import Mathlib.Data.Set.Card
import Zway.Lib.Run

/-!
# Records with keys, and what calls reply

A store of records is a map from keys to records. Its specification is a relation: what
a call may reply, and what it makes of the records. A system that replies to calls keeps
to the specification if every call does: `allowed_history`.
-/

namespace Zway

/-! ## Histories -/

namespace Steps

variable {σ τ ε ρ : Type} (perform : σ → ε → ρ × σ)

/-- The replies to some calls, and the state after them. -/
def history : σ → List ε → List (ε × ρ) × σ
  | s, [] => ([], s)
  | s, e :: es =>
      let r := perform s e
      let rest := history r.2 es
      ((e, r.1) :: rest.1, rest.2)

/-- A call is a step that may always happen. -/
def performed (s : σ) (e : ε) : Option σ := some (perform s e).2

variable {perform}

theorem run_performed : ∀ (s : σ) (es : List ε),
    run (performed perform) s es = some (history perform s es).2
  | _, [] => rfl
  | s, e :: es => run_cons_eq_some.mpr ⟨_, rfl, run_performed (perform s e).2 es⟩

section

variable {perform' : τ → ε → ρ × τ} {good : τ → ε → Prop} {R : σ → τ → Prop}

/-- **The rule of refinements.** Calls are answered as an abstract machine answers them, as long as it
meets a condition. -/
theorem history_refines (hstep : ∀ s t e, R s t → good t e →
      (perform s e).1 = (perform' t e).1 ∧ R (perform s e).2 (perform' t e).2) :
    ∀ {es : List ε} {s : σ} {t : τ}, R s t → Meets (performed perform') good t es →
      (history perform s es).1 = (history perform' t es).1
        ∧ R (history perform s es).2 (history perform' t es).2
  | [], _, _, hr, _ => ⟨rfl, hr⟩
  | e :: es, s, t, hr, hmeets => by
      obtain ⟨hreply, hr'⟩ := hstep s t e hr hmeets.1
      obtain ⟨hrest, hr''⟩ := history_refines hstep hr' (hmeets.2 _ rfl)
      refine ⟨?_, hr''⟩
      rw [history, history]
      dsimp only
      rw [hreply, hrest]

/-- The replies to calls that may have no result, if all of them have one. -/
def attempts (attempt : σ → ε → Option (ρ × σ)) : σ → List ε → Option (List (ε × ρ) × σ)
  | s, [] => some ([], s)
  | s, e :: es =>
      (attempt s e).bind (fun r => (attempts attempt r.2 es).map
        (fun rest => ((e, r.1) :: rest.1, rest.2)))

/-- The rule for such calls: all of them have a result. -/
theorem attempts_refines {attempt : σ → ε → Option (ρ × σ)}
    (hstep : ∀ s t e, R s t → good t e →
      ∃ s', attempt s e = some ((perform' t e).1, s') ∧ R s' (perform' t e).2) :
    ∀ {es : List ε} {s : σ} {t : τ}, R s t → Meets (performed perform') good t es →
      ∃ s', attempts attempt s es = some ((history perform' t es).1, s')
        ∧ R s' (history perform' t es).2
  | [], s, _, hr, _ => ⟨s, rfl, hr⟩
  | e :: es, s, t, hr, hmeets => by
      obtain ⟨s₁, hattempt, hr'⟩ := hstep s t e hr hmeets.1
      obtain ⟨s', hrest, hr''⟩ := attempts_refines hstep hr' (hmeets.2 _ rfl)
      refine ⟨s', ?_, hr''⟩
      rw [attempts, hattempt, Option.bind_some, hrest]
      rfl

end

end Steps

/-! ## Records -/

namespace Records

variable {κ α : Type}

/-- Change the records with some keys; where `f` gives nothing, they are removed. -/
noncomputable def change (s : κ → Option α) (keys : Set κ) (f : α → Option α) : κ → Option α :=
  open Classical in fun k => if k ∈ keys then (s k).bind f else s k

/-- The records of some kind. -/
def ofKind (kind : α → Prop) [DecidablePred kind] (s : κ → Option α) : κ → Option α :=
  fun k => (s k).filter (fun a => decide (kind a))

/-- A list has each of some keys once. -/
def Enumerates (l : List κ) (keys : Set κ) : Prop := l.Nodup ∧ ∀ k, k ∈ l ↔ k ∈ keys

theorem change_of_mem {s : κ → Option α} {keys : Set κ} {f : α → Option α} {k : κ}
    (h : k ∈ keys) : change s keys f k = (s k).bind f := if_pos h

theorem change_of_notMem {s : κ → Option α} {keys : Set κ} {f : α → Option α} {k : κ}
    (h : k ∉ keys) : change s keys f k = s k := if_neg h

theorem Enumerates.ncard {l : List κ} {keys : Set κ} (h : Enumerates l keys) :
    keys.ncard = l.length := by
  classical
  have hset : keys = (l.toFinset : Set κ) := by
    ext k
    rw [List.coe_toFinset]
    exact (h.2 k).symm
  rw [hset, Set.ncard_coe_finset, List.toFinset_card_of_nodup h.1]

/-- Two lists of the same keys. -/
theorem Enumerates.perm {l l' : List κ} {keys : Set κ} (h : Enumerates l keys)
    (h' : Enumerates l' keys) : l.Perm l' :=
  (List.perm_ext_iff_of_nodup h.1 h'.1).mpr (fun k => (h.2 k).trans (h'.2 k).symm)

/-- **Records of another kind stay** if records of that kind are neither changed nor made. -/
theorem ofKind_change {kind : α → Prop} [DecidablePred kind] {s : κ → Option α} {keys : Set κ}
    {f : α → Option α} (hold : ∀ k ∈ keys, ∀ a, s k = some a → ¬ kind a)
    (hnew : ∀ k ∈ keys, ∀ a, s k = some a → ∀ a', f a = some a' → ¬ kind a') :
    ofKind kind (change s keys f) = ofKind kind s := by
  funext k
  by_cases hk : k ∈ keys
  · unfold ofKind
    rw [change_of_mem hk]
    cases ha : s k with
    | none => rfl
    | some a =>
      rw [Option.bind_some, Option.filter_some_neg (by simpa using hold k hk a ha)]
      cases ha' : f a with
      | none => rfl
      | some a' => exact Option.filter_some_neg (by simpa using hnew k hk a ha a' ha')
  · unfold ofKind
    rw [change_of_notMem hk]

/-- A new record of another kind. -/
theorem ofKind_update [DecidableEq κ] {kind : α → Prop} [DecidablePred kind] {s : κ → Option α}
    {k : κ} (hnew : s k = none) {a : α} (hkind : ¬ kind a) :
    ofKind kind (Function.update s k (some a)) = ofKind kind s := by
  funext k'
  unfold ofKind
  by_cases hk : k' = k
  · rw [hk, Function.update_self, hnew, Option.filter_some_neg (by simpa using hkind)]
    rfl
  · rw [Function.update_of_ne hk]

end Records

end Zway
