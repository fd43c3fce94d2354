import Mathlib.Data.List.Basic

/-!
# Runs of a system that takes steps

A system is a function that takes a state and an event to the next state, if the event
may happen there. Events of several parties are one type, so a run is a list of events,
and its order is how the parties are interleaved. What one step preserves holds after
every run: `run_invariant`.
-/

namespace Zway.Steps

variable {σ ε : Type} (step : σ → ε → Option σ)

/-- The state after some events. -/
def run (s : σ) (es : List ε) : Option σ := es.foldlM step s

/-- Every step of a run meets a condition on the state before it. -/
def Meets (good : σ → ε → Prop) : σ → List ε → Prop
  | _, [] => True
  | s, e :: es => good s e ∧ ∀ s', step s e = some s' → Meets good s' es

variable {step}

theorem run_cons_eq_some {s s' : σ} {e : ε} {es : List ε} :
    run step s (e :: es) = some s' ↔ ∃ s₁, step s e = some s₁ ∧ run step s₁ es = some s' := by
  unfold run
  rw [List.foldlM_cons]
  exact Option.bind_eq_some_iff

/-- A run goes on where another has ended. -/
theorem run_append {s s₁ s' : σ} {es es' : List ε} (h : run step s es = some s₁)
    (h' : run step s₁ es' = some s') : run step s (es ++ es') = some s' := by
  unfold run at h h' ⊢
  rw [List.foldlM_append, h]
  exact h'

theorem Meets.cons {good : σ → ε → Prop} {s s' : σ} {e : ε} {es : List ε} (hgood : good s e)
    (hstep : step s e = some s') (h : Meets step good s' es) : Meets step good s (e :: es) :=
  ⟨hgood, fun _ hnext => Option.some.inj (hstep.symm.trans hnext) ▸ h⟩

/-- Events that meet the condition everywhere. -/
theorem meets_of_forall {good : σ → ε → Prop} : ∀ {es : List ε} {s : σ},
    (∀ e ∈ es, ∀ s, good s e) → Meets step good s es
  | [], _, _ => trivial
  | e :: _, s, h =>
      ⟨h e (List.mem_cons_self ..) s, fun _ _ =>
        meets_of_forall (fun e' he => h e' (List.mem_cons_of_mem _ he))⟩

theorem Meets.append {good : σ → ε → Prop} {es' : List ε} : ∀ {es : List ε} {s : σ},
    Meets step good s es → (∀ s', run step s es = some s' → Meets step good s' es') →
    Meets step good s (es ++ es')
  | [], s, _, h => h s rfl
  | _ :: _, _, hmeets, h =>
      ⟨hmeets.1, fun s₁ hfirst => (hmeets.2 s₁ hfirst).append
        (fun s' hrun => h s' (run_cons_eq_some.mpr ⟨s₁, hfirst, hrun⟩))⟩

/-- What a run meets, its beginning meets. -/
theorem Meets.of_append {good : σ → ε → Prop} {es' : List ε} : ∀ {es : List ε} {s : σ},
    Meets step good s (es ++ es') → Meets step good s es
  | [], _, _ => trivial
  | _ :: _, _, hmeets => ⟨hmeets.1, fun s' hstep => (hmeets.2 s' hstep).of_append⟩

/-- The rest of a run meets it, too. -/
theorem Meets.rest {good : σ → ε → Prop} {es' : List ε} : ∀ {es : List ε} {s s' : σ},
    Meets step good s (es ++ es') → run step s es = some s' → Meets step good s' es'
  | [], s, s', hmeets, hrun => by
      obtain rfl : s = s' := Option.some.inj hrun
      exact hmeets
  | e :: es, s, s', hmeets, hrun => by
      obtain ⟨s₁, hfirst, hrest⟩ := run_cons_eq_some.mp hrun
      exact (hmeets.2 s₁ hfirst).rest hrest

theorem Meets.and {good good' : σ → ε → Prop} : ∀ {es : List ε} {s : σ},
    Meets step good s es → Meets step good' s es →
    Meets step (fun s e => good s e ∧ good' s e) s es
  | [], _, _, _ => trivial
  | _ :: _, _, h, h' =>
      ⟨⟨h.1, h'.1⟩, fun s₁ hfirst => (h.2 s₁ hfirst).and (h'.2 s₁ hfirst)⟩

/-- A run that ends, and is never in a state where only a step that does not meet the condition
leads, meets it. -/
theorem meets_of_prefixes {good : σ → ε → Prop} {Bad : σ → Prop}
    (hbad : ∀ s e s', ¬ good s e → step s e = some s' → Bad s') : ∀ {es : List ε} {s s' : σ},
    run step s es = some s' →
    (∀ es₁ s₁, es₁ <+: es → run step s es₁ = some s₁ → ¬ Bad s₁) → Meets step good s es
  | [], _, _, _, _ => trivial
  | e :: es, s, s', hrun, h => by
      obtain ⟨s₁, hfirst, hrest⟩ := run_cons_eq_some.mp hrun
      refine .cons ?_ hfirst (meets_of_prefixes hbad hrest fun es₁ s₂ hes₁ hrun₁ => ?_)
      · by_contra hgood
        refine h [e] s₁ ⟨es, rfl⟩ (run_cons_eq_some.mpr ⟨s₁, hfirst, rfl⟩) ?_
        exact hbad s e s₁ hgood hfirst
      · exact h (e :: es₁) s₂ (List.cons_prefix_cons.mpr ⟨rfl, hes₁⟩)
          (run_cons_eq_some.mpr ⟨s₁, hfirst, hrun₁⟩)

/-- **The rule of runs.** -/
theorem run_invariant_of_meets {good : σ → ε → Prop} {Inv : σ → Prop}
    (hstep : ∀ s e s', Inv s → good s e → step s e = some s' → Inv s') :
    ∀ {es : List ε} {s s' : σ}, Inv s → Meets step good s es → run step s es = some s' → Inv s'
  | [], s, s', hinv, _, hrun => by
      obtain rfl : s = s' := Option.some.inj hrun
      exact hinv
  | e :: es, s, s', hinv, hmeets, hrun => by
      obtain ⟨s₁, hfirst, hrest⟩ := run_cons_eq_some.mp hrun
      exact run_invariant_of_meets hstep (hstep s e s₁ hinv hmeets.1 hfirst)
        (hmeets.2 s₁ hfirst) hrest

/-- The rule where nothing has to be met. -/
theorem run_invariant {Inv : σ → Prop} (hstep : ∀ s e s', Inv s → step s e = some s' → Inv s') :
    ∀ {es : List ε} {s s' : σ}, Inv s → run step s es = some s' → Inv s'
  | [], s, s', hinv, hrun => by
      obtain rfl : s = s' := Option.some.inj hrun
      exact hinv
  | e :: es, s, s', hinv, hrun => by
      obtain ⟨s₁, hfirst, hrest⟩ := run_cons_eq_some.mp hrun
      exact run_invariant hstep (hstep s e s₁ hinv hfirst) hrest

/-- The rule of simulations. -/
theorem run_simulation {τ : Type} {step' : τ → ε → Option τ} {R : σ → τ → Prop}
    (hstep : ∀ s t e s', R s t → step s e = some s' → ∃ t', step' t e = some t' ∧ R s' t') :
    ∀ {es : List ε} {s s' : σ} {t : τ}, R s t → run step s es = some s' →
    ∃ t', run step' t es = some t' ∧ R s' t'
  | [], s, s', t, hr, hrun => by
      obtain rfl : s = s' := Option.some.inj hrun
      exact ⟨t, rfl, hr⟩
  | e :: es, s, s', t, hr, hrun => by
      obtain ⟨s₁, hfirst, hrest⟩ := run_cons_eq_some.mp hrun
      obtain ⟨t₁, hfirst', hr'⟩ := hstep s t e s₁ hr hfirst
      obtain ⟨t', hrest', hr''⟩ := run_simulation hstep hr' hrest
      exact ⟨t', run_cons_eq_some.mpr ⟨t₁, hfirst', hrest'⟩, hr''⟩

/-! ## Views

A machine that answers events, or stops at one that it has no answer to. Every event is some
party's. What a party sees of the machine is a view of its state. If an event is answered from the
view of its party and changes no other one, then every party sees what it would see alone, and the
machine goes through exactly where every party alone does. -/

section Views

variable {α υ ι : Type} [DecidableEq ι]

/-- The answers to some events, and the state they lead to. -/
def respond (answer : σ → ε → Option (α × σ)) : σ → List ε → Option (List (ε × α) × σ)
  | s, [] => some ([], s)
  | s, e :: es =>
      (answer s e).bind fun r =>
        (respond answer r.2 es).map fun rest => ((e, r.1) :: rest.1, rest.2)

theorem respond_cons_of_some {answer : σ → ε → Option (α × σ)} {s s' : σ} {e : ε} {a : α}
    (h : answer s e = some (a, s')) (es : List ε) :
    respond answer s (e :: es)
      = (respond answer s' es).map fun rest => ((e, a) :: rest.1, rest.2) := by
  rw [respond, h]
  rfl

theorem respond_cons_of_none {answer : σ → ε → Option (α × σ)} {s : σ} {e : ε}
    (h : answer s e = none) (es : List ε) : respond answer s (e :: es) = none := by
  rw [respond, h]
  rfl

/-- The events of one party. -/
def eventsOf (party : ε → ι) (i : ι) (es : List ε) : List ε := es.filter (fun e => party e = i)

theorem eventsOf_cons_self {party : ε → ι} {i : ι} {e : ε} (h : party e = i) (es : List ε) :
    eventsOf party i (e :: es) = e :: eventsOf party i es :=
  List.filter_cons_of_pos (decide_eq_true h)

theorem eventsOf_cons_of_ne {party : ε → ι} {i : ι} {e : ε} (h : party e ≠ i) (es : List ε) :
    eventsOf party i (e :: es) = eventsOf party i es :=
  List.filter_cons_of_neg (by simp [h])

/-- The machine of every party, on its view. -/
structure Viewed (answer : σ → ε → Option (α × σ)) (alone : υ → ε → Option (α × υ))
    (view : σ → ι → υ) (party : ε → ι) (Inv : σ → Prop) : Prop where
  /-- An answer keeps the invariant. -/
  inv : ∀ s e a s', Inv s → answer s e = some (a, s') → Inv s'
  /-- An event is answered from the view of its party. -/
  own : ∀ s e, Inv s →
    alone (view s (party e)) e = (answer s e).map fun r => (r.1, view r.2 (party e))
  /-- The others do not notice. -/
  other : ∀ s e a s', Inv s → answer s e = some (a, s') → ∀ i, i ≠ party e → view s' i = view s i

variable {answer : σ → ε → Option (α × σ)} {alone : υ → ε → Option (α × υ)} {view : σ → ι → υ}
  {party : ε → ι} {Inv : σ → Prop}

/-- **The rule of views.** -/
theorem Viewed.respond (h : Viewed answer alone view party Inv) :
    ∀ (es : List ε) {s s' : σ} {out : List (ε × α)}, Inv s →
      Steps.respond answer s es = some (out, s') → ∀ i,
      Steps.respond alone (view s i) (eventsOf party i es)
        = some (eventsOf (fun p => party p.1) i out, view s' i)
  | [], s, s', out, _, hrun, i => by
      obtain ⟨rfl, rfl⟩ := Prod.mk.inj (Option.some.inj hrun)
      rfl
  | e :: es, s, s', out, hinv, hrun, i => by
      cases ha : answer s e with
      | none =>
        rw [respond_cons_of_none ha] at hrun
        cases hrun
      | some r =>
        obtain ⟨a, s₁⟩ := r
        rw [respond_cons_of_some ha] at hrun
        obtain ⟨⟨out₁, s₂⟩, hrest, heq⟩ := Option.map_eq_some_iff.mp hrun
        obtain ⟨rfl, rfl⟩ := Prod.mk.inj heq
        have ih := h.respond es (h.inv s e a s₁ hinv ha) hrest i
        by_cases he : party e = i
        · -- an event of this party: it is answered alike
          have hown := h.own s e hinv
          rw [ha, he] at hown
          rw [eventsOf_cons_self he, eventsOf_cons_self (e := (e, a)) he,
            respond_cons_of_some hown, ih]
          rfl
        · rw [h.other s e a s₁ hinv ha i (Ne.symm he)] at ih
          rw [eventsOf_cons_of_ne he, eventsOf_cons_of_ne (e := (e, a)) he, ih]

/-- The machine stops where a party alone would, and only there. -/
theorem Viewed.respond_isSome_iff (h : Viewed answer alone view party Inv) :
    ∀ (es : List ε) {s : σ}, Inv s → ((Steps.respond answer s es).isSome = true ↔
      ∀ i, (Steps.respond alone (view s i) (eventsOf party i es)).isSome = true)
  | [], s, _ => ⟨fun _ _ => rfl, fun _ => rfl⟩
  | e :: es, s, hinv => by
      have hown := h.own s e hinv
      cases ha : answer s e with
      | none =>
        -- the party of the event stops here
        rw [ha] at hown
        rw [respond_cons_of_none ha]
        refine ⟨fun hno => absurd hno Bool.false_ne_true, fun hall => ?_⟩
        have hmine := hall (party e)
        rw [eventsOf_cons_self rfl, respond_cons_of_none hown] at hmine
        exact hmine
      | some r =>
        obtain ⟨a, s₁⟩ := r
        rw [ha] at hown
        have ih := h.respond_isSome_iff es (h.inv s e a s₁ hinv ha)
        rw [respond_cons_of_some ha, Option.isSome_map, ih]
        refine forall_congr' fun i => ?_
        by_cases he : party e = i
        · subst he
          rw [eventsOf_cons_self rfl, respond_cons_of_some hown, Option.isSome_map]
        · rw [eventsOf_cons_of_ne he, h.other s e a s₁ hinv ha i (Ne.symm he)]

end Views

end Zway.Steps
