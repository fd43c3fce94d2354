import Zway.Lib.VirtualTable
import Zway.Store.Where

/-!
# Queries without alternatives

A query whose fields are all names of columns is a list of comparisons that have to hold: one for
each field, with the first operator of the field or with its value. `parseWhere_names` reads this
from the text of the query, and `all_termsOf` says when a row meets it.
-/

namespace Zway.Ubj.Store

open Sql

/-! ## What an entry compares -/

/-- The first operator, and what stands behind it. -/
def firstTerm (fields : Object) : List (Bytes × Bytes) → CmpOp × Value
  | [] => (.eq, .object fields)
  | (op, _) :: rest =>
      match OrdMap.find? fields op with
      | some v => (cmpOf op, v)
      | none => firstTerm fields rest

/-- The comparison that an entry stands for. -/
def termOf : Value → CmpOp × Value
  | .object (field :: fields) => firstTerm (field :: fields) ops
  | v => (.eq, v)

/-- The comparisons of a query, with the numbers of their parameters. -/
def termsOf : Nat → Object → List (Bytes × CmpOp × Nat)
  | _, [] => []
  | k, (key, v) :: rest => (key, (termOf v).1, k) :: termsOf (k + 1) rest

theorem mem_termsOf {t : Bytes × CmpOp × Nat} : ∀ {q : Object} {k : Nat}, t ∈ termsOf k q →
    ∃ f ∈ q, t.1 = f.1
  | (key, v) :: rest, k, h => by
      rcases List.mem_cons.mp h with rfl | h
      · exact ⟨_, List.mem_cons_self .., rfl⟩
      · obtain ⟨f, hf, hkey⟩ := mem_termsOf h
        exact ⟨f, List.mem_cons_of_mem _ hf, hkey⟩

theorem firstTerm_of_hasOp (key : Bytes) {fields : Object} : ∀ {table : List (Bytes × Bytes)},
    table.any (fun op => (OrdMap.find? fields op.1).isSome) = true →
    ∃ p ∈ table, (firstTerm fields table).1 = cmpOf p.1
      ∧ firstOp key fields table = (key ++ p.2, [(firstTerm fields table).2])
  | (op, text) :: rest, h => by
      rw [firstOp, firstTerm]
      cases hv : OrdMap.find? fields op with
      | some v => exact ⟨(op, text), List.mem_cons_self .., rfl, rfl⟩
      | none =>
        rw [List.any_cons] at h
        dsimp only at h
        rw [hv, Option.isSome_none, Bool.false_or] at h
        obtain ⟨p, hp, hfirst⟩ := firstTerm_of_hasOp key h
        exact ⟨p, List.mem_cons_of_mem _ hp, hfirst⟩

/-- The text of an entry is its comparison. -/
theorem whereEntry_eq {key : Bytes} {v : Value} (h : isName key = true)
    (hv : completeEntry key v = true) :
    ∃ text, IsOperator text (termOf v).1 ∧ whereEntry key v = (key ++ text, [(termOf v).2]) := by
  cases v with
  | array items =>
    rw [completeEntry, Bool.and_eq_true, Bool.and_eq_true] at hv
    have hor : key = lit "$or" := of_decide_eq_true hv.1.1
    exact absurd (hor ▸ h) not_named_or
  | buffer data => cases hv
  | object fields =>
    cases fields with
    | nil => exact ⟨_, isOperator_eq, rfl⟩
    | cons field fields =>
      obtain ⟨p, hp, hop, hfirst⟩ := firstTerm_of_hasOp key hv
      refine ⟨p.2, ?_, hfirst⟩
      show IsOperator p.2 (firstTerm (field :: fields) ops).1
      rw [hop]
      exact isOperator_ops p hp
  | _ => exact ⟨_, isOperator_eq, rfl⟩

theorem Named.wellNamed : ∀ {q : Object}, Named q → WellNamed q
  | [], _ => trivial
  | (key, v) :: rest, h => by
      refine ⟨?_, h.tail.wellNamed⟩
      cases v with
      | array items => exact .inl h.head
      | _ => exact h.head

/-! ## What the text says -/

theorem run_entry {key : Bytes} {v : Value} (h : isName key = true)
    (hv : completeEntry key v = true) {r : Reading} (hr : r.part = .operand) :
    r.run (whereEntry key v).1 = some
      { r with
        level := r.level.push (.compare key (termOf v).1 r.params)
        part := .done
        params := r.params + 1 } := by
  obtain ⟨text, ⟨c, cs, t, rfl, hc, hscan, hop⟩, hentry⟩ := whereEntry_eq h hv
  rw [hentry]
  exact run_compare h hc hscan hop hr

/-- **The comparisons are read one after the other.** -/
theorem run_wherePart : ∀ {q : Object}, Named q → complete q = true →
    ∀ {r : Reading}, r.part = .operand → r.run (wherePart q).1 = some
      { r with
        level := { r.level with ands := conj r.level.ands (termsOf r.params q) }
        part := .done
        params := r.params + q.length }
  | [(key, v)], h, hq, r, hr => by
      rw [complete] at hq
      rw [wherePart, run_entry h.head hq hr]
      rfl
  | (key, v) :: f :: rest, h, hq, r, hr => by
      rw [complete, Bool.and_eq_true] at hq
      · have hwhole : Whole (whereEntry key v).1 := whole_whereEntry h.wellNamed.1
        have htext : (wherePart ((key, v) :: f :: rest)).1
            = (whereEntry key v).1 ++ lit " AND " ++ (wherePart (f :: rest)).1 := by
          rw [wherePart]
          exact List.cons_ne_nil _ _
        rw [htext, Reading.run_append (hwhole.append whole_and), Reading.run_append hwhole,
          run_entry h.head hq.1 hr, Option.bind_some, run_and rfl, Option.bind_some,
          run_wherePart h.tail hq.2 rfl]
        have hlen : r.params + 1 + (f :: rest).length = r.params + ((key, v) :: f :: rest).length := by
          rw [List.length_cons (a := (key, v))]
          omega
        rw [hlen]
        rfl
      · exact List.cons_ne_nil _ _

/-- **The condition of a query for columns.** -/
theorem parseWhere_names (k : Nat) {q : Object} (h : Named q) (hq : complete q = true) :
    parseWhere k (tokens (whereText q)) = some (conj none (termsOf k q)) := by
  have hrun := run_wherePart h hq (r := Reading.init k) rfl
  have hne : (wherePart q).1.isEmpty = false := by
    cases htext : (wherePart q).1 with
    | nil =>
      rw [htext] at hrun
      cases congrArg Reading.part (Option.some.inj hrun)
    | cons c cs => rfl
  cases q with
  | nil => cases hq
  | cons f rest =>
    obtain ⟨c, hc⟩ := exists_conj (termsOf (k + 1) rest) (.compare f.1 (termOf f.2).1 k)
    have hcond : conj none (termsOf k (f :: rest)) = some c := hc
    unfold whereText
    rw [hne, if_neg Bool.false_ne_true, parseWhere_text, parseCond_eq (whole_wherePart h.wellNamed),
      hrun, Option.bind_some]
    unfold Reading.result Level.cond
    rw [if_pos ⟨rfl, rfl⟩]
    show Option.map some (Option.map _ (conj none (termsOf k (f :: rest)))) = _
    rw [hcond]
    rfl

/-- The values that are bound. -/
theorem wherePart_snd : ∀ {q : Object}, Named q → complete q = true →
    (wherePart q).2 = q.map (fun f => (termOf f.2).2)
  | [(key, v)], h, hq => by
      rw [complete] at hq
      obtain ⟨text, -, hentry⟩ := whereEntry_eq h.head hq
      rw [wherePart, hentry]
      rfl
  | (key, v) :: f :: rest, h, hq => by
      rw [complete, Bool.and_eq_true] at hq
      · obtain ⟨text, -, hentry⟩ := whereEntry_eq h.head hq.1
        have hrest := wherePart_snd h.tail hq.2
        have hsnd : (wherePart ((key, v) :: f :: rest)).2
            = (whereEntry key v).2 ++ (wherePart (f :: rest)).2 := by
          rw [wherePart]
          exact List.cons_ne_nil _ _
        rw [hsnd, hentry, hrest]
        rfl
      · exact List.cons_ne_nil _ _

/-- The comparisons hold if each field has the value that is bound for it. -/
theorem all_termsOf {bound : List Value} (holds : Bytes → CmpOp → Value → Bool) :
    ∀ {q : Object} {k : Nat}, bound.drop k = q.map (fun f => (termOf f.2).2) →
    (termsOf k q).all (fun t => holds t.1 t.2.1 (bound.getD t.2.2 .null))
      = q.all (fun f => holds f.1 (termOf f.2).1 (termOf f.2).2)
  | [], _, _ => rfl
  | (key, v) :: rest, k, h => by
      have hhead : bound.getD k .null = (termOf v).2 := by
        rw [List.getD_eq_getElem?_getD, ← List.head?_drop, h]
        rfl
      have htail : bound.drop (k + 1) = rest.map (fun f => (termOf f.2).2) := by
        rw [← List.drop_drop, h]
        rfl
      rw [termsOf, List.all_cons, List.all_cons, all_termsOf holds htail, hhead]

end Zway.Ubj.Store
