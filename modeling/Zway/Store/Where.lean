import Zway.Store.ActionProof

/-!
# Conditions

What `Action::wherePart` makes of a query, and what it should make of it. A query is a
tree of fields and alternatives; its text is read back with `Zway.Sql`. The loop puts
an `AND` behind every entry but the last one, also behind one for which it puts down
nothing, and of several operators on a field it takes the first. So the text is a
condition exactly if every entry has a term, and then it says what the terms say:
`whereMeaning_iff`.
-/

namespace Zway.Ubj.Store

open Sql

/-! ## Queries -/

/-- The comparison that an operator stands for. -/
def cmpOf (op : Bytes) : CmpOp :=
  if op = lit "$ge" then .ge
  else if op = lit "$gt" then .gt
  else if op = lit "$le" then .le
  else if op = lit "$like" then .like
  else if op = lit "$lt" then .lt
  else if op = lit "$ne" then .ne
  else .eq

/-- The object has an operator. -/
def hasOp (fields : Object) : Bool := ops.any (fun op => (OrdMap.find? fields op.1).isSome)

mutual

/-- Fields are the names of columns, and `$or` is followed by its alternatives. -/
def WellNamed : Object → Prop
  | [] => True
  | (key, v) :: rest => NamedEntry key v ∧ WellNamed rest

def NamedEntry (key : Bytes) : Value → Prop
  | .array items => isName key = true ∨ (key = lit "$or" ∧ NamedItems items)
  | _ => isName key = true

def NamedItem : Value → Prop
  | .object fields => WellNamed fields
  | _ => True

def NamedItems : List Value → Prop
  | [] => True
  | v :: items => NamedItem v ∧ NamedItems items

end

section

-- which comparisons hold in a row
variable (holds : Bytes → CmpOp → Value → Bool)

mutual

/-- **What a query means**: that every entry is satisfied. -/
def satisfies : Object → Bool
  | [] => true
  | (key, v) :: rest => satisfiesEntry key v && satisfies rest

/-- One of the alternatives, every operator, or the value itself. -/
def satisfiesEntry (key : Bytes) : Value → Bool
  | .array items =>
      if key = lit "$or" then satisfiesAny items else holds key .eq (.array items)
  | .object (field :: fields) =>
      if hasOp (field :: fields) then
        ops.all (fun op => (OrdMap.find? (field :: fields) op.1).all (holds key (cmpOf op.1)))
      else holds key .eq (.object (field :: fields))
  | v => holds key .eq v

def satisfiesItem : Value → Bool
  | .object fields => satisfies fields
  | _ => true

def satisfiesAny : List Value → Bool
  | [] => false
  | v :: items => satisfiesItem v || satisfiesAny items

end

/-- The first operator that the object has. -/
def keptOp (key : Bytes) (fields : Object) : List (Bytes × Bytes) → Bool
  | [] => true
  | (op, _) :: rest =>
      match OrdMap.find? fields op with
      | some v => holds key (cmpOf op) v
      | none => keptOp key fields rest

mutual

/-- What is left of a query in its text. -/
def kept : Object → Bool
  | [] => true
  | (key, v) :: rest => keptEntry key v && kept rest

def keptEntry (key : Bytes) : Value → Bool
  | .array items => if key = lit "$or" then keptAny items else true
  | .buffer _ => true
  | .object (field :: fields) => keptOp holds key (field :: fields) ops
  | v => holds key .eq v

def keptItem : Value → Bool
  | .object fields => kept fields
  | _ => true

def keptAny : List Value → Bool
  | [] => false
  | v :: items => keptItem v || keptAny items

end

end

mutual

/-- Every entry has a term in the text, and so has every alternative. -/
def complete : Object → Bool
  | [] => false
  | [(key, v)] => completeEntry key v
  | (key, v) :: rest => completeEntry key v && complete rest

def completeEntry (key : Bytes) : Value → Bool
  | .array items => decide (key = lit "$or") && !items.isEmpty && completeItems items
  | .buffer _ => false
  | .object (field :: fields) => hasOp (field :: fields)
  | _ => true

def completeItem : Value → Bool
  | .object fields => complete fields
  | _ => false

def completeItems : List Value → Bool
  | [] => true
  | v :: items => completeItem v && completeItems items

end

/-! ## What is left follows from the query -/

section

variable {holds : Bytes → CmpOp → Value → Bool}

theorem keptOp_of_all {key : Bytes} {fields : Object} : ∀ {table : List (Bytes × Bytes)},
    table.all (fun op => (OrdMap.find? fields op.1).all (holds key (cmpOf op.1))) = true →
    keptOp holds key fields table = true
  | [], _ => rfl
  | (op, text) :: rest, h => by
      rw [List.all_cons, Bool.and_eq_true] at h
      rw [keptOp]
      cases hv : OrdMap.find? fields op with
      | none => exact keptOp_of_all h.2
      | some v =>
        have hhead := h.1
        dsimp only at hhead
        rw [hv] at hhead
        exact hhead

theorem keptOp_of_not_hasOp {key : Bytes} {fields : Object} : ∀ {table : List (Bytes × Bytes)},
    table.any (fun op => (OrdMap.find? fields op.1).isSome) = false →
    keptOp holds key fields table = true
  | [], _ => rfl
  | (op, text) :: rest, h => by
      rw [List.any_cons, Bool.or_eq_false_iff] at h
      have hnone : OrdMap.find? fields op = none := by
        rw [← Option.not_isSome_iff_eq_none, h.1]
        exact Bool.false_ne_true
      rw [keptOp, hnone]
      exact keptOp_of_not_hasOp h.2

mutual

theorem kept_of_satisfies : ∀ {q : Object}, satisfies holds q = true → kept holds q = true
  | [], _ => by rw [kept]
  | (key, v) :: rest, h => by
      rw [satisfies, Bool.and_eq_true] at h
      rw [kept, keptEntry_of_satisfies h.1, kept_of_satisfies h.2]
      rfl

theorem keptEntry_of_satisfies {key : Bytes} : ∀ {v : Value},
    satisfiesEntry holds key v = true → keptEntry holds key v = true
  | .array items, h => by
      rw [satisfiesEntry] at h
      rw [keptEntry]
      by_cases hor : key = lit "$or"
      · rw [if_pos hor] at h ⊢
        exact keptAny_of_satisfies h
      · rw [if_neg hor]
  | .buffer data, _ => by rw [keptEntry]
  | .object [], h => h
  | .object (field :: fields), h => by
      rw [satisfiesEntry] at h
      rw [keptEntry]
      by_cases hop : hasOp (field :: fields) = true
      · rw [if_pos hop] at h
        exact keptOp_of_all h
      · exact keptOp_of_not_hasOp (Bool.eq_false_iff.mpr hop)
  | .null, h => h
  | .bool b, h => h
  | .int32 i, h => h
  | .int64 i, h => h
  | .float32 bits, h => h
  | .float64 bits, h => h
  | .string s, h => h

theorem keptItem_of_satisfies : ∀ {v : Value},
    satisfiesItem holds v = true → keptItem holds v = true
  | .object fields, h => by
      rw [satisfiesItem] at h
      rw [keptItem]
      exact kept_of_satisfies h
  | .array _, _ => rfl
  | .buffer _, _ => rfl
  | .null, _ => rfl
  | .bool _, _ => rfl
  | .int32 _, _ => rfl
  | .int64 _, _ => rfl
  | .float32 _, _ => rfl
  | .float64 _, _ => rfl
  | .string _, _ => rfl

theorem keptAny_of_satisfies : ∀ {items : List Value},
    satisfiesAny holds items = true → keptAny holds items = true
  | v :: items, h => by
      rw [satisfiesAny, Bool.or_eq_true] at h
      rw [keptAny, Bool.or_eq_true]
      rcases h with h | h
      · exact .inl (keptItem_of_satisfies h)
      · exact .inr (keptAny_of_satisfies h)

end

end

/-! ## Reading the text -/

/-- Comparisons of parameters, as comparisons of the values that are bound to them. -/
def numbered (holds : Bytes → CmpOp → Value → Bool) (bound : List Value) (column : Bytes)
    (op : CmpOp) (param : Nat) : Bool := holds column op (bound.getD param .null)

/-- A text that adds terms to an alternative. -/
structure Adds (bound : List Value) (r r' : Reading) (n : Nat)
    (f : (Bytes → CmpOp → Value → Bool) → Bool) : Prop where
  outer : r'.outer = r.outer
  part : r'.part = .done
  /-- How many parameters there are in the text. -/
  params : r'.params = r.params + n
  ors : r'.level.ors = r.level.ors
  ands : ∃ c, r'.level.ands = some c ∧ ∀ holds, c.eval (numbered holds bound)
    = (r.level.ands.all (·.eval (numbered holds bound)) && f holds)

/-- A text that adds alternatives between two parentheses. -/
structure Offers (bound : List Value) (r r' : Reading) (n : Nat)
    (f : (Bytes → CmpOp → Value → Bool) → Bool) : Prop where
  outer : r'.outer = r.outer
  part : r'.part = .done
  params : r'.params = r.params + n
  cond : ∃ c, r'.level.cond = some c ∧ ∀ holds, c.eval (numbered holds bound)
    = (r.level.ors.any (·.eval (numbered holds bound)) || f holds)

theorem eval_join_and (g : Bytes → CmpOp → Nat → Bool) (a : Option Cond) (c : Cond) :
    (join .and a c).eval g = (a.all (·.eval g) && c.eval g) := by
  cases a with
  | none => rfl
  | some a => rfl

theorem eval_join_or (g : Bytes → CmpOp → Nat → Bool) (a : Option Cond) (c : Cond) :
    (join .or a c).eval g = (a.any (·.eval g) || c.eval g) := by
  cases a with
  | none => rfl
  | some a => rfl

section

variable {bound : List Value} {r r' r'' : Reading} {n m : Nat}
  {f g : (Bytes → CmpOp → Value → Bool) → Bool}

/-- The texts between the entries. -/
theorem whole_and : Whole (lit " AND ") := rfl

theorem whole_or : Whole (lit " OR ") := rfl

theorem whole_lparen : Whole (lit "(") := rfl

theorem whole_rparen : Whole (lit ")") := rfl

theorem run_and (h : r.part = .done) : r.run (lit " AND ") = some { r with part := .operand } := by
  obtain ⟨outer, level, part, params⟩ := r
  subst h
  rfl

theorem run_or (h : r.part = .done) {c : Cond} (hc : r.level.cond = some c) :
    r.run (lit " OR ") = some { r with level := ⟨some c, none⟩, part := .operand } := by
  obtain ⟨outer, level, part, params⟩ := r
  subst h
  rw [← hc]
  rfl

theorem run_lparen (h : r.part = .operand) :
    r.run (lit "(") = some { r with outer := r.level :: r.outer, level := ⟨none, none⟩ } := by
  obtain ⟨outer, level, part, params⟩ := r
  subst h
  rfl

theorem run_rparen (h : r.part = .done) {l : Level} {ls : List Level} (hl : r.outer = l :: ls)
    {c : Cond} (hc : r.level.cond = some c) :
    r.run (lit ")") = some { r with outer := ls, level := l.push c } := by
  obtain ⟨outer, level, part, params⟩ := r
  have hrun : Reading.run ⟨outer, level, part, params⟩ (lit ")")
      = (Reading.push ⟨outer, level, part, params⟩ .rparen).bind some := rfl
  subst h hl
  rw [hrun]
  unfold Reading.push
  dsimp only
  rw [hc]
  rfl

/-- None of them goes on where a term is missing. -/
theorem run_operand (h : r.part = .operand) :
    r.run (lit " AND ") = none ∧ r.run (lit " OR ") = none ∧ r.run (lit ")") = none := by
  obtain ⟨outer, level, part, params⟩ := r
  subst h
  exact ⟨rfl, rfl, rfl⟩

theorem Adds.trans (h : Adds bound r r' n f) (h' : Adds bound { r' with part := .operand } r'' m g) :
    Adds bound r r'' (n + m) (fun holds => f holds && g holds) := by
  obtain ⟨c, hc, heval⟩ := h.ands
  obtain ⟨c', hc', heval'⟩ := h'.ands
  refine ⟨h'.outer.trans h.outer, h'.part, ?_, h'.ors.trans h.ors, c', hc', ?_⟩
  · rw [h'.params, h.params, Nat.add_assoc]
  · intro holds
    rw [heval' holds, hc, Option.all_some, heval holds, Bool.and_assoc]

/-- An alternative. -/
theorem Adds.offers (h : Adds bound r r' n f) (hnone : r.level.ands = none) :
    Offers bound r r' n f := by
  obtain ⟨c, hc, heval⟩ := h.ands
  refine ⟨h.outer, h.part, h.params, join .or r'.level.ors c, ?_, ?_⟩
  · unfold Level.cond
    rw [hc]
    rfl
  · intro holds
    rw [eval_join_or, heval holds, h.ors, hnone]
    rfl

theorem Offers.trans (h : Offers bound r r' n f) {c : Cond} (hc : r'.level.cond = some c)
    (h' : Offers bound { r' with level := ⟨some c, none⟩, part := .operand } r'' m g) :
    Offers bound r r'' (n + m) (fun holds => f holds || g holds) := by
  obtain ⟨c₁, hc₁, heval⟩ := h.cond
  obtain ⟨c₂, hc₂, heval'⟩ := h'.cond
  obtain rfl : c₁ = c := Option.some.inj (hc₁.symm.trans hc)
  refine ⟨h'.outer.trans h.outer, h'.part, ?_, c₂, hc₂, ?_⟩
  · rw [h'.params, h.params, Nat.add_assoc]
  · intro holds
    rw [heval' holds, Option.any_some, heval holds, Bool.or_assoc]

/-- Alternatives between two parentheses. -/
theorem Offers.paren
    (h : Offers bound { r with outer := r.level :: r.outer, level := ⟨none, none⟩ } r' n f) :
    ∃ r'', r'.run (lit ")") = some r'' ∧ Adds bound r r'' n f := by
  obtain ⟨c, hc, heval⟩ := h.cond
  refine ⟨_, run_rparen h.part h.outer hc, rfl, h.part, h.params, rfl, _, rfl, ?_⟩
  intro holds
  rw [eval_join_and, heval holds]
  rfl

end

/-! ## One term -/

/-- The text of an operator. -/
def IsOperator (text : Bytes) (op : CmpOp) : Prop := ∃ c cs t, text = c :: cs
  ∧ isWordChar c = false ∧ scan .idle (c :: cs) = ([t, .param], .idle) ∧ t.cmpOp = some op

theorem isOperator_eq : IsOperator (lit "=?") .eq :=
  ⟨0x3D, [0x3F], .eq, rfl, by decide, rfl, by decide⟩

theorem isOperator_ops : ∀ p ∈ ops, IsOperator p.2 (cmpOf p.1) := by
  intro p hp
  unfold ops at hp
  simp only [List.mem_cons, List.not_mem_nil, or_false] at hp
  rcases hp with rfl | rfl | rfl | rfl | rfl | rfl
  · exact ⟨0x3E, [0x3D, 0x3F], .ge, rfl, by decide, rfl, by decide⟩
  · exact ⟨0x3E, [0x3F], .gt, rfl, by decide, rfl, by decide⟩
  · exact ⟨0x3C, [0x3D, 0x3F], .le, rfl, by decide, rfl, by decide⟩
  · exact ⟨0x20, lit "like ?", .word (lit "like"), rfl, by decide, rfl, by decide⟩
  · exact ⟨0x3C, [0x3F], .lt, rfl, by decide, rfl, by decide⟩
  · exact ⟨0x3C, [0x3E, 0x3F], .ne, rfl, by decide, rfl, by decide⟩

theorem whole_term {column text : Bytes} {op : CmpOp} (h : isName column = true)
    (hop : IsOperator text op) : Whole (column ++ text) := by
  obtain ⟨c, cs, t, rfl, hc, hscan, -⟩ := hop
  exact congrArg Prod.snd (scan_compare h hc hscan)

/-- The parameters that come next. -/
def Next (bound : List Value) (r : Reading) (vs : List Value) : Prop := vs <+: bound.drop r.params

theorem Next.getD {bound : List Value} {r : Reading} {v : Value} (h : Next bound r [v]) :
    bound.getD r.params .null = v := by
  obtain ⟨rest, hrest⟩ := h
  rw [List.getD_eq_getElem?_getD, ← List.head?_drop, ← hrest]
  rfl

theorem run_term {column text : Bytes} {op : CmpOp} (h : isName column = true)
    (hop : IsOperator text op) {bound : List Value} {r : Reading} (hr : r.part = .operand)
    {v : Value} (hv : Next bound r [v]) :
    ∃ r', r.run (column ++ text) = some r' ∧ Adds bound r r' 1 (fun holds => holds column op v) := by
  obtain ⟨c, cs, t, rfl, hc, hscan, ht⟩ := hop
  refine ⟨_, run_compare h hc hscan ht hr, rfl, rfl, rfl, rfl, _, rfl, ?_⟩
  intro holds
  rw [eval_join_and, Cond.eval]
  unfold numbered
  rw [hv.getD]

theorem firstOp_of_hasOp (key : Bytes) {fields : Object} : ∀ {table : List (Bytes × Bytes)},
    table.any (fun op => (OrdMap.find? fields op.1).isSome) = true →
    ∃ p ∈ table, ∃ v, firstOp key fields table = (key ++ p.2, [v])
      ∧ ∀ holds, keptOp holds key fields table = holds key (cmpOf p.1) v
  | (op, text) :: rest, h => by
      rw [firstOp]
      cases hv : OrdMap.find? fields op with
      | some v =>
        refine ⟨(op, text), List.mem_cons_self .., v, rfl, ?_⟩
        intro holds
        rw [keptOp, hv]
      | none =>
        rw [List.any_cons] at h
        dsimp only at h
        rw [hv, Option.isSome_none, Bool.false_or] at h
        obtain ⟨p, hp, v, hfirst, hkept⟩ := firstOp_of_hasOp key h
        refine ⟨p, List.mem_cons_of_mem _ hp, v, hfirst, ?_⟩
        intro holds
        rw [keptOp, hv]
        exact hkept holds

theorem firstOp_of_not_hasOp {key : Bytes} {fields : Object} : ∀ {table : List (Bytes × Bytes)},
    table.any (fun op => (OrdMap.find? fields op.1).isSome) = false →
    firstOp key fields table = ([], [])
  | [], _ => rfl
  | (op, text) :: rest, h => by
      rw [List.any_cons, Bool.or_eq_false_iff] at h
      have hnone : OrdMap.find? fields op = none := by
        rw [← Option.not_isSome_iff_eq_none, h.1]
        exact Bool.false_ne_true
      rw [firstOp, hnone]
      exact firstOp_of_not_hasOp h.2

/-! ## Texts end where tokens end -/

/-- How the text of a query is put together: terms, `AND`, `OR` and parentheses. -/
inductive Composed : Bytes → Prop where
  | nil : Composed []
  | term {column text : Bytes} {op : CmpOp} :
      isName column = true → IsOperator text op → Composed (column ++ text)
  | and {a b : Bytes} : Composed a → Composed b → Composed (a ++ lit " AND " ++ b)
  | or {a b : Bytes} : Composed a → Composed b → Composed (a ++ lit " OR " ++ b)
  | paren {a : Bytes} : Composed a → Composed (lit "(" ++ a ++ lit ")")

theorem composed_firstOp {key : Bytes} (h : isName key = true) (fields : Object) :
    Composed (firstOp key fields ops).1 := by
  by_cases hop : hasOp fields = true
  · obtain ⟨p, hp, v, hfirst, -⟩ := firstOp_of_hasOp key hop
    rw [hfirst]
    exact .term h (isOperator_ops p hp)
  · rw [firstOp_of_not_hasOp (Bool.eq_false_iff.mpr hop)]
    exact .nil

/-- What has a value and nothing else. -/
theorem composed_value {key : Bytes} (h : isName key = true) : Composed (key ++ lit "=?") :=
  .term h isOperator_eq

theorem not_named_or : ¬ isName (lit "$or") = true := by decide

mutual

theorem composed_wherePart : ∀ {q : Object}, WellNamed q → Composed (wherePart q).1
  | [], _ => Composed.nil
  | [(key, v)], h => by
      rw [WellNamed] at h
      rw [wherePart]
      exact composed_whereEntry h.1
  | (key, v) :: p :: rest, h => by
      rw [WellNamed] at h
      have hentry := composed_whereEntry h.1
      have hrest := composed_wherePart h.2
      exact hentry.and hrest

theorem composed_whereEntry {key : Bytes} : ∀ {v : Value}, NamedEntry key v →
    Composed (whereEntry key v).1
  | .array [], _ => Composed.nil
  | .array [v], h => by
      rw [whereEntry]
      by_cases hor : key = lit "$or"
      · rw [if_pos hor]
        rw [NamedEntry, NamedItems] at h
        exact composed_whereItem (h.resolve_left (by rw [hor]; exact not_named_or)).2.1
      · rw [if_neg hor]
        exact Composed.nil
  | .array (v :: w :: items), h => by
      rw [whereEntry]
      · by_cases hor : key = lit "$or"
        · rw [if_pos hor]
          rw [NamedEntry] at h
          have hitems := composed_whereItems (h.resolve_left (by rw [hor]; exact not_named_or)).2
          exact hitems.paren
        · rw [if_neg hor]
          exact Composed.nil
      · exact List.cons_ne_nil _ _
  | .buffer _, _ => Composed.nil
  | .object [], h => composed_value h
  | .object (field :: fields), h => by
      rw [whereEntry]
      rw [NamedEntry] at h
      · exact composed_firstOp h _
      · intro items hitems
        cases hitems
  | .null, h => composed_value h
  | .bool _, h => composed_value h
  | .int32 _, h => composed_value h
  | .int64 _, h => composed_value h
  | .float32 _, h => composed_value h
  | .float64 _, h => composed_value h
  | .string _, h => composed_value h

theorem composed_whereItem : ∀ {v : Value}, NamedItem v → Composed (whereItem v).1
  | .object fields, h => by
      rw [NamedItem] at h
      rw [whereItem]
      exact composed_wherePart h
  | .array _, _ => Composed.nil
  | .buffer _, _ => Composed.nil
  | .null, _ => Composed.nil
  | .bool _, _ => Composed.nil
  | .int32 _, _ => Composed.nil
  | .int64 _, _ => Composed.nil
  | .float32 _, _ => Composed.nil
  | .float64 _, _ => Composed.nil
  | .string _, _ => Composed.nil

theorem composed_whereItems : ∀ {items : List Value}, NamedItems items → Composed (whereItems items).1
  | [], _ => Composed.nil
  | [v], h => by
      rw [NamedItems] at h
      rw [whereItems]
      exact composed_whereItem h.1
  | v :: w :: items, h => by
      rw [NamedItems] at h
      have hitem := composed_whereItem h.1
      have hrest := composed_whereItems h.2
      exact hitem.or hrest

end

/-- Every token of a query's text ends in it. -/
theorem Composed.whole {text : Bytes} (h : Composed text) : Whole text := by
  induction h with
  | nil => rfl
  | term hcolumn hop => exact whole_term hcolumn hop
  | and _ _ iha ihb => exact (iha.append whole_and).append ihb
  | or _ _ iha ihb => exact (iha.append whole_or).append ihb
  | paren _ iha => exact (whole_lparen.append iha).append whole_rparen

theorem whole_wherePart {q : Object} (h : WellNamed q) : Whole (wherePart q).1 :=
  (composed_wherePart h).whole

theorem whole_whereEntry {key : Bytes} {v : Value} (h : NamedEntry key v) :
    Whole (whereEntry key v).1 := (composed_whereEntry h).whole

theorem whole_whereItem {v : Value} (h : NamedItem v) : Whole (whereItem v).1 :=
  (composed_whereItem h).whole

theorem whole_whereItems {items : List Value} (h : NamedItems items) :
    Whole (whereItems items).1 := (composed_whereItems h).whole

/-! ## A complete text -/

theorem Next.left {bound xs ys : List Value} {r : Reading} (h : Next bound r (xs ++ ys)) :
    Next bound r xs := (List.prefix_append xs ys).trans h

theorem Next.right {bound xs ys : List Value} {r r' : Reading} (h : Next bound r (xs ++ ys))
    (hr : r'.params = r.params + xs.length) : Next bound r' ys := by
  obtain ⟨rest, hrest⟩ := h
  refine ⟨rest, ?_⟩
  rw [hr, ← List.drop_drop, ← hrest, List.append_assoc, List.drop_left]

/-- A text that is a term, or several with `AND` between them. -/
def IsTerms (part : Part) (f : (Bytes → CmpOp → Value → Bool) → Bool) : Prop :=
  ∀ (bound : List Value) (r : Reading), r.part = .operand → Next bound r part.2 →
    ∃ r', r.run part.1 = some r' ∧ Adds bound r r' part.2.length f

theorem isTerms_value {key : Bytes} (h : isName key = true) (v : Value) :
    IsTerms (key ++ lit "=?", [v]) (fun holds => holds key .eq v) :=
  fun _ _ hr hv => run_term h isOperator_eq hr hv

theorem IsTerms.and {a b : Part} {f g : (Bytes → CmpOp → Value → Bool) → Bool}
    (ha : IsTerms a f) (hwhole : Whole a.1) (hb : IsTerms b g) :
    IsTerms (a.1 ++ lit " AND " ++ b.1, a.2 ++ b.2) (fun holds => f holds && g holds) := by
  intro bound r hr hnext
  obtain ⟨r₁, hrun, hadds⟩ := ha bound r hr hnext.left
  obtain ⟨r₂, hrun', hadds'⟩ := hb bound { r₁ with part := .operand } rfl
    (hnext.right hadds.params)
  refine ⟨r₂, ?_, ?_⟩
  · rw [Reading.run_append (hwhole.append whole_and), Reading.run_append hwhole, hrun,
      Option.bind_some, run_and hadds.part]
    exact hrun'
  · rw [List.length_append]
    exact hadds.trans hadds'

/-- Alternatives with `OR` between them. -/
def IsAlternatives (part : Part) (f : (Bytes → CmpOp → Value → Bool) → Bool) : Prop :=
  ∀ (bound : List Value) (r : Reading), r.part = .operand → r.level.ands = none →
    Next bound r part.2 → ∃ r', r.run part.1 = some r' ∧ Offers bound r r' part.2.length f

theorem IsTerms.alternative {a : Part} {f : (Bytes → CmpOp → Value → Bool) → Bool}
    (h : IsTerms a f) : IsAlternatives a f := by
  intro bound r hr hnone hnext
  obtain ⟨r', hrun, hadds⟩ := h bound r hr hnext
  exact ⟨r', hrun, hadds.offers hnone⟩

theorem IsTerms.or {a b : Part} {f g : (Bytes → CmpOp → Value → Bool) → Bool}
    (ha : IsTerms a f) (hwhole : Whole a.1) (hb : IsAlternatives b g) :
    IsAlternatives (a.1 ++ lit " OR " ++ b.1, a.2 ++ b.2) (fun holds => f holds || g holds) := by
  intro bound r hr hnone hnext
  obtain ⟨r₁, hrun, hoffers⟩ := ha.alternative bound r hr hnone hnext.left
  obtain ⟨c, hc, -⟩ := hoffers.cond
  obtain ⟨r₂, hrun', hoffers'⟩ :=
    hb bound { r₁ with level := ⟨some c, none⟩, part := .operand } rfl rfl
      (hnext.right hoffers.params)
  refine ⟨r₂, ?_, ?_⟩
  · rw [Reading.run_append (hwhole.append whole_or), Reading.run_append hwhole, hrun,
      Option.bind_some, run_or hoffers.part hc]
    exact hrun'
  · rw [List.length_append]
    exact hoffers.trans hc hoffers'

theorem IsAlternatives.paren {a : Part} {f : (Bytes → CmpOp → Value → Bool) → Bool}
    (h : IsAlternatives a f) (hwhole : Whole a.1) :
    IsTerms (lit "(" ++ a.1 ++ lit ")", a.2) f := by
  intro bound r hr hnext
  obtain ⟨r₁, hrun, hoffers⟩ := h bound
    { r with outer := r.level :: r.outer, level := ⟨none, none⟩ } hr rfl hnext
  obtain ⟨r₂, hrun', hadds⟩ := hoffers.paren
  refine ⟨r₂, ?_, hadds⟩
  rw [Reading.run_append (whole_lparen.append hwhole), Reading.run_append whole_lparen,
    run_lparen hr, Option.bind_some, hrun]
  exact hrun'

mutual

theorem isTerms_wherePart : ∀ {q : Object}, WellNamed q → complete q = true →
    IsTerms (wherePart q) (fun holds => kept holds q)
  | [(key, v)], h, hq => by
      rw [WellNamed] at h
      rw [complete] at hq
      have hentry := isTerms_whereEntry h.1 hq
      simp only [kept, Bool.and_true]
      rw [wherePart]
      exact hentry
  | (key, v) :: p :: rest, h, hq => by
      rw [WellNamed] at h
      rw [complete, Bool.and_eq_true] at hq
      · exact (isTerms_whereEntry h.1 hq.1).and (whole_whereEntry h.1) (isTerms_wherePart h.2 hq.2)
      · exact List.cons_ne_nil _ _

theorem isTerms_whereEntry {key : Bytes} : ∀ {v : Value}, NamedEntry key v →
    completeEntry key v = true →
    IsTerms (whereEntry key v) (fun holds => keptEntry holds key v)
  | .array [], _, hv => by
      rw [completeEntry, List.isEmpty_nil, Bool.not_true, Bool.and_false, Bool.false_and] at hv
      cases hv
  | .array [v], h, hv => by
      rw [completeEntry, completeItems, completeItems, Bool.and_true, Bool.and_eq_true,
        Bool.and_eq_true] at hv
      have hor : key = lit "$or" := of_decide_eq_true hv.1.1
      rw [NamedEntry, NamedItems] at h
      have hitem := isTerms_whereItem (h.resolve_left (by rw [hor]; exact not_named_or)).2.1 hv.2
      simp only [keptEntry, if_pos hor, keptAny, Bool.or_false]
      rw [whereEntry, if_pos hor]
      exact hitem
  | .array (v :: w :: items), h, hv => by
      rw [completeEntry, Bool.and_eq_true, Bool.and_eq_true] at hv
      have hor : key = lit "$or" := of_decide_eq_true hv.1.1
      rw [NamedEntry] at h
      have hnamed := (h.resolve_left (by rw [hor]; exact not_named_or)).2
      have hitems := isAlternatives_whereItems (List.cons_ne_nil _ _) hnamed hv.2
      simp only [keptEntry, if_pos hor]
      rw [whereEntry, if_pos hor]
      · exact hitems.paren (whole_whereItems hnamed)
      · exact List.cons_ne_nil _ _
  | .object [], h, _ => isTerms_value h _
  | .object (field :: fields), h, hv => by
      rw [NamedEntry] at h
      · rw [completeEntry] at hv
        obtain ⟨p, hp, v, hfirst, hkept⟩ := firstOp_of_hasOp key hv
        simp only [keptEntry, hkept]
        rw [whereEntry, hfirst]
        exact fun _ _ hr hnext => run_term h (isOperator_ops p hp) hr hnext
      · intro items hitems
        cases hitems
  | .null, h, _ => isTerms_value h _
  | .bool _, h, _ => isTerms_value h _
  | .int32 _, h, _ => isTerms_value h _
  | .int64 _, h, _ => isTerms_value h _
  | .float32 _, h, _ => isTerms_value h _
  | .float64 _, h, _ => isTerms_value h _
  | .string _, h, _ => isTerms_value h _

theorem isTerms_whereItem : ∀ {v : Value}, NamedItem v → completeItem v = true →
    IsTerms (whereItem v) (fun holds => keptItem holds v)
  | .object fields, h, hv => by
      rw [NamedItem] at h
      rw [completeItem] at hv
      have hfields := isTerms_wherePart h hv
      simp only [keptItem]
      rw [whereItem]
      exact hfields

theorem isAlternatives_whereItems : ∀ {items : List Value}, items ≠ [] → NamedItems items →
    completeItems items = true →
    IsAlternatives (whereItems items) (fun holds => keptAny holds items)
  | [], hne, _, _ => absurd rfl hne
  | [v], _, h, hv => by
      rw [NamedItems] at h
      rw [completeItems, completeItems, Bool.and_true] at hv
      have hitem := (isTerms_whereItem h.1 hv).alternative
      simp only [keptAny, Bool.or_false]
      rw [whereItems]
      exact hitem
  | v :: w :: items, _, h, hv => by
      rw [NamedItems] at h
      rw [completeItems, Bool.and_eq_true] at hv
      exact (isTerms_whereItem h.1 hv.1).or (whole_whereItem h.1)
        (isAlternatives_whereItems (List.cons_ne_nil _ _) h.2 hv.2)

end

/-! ## An incomplete text -/

/-- A text after which a term is missing. -/
def IsStuck (text : Bytes) : Prop :=
  ∀ r : Reading, r.part = .operand → ∀ r', r.run text = some r' → r'.part = .operand

theorem isStuck_nil : IsStuck [] := by
  intro r hr r' hrun
  obtain rfl : r = r' := Option.some.inj hrun
  exact hr

/-- Nothing can follow it. -/
theorem IsStuck.run_eq_none {a b : Bytes} (h : IsStuck a) (ha : Whole a) (hb : Whole b)
    (hnone : ∀ r : Reading, r.part = .operand → r.run b = none) {r : Reading}
    (hr : r.part = .operand) (c : Bytes) : r.run (a ++ b ++ c) = none := by
  rw [Reading.run_append (ha.append hb), Reading.run_append ha]
  cases hrun : r.run a with
  | none => rfl
  | some r' =>
    rw [Option.bind_some, hnone r' (h r hr r' hrun)]
    rfl

theorem IsTerms.run {a : Part} {f : (Bytes → CmpOp → Value → Bool) → Bool} (h : IsTerms a f)
    {r : Reading} (hr : r.part = .operand) :
    ∃ r', r.run a.1 = some r' ∧ r'.part = .done ∧ ∃ c, r'.level.cond = some c := by
  have hnext : Next (List.replicate r.params .null ++ a.2) r a.2 := by
    have hlen : (List.replicate r.params Value.null).length = r.params := List.length_replicate
    have hdrop := @List.drop_left _ (List.replicate r.params Value.null) a.2
    rw [hlen] at hdrop
    exact ⟨[], by rw [List.append_nil]; exact hdrop.symm⟩
  obtain ⟨r', hrun, hadds⟩ := h _ r hr hnext
  obtain ⟨c, hc, -⟩ := hadds.ands
  refine ⟨r', hrun, hadds.part, join .or r'.level.ors c, ?_⟩
  unfold Level.cond
  rw [hc]
  rfl

theorem IsTerms.and_isStuck {a : Part} {f : (Bytes → CmpOp → Value → Bool) → Bool}
    (h : IsTerms a f) (hwhole : Whole a.1) {b : Bytes} (hb : IsStuck b) :
    IsStuck (a.1 ++ lit " AND " ++ b) := by
  intro r hr r' hrun
  obtain ⟨r₁, hrun₁, hdone, -⟩ := h.run hr
  rw [Reading.run_append (hwhole.append whole_and), Reading.run_append hwhole, hrun₁,
    Option.bind_some, run_and hdone] at hrun
  exact hb _ rfl r' hrun

theorem IsTerms.or_isStuck {a : Part} {f : (Bytes → CmpOp → Value → Bool) → Bool}
    (h : IsTerms a f) (hwhole : Whole a.1) {b : Bytes} (hb : IsStuck b) :
    IsStuck (a.1 ++ lit " OR " ++ b) := by
  intro r hr r' hrun
  obtain ⟨r₁, hrun₁, hdone, c, hc⟩ := h.run hr
  rw [Reading.run_append (hwhole.append whole_or), Reading.run_append hwhole, hrun₁,
    Option.bind_some, run_or hdone hc] at hrun
  exact hb _ rfl r' hrun

theorem IsStuck.and {a : Bytes} (h : IsStuck a) (hwhole : Whole a) (b : Bytes) :
    IsStuck (a ++ lit " AND " ++ b) := by
  intro r hr r' hrun
  rw [h.run_eq_none hwhole whole_and (fun _ hr => (run_operand hr).1) hr] at hrun
  cases hrun

theorem IsStuck.or {a : Bytes} (h : IsStuck a) (hwhole : Whole a) (b : Bytes) :
    IsStuck (a ++ lit " OR " ++ b) := by
  intro r hr r' hrun
  rw [h.run_eq_none hwhole whole_or (fun _ hr => (run_operand hr).2.1) hr] at hrun
  cases hrun

theorem IsStuck.paren {a : Bytes} (h : IsStuck a) (hwhole : Whole a) :
    IsStuck (lit "(" ++ a ++ lit ")") := by
  intro r hr r' hrun
  have hnone := @h.run_eq_none _ (lit ")") hwhole whole_rparen (fun _ hr => (run_operand hr).2.2)
    { r with outer := r.level :: r.outer, level := ⟨none, none⟩ } hr []
  rw [List.append_nil] at hnone
  rw [List.append_assoc, Reading.run_append whole_lparen, run_lparen hr, Option.bind_some,
    hnone] at hrun
  cases hrun

mutual

theorem isStuck_wherePart : ∀ {q : Object}, WellNamed q → complete q = false →
    IsStuck (wherePart q).1
  | [], _, _ => isStuck_nil
  | [(key, v)], h, hq => by
      rw [WellNamed] at h
      rw [complete] at hq
      rw [wherePart]
      exact isStuck_whereEntry h.1 hq
  | (key, v) :: p :: rest, h, hq => by
      rw [WellNamed] at h
      rw [complete, Bool.and_eq_false_iff] at hq
      · have hwhole := whole_whereEntry h.1
        by_cases hentry : completeEntry key v = true
        · have hrest := isStuck_wherePart h.2 (hq.resolve_left (by rw [hentry]; decide))
          exact (isTerms_whereEntry h.1 hentry).and_isStuck hwhole hrest
        · have hstuck := isStuck_whereEntry h.1 (Bool.eq_false_iff.mpr hentry)
          exact hstuck.and hwhole _
      · exact List.cons_ne_nil _ _

theorem isStuck_whereEntry {key : Bytes} : ∀ {v : Value}, NamedEntry key v →
    completeEntry key v = false → IsStuck (whereEntry key v).1
  | .array [], _, _ => isStuck_nil
  | .array [v], h, hv => by
      rw [whereEntry]
      by_cases hor : key = lit "$or"
      · rw [completeEntry, completeItems, completeItems, decide_eq_true hor] at hv
        rw [NamedEntry, NamedItems] at h
        rw [if_pos hor]
        refine isStuck_whereItem (h.resolve_left (by rw [hor]; exact not_named_or)).2.1 ?_
        rw [← hv, Bool.and_true]
        rfl
      · rw [if_neg hor]
        exact isStuck_nil
  | .array (v :: w :: items), h, hv => by
      rw [whereEntry]
      · by_cases hor : key = lit "$or"
        · rw [completeEntry, decide_eq_true hor] at hv
          rw [NamedEntry] at h
          have hnamed := (h.resolve_left (by rw [hor]; exact not_named_or)).2
          rw [if_pos hor]
          exact (isStuck_whereItems hnamed hv).paren (whole_whereItems hnamed)
        · rw [if_neg hor]
          exact isStuck_nil
      · exact List.cons_ne_nil _ _
  | .buffer _, _, _ => isStuck_nil
  | .object (field :: fields), h, hv => by
      rw [completeEntry] at hv
      rw [whereEntry, firstOp_of_not_hasOp hv]
      exact isStuck_nil

theorem isStuck_whereItem : ∀ {v : Value}, NamedItem v → completeItem v = false →
    IsStuck (whereItem v).1
  | .object fields, h, hv => by
      rw [NamedItem] at h
      rw [completeItem] at hv
      rw [whereItem]
      exact isStuck_wherePart h hv
  | .array _, _, _ => isStuck_nil
  | .buffer _, _, _ => isStuck_nil
  | .null, _, _ => isStuck_nil
  | .bool _, _, _ => isStuck_nil
  | .int32 _, _, _ => isStuck_nil
  | .int64 _, _, _ => isStuck_nil
  | .float32 _, _, _ => isStuck_nil
  | .float64 _, _, _ => isStuck_nil
  | .string _, _, _ => isStuck_nil

theorem isStuck_whereItems : ∀ {items : List Value}, NamedItems items →
    completeItems items = false → IsStuck (whereItems items).1
  | [v], h, hv => by
      rw [NamedItems] at h
      rw [completeItems, completeItems, Bool.and_true] at hv
      rw [whereItems]
      exact isStuck_whereItem h.1 hv
  | v :: w :: items, h, hv => by
      rw [NamedItems] at h
      rw [completeItems, Bool.and_eq_false_iff] at hv
      have hwhole := whole_whereItem h.1
      by_cases hitem : completeItem v = true
      · have hrest := isStuck_whereItems h.2 (hv.resolve_left (by rw [hitem]; decide))
        exact (isTerms_whereItem h.1 hitem).or_isStuck hwhole hrest
      · have hstuck := isStuck_whereItem h.1 (Bool.eq_false_iff.mpr hitem)
        exact hstuck.or hwhole _

end

/-! ## What the text means -/

section

variable {Row : Type} (holds : Row → Bytes → CmpOp → Value → Bool)

/-- Which rows the end of a statement selects, if it can be read. In front of the parameters of
`Action::wherePart` are those that are bound `before`. -/
def whereMeaning (before : List Value) (q : Object) : Option (Row → Bool) :=
  (parseWhere before.length (tokens (whereText q))).map fun cond row =>
    cond.all (·.eval (numbered (holds row) (before ++ (wherePart q).2)))

/-- The text selects what the query means, and only an empty query selects everything. -/
def SelectsMeant (before : List Value) (q : Object) : Prop :=
  (∃ selects, whereMeaning holds before q = some selects
      ∧ ∀ row, selects row = satisfies (holds row) q)
    ∧ (q ≠ [] → parseWhere before.length (tokens (whereText q)) ≠ some none)

omit holds in
theorem parseWhere_text (text : Bytes) (k : Nat) :
    parseWhere k (tokens (lit " WHERE " ++ text)) = (parseCond k (tokens text)).map some := by
  have hwhere : scan .idle (lit " WHERE ") = ([.word (lit "WHERE")], .idle) := by decide
  rw [tokens_append hwhere]
  show parseWhere k (.word (lit "WHERE") :: tokens text) = _
  rw [parseWhere, keyword_word (by decide)]
  · rfl
  · exact List.cons_ne_nil _ _

/-- **A complete query** is a condition, on the rows that have what is kept of it. -/
theorem whereMeaning_of_complete (before : List Value) {q : Object} (h : WellNamed q)
    (hq : complete q = true) :
    (∃ selects, whereMeaning holds before q = some selects
        ∧ ∀ row, selects row = kept (holds row) q)
      ∧ parseWhere before.length (tokens (whereText q)) ≠ some none := by
  have hwhole := whole_wherePart h
  have hterms := isTerms_wherePart h hq
  have hnext : Next (before ++ (wherePart q).2) (Reading.init before.length) (wherePart q).2 := by
    refine ⟨[], ?_⟩
    rw [List.append_nil]
    exact List.drop_left.symm
  obtain ⟨r', hrun, hadds⟩ := hterms (before ++ (wherePart q).2) (Reading.init before.length) rfl hnext
  obtain ⟨c, hc, heval⟩ := hadds.ands
  -- the text is not empty, for something was read
  have hne : (wherePart q).1.isEmpty = false := by
    cases htext : (wherePart q).1 with
    | nil =>
      rw [htext] at hrun
      obtain rfl : Reading.init before.length = r' := Option.some.inj hrun
      cases hadds.part
    | cons c cs => rfl
  have hcond : r'.level.cond = some c := by
    have hors : r'.level.ors = none := hadds.ors
    unfold Level.cond
    rw [hc, hors]
    rfl
  have hparse : parseWhere before.length (tokens (whereText q)) = some (some c) := by
    unfold whereText
    rw [hne, if_neg Bool.false_ne_true, parseWhere_text, parseCond_eq hwhole, hrun, Option.bind_some]
    unfold Reading.result
    rw [if_pos ⟨hadds.part, hadds.outer⟩, hcond]
    rfl
  refine ⟨⟨fun row => c.eval (numbered (holds row) (before ++ (wherePart q).2)), ?_, ?_⟩, ?_⟩
  · unfold whereMeaning
    rw [hparse]
    rfl
  · intro row
    exact heval (holds row)
  · rw [hparse]
    exact fun h => (by cases h)

omit holds in
/-- Any other is no condition. -/
theorem parseWhere_of_not_complete (k : Nat) {q : Object} (h : WellNamed q)
    (hq : complete q = false) :
    parseWhere k (tokens (whereText q)) = none
      ∨ parseWhere k (tokens (whereText q)) = some none := by
  have hwhole := whole_wherePart h
  have hstuck := isStuck_wherePart h hq
  unfold whereText
  by_cases hempty : (wherePart q).1.isEmpty = true
  · rw [if_pos hempty]
    exact .inr rfl
  · rw [if_neg hempty, parseWhere_text, parseCond_eq hwhole]
    refine .inl ?_
    cases hrun : (Reading.init k).run (wherePart q).1 with
    | none => rfl
    | some r' =>
      have hpart := hstuck _ rfl r' hrun
      have hresult : r'.result = none := by
        unfold Reading.result
        rw [hpart]
        exact if_neg (fun h => (by cases h.1))
      rw [Option.bind_some, hresult]
      rfl

/-- **The text of a query means what the query means** exactly if the query is empty, or every entry
has a term and what there is no term for follows from the others. -/
theorem whereMeaning_iff (before : List Value) {q : Object} (h : WellNamed q) :
    SelectsMeant holds before q ↔ q = [] ∨ (complete q = true
      ∧ ∀ row, kept (holds row) q = true → satisfies (holds row) q = true) := by
  constructor
  · rintro ⟨⟨selects, hsome, hmeant⟩, hcond⟩
    by_cases hnil : q = []
    · exact .inl hnil
    · refine .inr ?_
      by_cases hq : complete q = true
      · obtain ⟨⟨selects', hsome', hkept⟩, -⟩ := whereMeaning_of_complete holds before h hq
        obtain rfl : selects = selects' := Option.some.inj (hsome.symm.trans hsome')
        refine ⟨hq, fun row hrow => ?_⟩
        rw [← hmeant row, hkept row]
        exact hrow
      · rcases parseWhere_of_not_complete before.length h (Bool.eq_false_iff.mpr hq) with hnone | hall
        · unfold whereMeaning at hsome
          rw [hnone] at hsome
          cases hsome
        · exact absurd hall (hcond hnil)
  · rintro (rfl | ⟨hq, hfollows⟩)
    · refine ⟨⟨fun _ => true, rfl, fun row => ?_⟩, fun hne => absurd rfl hne⟩
      rw [satisfies]
    · obtain ⟨⟨selects, hsome, hkept⟩, hcond⟩ := whereMeaning_of_complete holds before h hq
      refine ⟨⟨selects, hsome, fun row => ?_⟩, fun _ => hcond⟩
      rw [hkept row, Bool.eq_iff_iff]
      exact ⟨hfollows row, kept_of_satisfies⟩

/-- A field that is compared, and two alternatives. -/
def sampleQuery : Object :=
  [(lit "$or", .array [.object [(lit "mode", .int32 1)], .object [(lit "size", .object [(lit "$gt", .int32 4)])]]),
    (lit "hash", .string (lit "x"))]

theorem sampleQuery_wellNamed : WellNamed sampleQuery := by
  have hmode : isName (lit "mode") = true := by decide
  have hsize : isName (lit "size") = true := by decide
  have hhash : isName (lit "hash") = true := by decide
  exact ⟨.inr ⟨rfl, ⟨hmode, trivial⟩, ⟨hsize, trivial⟩, trivial⟩, hhash, trivial⟩

/-- The rows that any two comparisons tell apart. -/
theorem whereMeaning_iff_sampleQuery :
    SelectsMeant (fun (row : Bytes → Value → Bool) column _ v => row column v) [] sampleQuery
      ↔ sampleQuery = [] ∨ (complete sampleQuery = true
        ∧ ∀ row : Bytes → Value → Bool, kept (fun column _ v => row column v) sampleQuery = true →
          satisfies (fun column _ v => row column v) sampleQuery = true) :=
  whereMeaning_iff _ [] sampleQuery_wellNamed

/-- Of a query for an empty list nothing is left, and every row is selected. -/
theorem not_selectsMeant_empty :
    ¬ SelectsMeant (fun (row : Bytes → Value → Bool) column _ v => row column v) []
      [(lit "hash", .array [])] := by
  rintro ⟨-, hcond⟩
  exact hcond (List.cons_ne_nil _ _) rfl

end

end Zway.Ubj.Store
