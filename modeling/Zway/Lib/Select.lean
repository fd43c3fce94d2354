import Zway.Lib.Sql

/-!
# Selections with an order and a limit

What may follow the table of a `SELECT`: a condition, `ORDER BY` and terms with commas
between them, `LIMIT` and a number, and `OFFSET` and a number, but only after a limit.
The words `ORDER` and `LIMIT` cannot be names, so a clause ends where the next begins.
-/

namespace Zway.Sql

/-! ## Numbers -/

/-- A number is written in digits. -/
theorem digit_of_mem_repr {n : Nat} {c : UInt8} (h : c ∈ lit n.repr) : 0x30 ≤ c ∧ c ≤ 0x39 := by
  unfold lit at h
  rw [Nat.toList_repr] at h
  obtain ⟨d, hd, rfl⟩ := List.mem_map.mp h
  have hdigit := Nat.isDigit_of_mem_toDigits (by decide) (by decide) hd
  unfold Char.isDigit at hdigit
  simp only [ge_iff_le, Bool.and_eq_true, decide_eq_true_eq, UInt32.le_iff_toNat_le] at hdigit
  have hlow : 48 ≤ d.toNat := hdigit.1
  have hhigh : d.toNat ≤ 57 := hdigit.2
  have hsmall : d.toNat.toUInt8.toNat = d.toNat := Nat.mod_eq_of_lt (by omega)
  rw [UInt8.le_iff_toNat_le, UInt8.le_iff_toNat_le, hsmall]
  exact ⟨hlow, hhigh⟩

theorem number_ne_nil (n : Nat) : lit n.repr ≠ [] := by
  unfold lit
  rw [Nat.toList_repr]
  intro h
  exact Nat.toDigits_ne_nil (List.map_eq_nil_iff.mp h)

theorem wordChars_number (n : Nat) : ∀ c ∈ lit n.repr, isWordChar c = true := by
  intro c hc
  have hdigit := digit_of_mem_repr hc
  unfold isWordChar
  simp [hdigit.1, hdigit.2]

/-- The number a word of digits is. -/
def number (w : Bytes) : Option Nat :=
  if !w.isEmpty && w.all (fun c => 0x30 ≤ c && c ≤ 0x39) then
    some (w.foldl (fun n c => 10 * n + (c.toNat - 0x30)) 0)
  else none

theorem foldl_digits : ∀ {ds : List Char}, (∀ d ∈ ds, d.isDigit = true) → ∀ n : Nat,
    (ds.map (fun d => d.toNat.toUInt8)).foldl (fun n c => 10 * n + (c.toNat - 0x30)) n
      = Nat.ofDigitChars 10 ds n
  | [], _, _ => rfl
  | d :: ds, h, n => by
      have hdigit := h d (List.mem_cons_self ..)
      unfold Char.isDigit at hdigit
      simp only [ge_iff_le, Bool.and_eq_true, decide_eq_true_eq, UInt32.le_iff_toNat_le] at hdigit
      have hhigh : d.toNat ≤ 57 := hdigit.2
      have hsmall : d.toNat.toUInt8.toNat = d.toNat := Nat.mod_eq_of_lt (by omega)
      have ih := foldl_digits (fun e he => h e (List.mem_cons_of_mem _ he))
        (10 * n + (d.toNat - 0x30))
      rw [List.map_cons, List.foldl_cons, hsmall, ih, Nat.ofDigitChars_cons]
      rfl

/-- What is written is read. -/
theorem number_repr (n : Nat) : number (lit n.repr) = some n := by
  have hne : (lit n.repr).isEmpty = false := List.isEmpty_eq_false_iff.mpr (number_ne_nil n)
  have hdigits : (lit n.repr).all (fun c => 0x30 ≤ c && c ≤ 0x39) = true := by
    rw [List.all_eq_true]
    intro c hc
    rw [Bool.and_eq_true, decide_eq_true_eq, decide_eq_true_eq]
    exact digit_of_mem_repr hc
  have hvalue : (lit n.repr).foldl (fun n c => 10 * n + (c.toNat - 0x30)) 0 = n := by
    unfold lit
    rw [Nat.toList_repr, foldl_digits]
    · exact Nat.ofDigitChars_toDigits (by decide) (by decide)
    · intro d hd
      exact Nat.isDigit_of_mem_toDigits (by decide) (by decide) hd
  unfold number
  rw [hne, hdigits, hvalue]
  rfl

/-! ## Clauses -/

/-- The token is this keyword. -/
def Token.isKeyword (k : Bytes) : Token → Bool
  | .word w => upper w == k
  | _ => false

/-- A clause after the condition begins here. -/
def Token.opensClause (t : Token) : Bool := t.isKeyword (lit "ORDER") || t.isKeyword (lit "LIMIT")

/-- A column to order by, and whether upwards. -/
structure Term where
  column : Bytes
  ascending : Bool
  deriving Repr, DecidableEq

/-- `a`, `a ASC` or `a DESC`. -/
def orderingTerm : List Token → Option Term
  | [.word w] => if isName w then some ⟨w, true⟩ else none
  | [.word w, .word d] =>
      if isName w = true ∧ upper d = lit "ASC" then some ⟨w, true⟩
      else if isName w = true ∧ upper d = lit "DESC" then some ⟨w, false⟩
      else none
  | _ => none

/-- The clause that orders, if there is one. -/
def parseOrder : List Token → Option (List Term)
  | [] => some []
  | ts => (keyword (lit "ORDER") ts).bind fun ts =>
      (keyword (lit "BY") ts).bind fun ts => (ts.splitOn .comma).mapM orderingTerm

/-- A limit, and how many rows are skipped. -/
def parseLimit : List Token → Option (Option Nat × Option Nat)
  | [] => some (none, none)
  | [.word k, .word n] =>
      if upper k = lit "LIMIT" then (number n).map fun n => (some n, none) else none
  | [.word k, .word n, .word o, .word m] =>
      if upper k = lit "LIMIT" ∧ upper o = lit "OFFSET" then
        (number n).bind fun n => (number m).map fun m => (some n, some m)
      else none
  -- with a comma it is the other way round
  | [.word k, .word m, .comma, .word n] =>
      if upper k = lit "LIMIT" then
        (number n).bind fun n => (number m).map fun m => (some n, some m)
      else none
  | _ => none

/-- What follows the table of a selection. -/
structure Clauses where
  cond : Option Cond
  order : List Term
  limit : Option Nat
  offset : Option Nat
  deriving Repr, DecidableEq

def parseClauses (ts : List Token) : Option Clauses :=
  (parseWhere 0 (ts.takeWhile (!·.opensClause))).bind fun cond =>
    (parseOrder ((ts.dropWhile (!·.opensClause)).takeWhile (!·.isKeyword (lit "LIMIT")))).bind
      fun order =>
        (parseLimit ((ts.dropWhile (!·.opensClause)).dropWhile (!·.isKeyword (lit "LIMIT")))).map
          fun limits => ⟨cond, order, limits.1, limits.2⟩

/-- The columns that are selected. A `*` is an empty list. -/
def resultColumns : List Token → Option (List Bytes × List Token)
  | .star :: ts => some ([], ts)
  | ts => nameList ts

/-- A selection: its columns, its table and what follows. -/
structure Selection where
  columns : List Bytes
  table : Bytes
  clauses : Clauses
  deriving Repr, DecidableEq

/-- Read a selection. -/
def parseSelection (ts : List Token) : Option Selection :=
  (keyword (lit "SELECT") ts).bind fun ts =>
    (resultColumns ts).bind fun (columns, ts) =>
      (keyword (lit "FROM") ts).bind fun ts =>
        (name ts).bind fun (table, ts) => (parseClauses ts).map (⟨columns, table, ·⟩)

/-! ## Clauses one after another -/

/-- No clause begins in this text. -/
def Plain (text : Bytes) : Prop := ∀ t ∈ (scan .idle text).1, t.opensClause = false

instance (text : Bytes) : Decidable (Plain text) :=
  inferInstanceAs (Decidable (∀ t ∈ (scan .idle text).1, Token.opensClause t = false))

theorem Plain.append {a b : Bytes} (hwhole : Whole a) (ha : Plain a) (hb : Plain b) :
    Plain (a ++ b) := by
  intro t ht
  unfold Whole at hwhole
  rw [scan_append, hwhole] at ht
  exact (List.mem_append.mp ht).elim (ha t) (hb t)

theorem opensClause_of_isName {w : Bytes} (h : isName w = true) :
    (Token.word w).opensClause = false := by
  have horder : ¬ upper w = lit "ORDER" := not_keyword_of_isName h (by decide)
  have hlimit : ¬ upper w = lit "LIMIT" := not_keyword_of_isName h (by decide)
  unfold Token.opensClause Token.isKeyword
  simp only [Bool.or_eq_false_iff, beq_eq_false_iff_ne]
  exact ⟨horder, hlimit⟩

theorem opensClause_of_cmpOp {t : Token} {op : CmpOp} (h : t.cmpOp = some op) :
    t.opensClause = false := by
  cases t with
  | word w =>
    -- the only operator that is a word
    have hlike : upper w = lit "LIKE" := by
      unfold Token.cmpOp at h
      dsimp only at h
      split at h
      · assumption
      · cases h
    unfold Token.opensClause Token.isKeyword
    dsimp only
    rw [hlike]
    rfl
  | _ => rfl

/-- A clause that begins with its keyword, if it is there. -/
def Opened (k : Bytes) (ts : List Token) : Prop := ts = [] ∨ ∃ w us, ts = .word w :: us ∧ upper w = k

theorem takeWhile_opened {p : Token → Bool} {k : Bytes} (hp : ∀ w, upper w = k → p (.word w) = false)
    {ts : List Token} (h : Opened k ts) : ts.takeWhile p = [] := by
  rcases h with rfl | ⟨w, us, rfl, hw⟩
  · rfl
  · rw [List.takeWhile_cons, hp w hw]
    rfl

theorem dropWhile_opened {p : Token → Bool} {k : Bytes} (hp : ∀ w, upper w = k → p (.word w) = false)
    {ts : List Token} (h : Opened k ts) : ts.dropWhile p = ts := by
  rcases h with rfl | ⟨w, us, rfl, hw⟩
  · rfl
  · rw [List.dropWhile_cons, hp w hw]
    rfl

/-- Each clause is read by itself. -/
theorem parseClauses_append {wheres orders limits : List Token}
    (hwheres : ∀ t ∈ wheres, t.opensClause = false) (horder : Opened (lit "ORDER") orders)
    (horders : ∀ t ∈ orders, t.isKeyword (lit "LIMIT") = false)
    (hlimit : Opened (lit "LIMIT") limits) :
    parseClauses (wheres ++ (orders ++ limits)) =
      (parseWhere 0 wheres).bind fun cond =>
        (parseOrder orders).bind fun order =>
          (parseLimit limits).map fun l => ⟨cond, order, l.1, l.2⟩ := by
  have hopens : ∀ w, upper w = lit "ORDER" ∨ upper w = lit "LIMIT" →
      (!(Token.word w).opensClause) = false := by
    intro w hw
    unfold Token.opensClause Token.isKeyword
    simp only [Bool.not_eq_false', Bool.or_eq_true, beq_iff_eq]
    exact hw
  have hlimits : ∀ w, upper w = lit "LIMIT" → (!(Token.word w).isKeyword (lit "LIMIT")) = false := by
    intro w hw
    unfold Token.isKeyword
    simp only [Bool.not_eq_false', beq_iff_eq]
    exact hw
  have hplain : ∀ t ∈ wheres, (!t.opensClause) = true := by
    intro t ht
    rw [hwheres t ht]
    rfl
  have hinside : ∀ t ∈ orders, (!t.isKeyword (lit "LIMIT")) = true := by
    intro t ht
    rw [horders t ht]
    rfl
  -- what is left after the condition begins a clause, or is nothing
  have hrest : (orders ++ limits).takeWhile (!·.opensClause) = [] ∧
      (orders ++ limits).dropWhile (!·.opensClause) = orders ++ limits := by
    rcases horder with rfl | ⟨w, us, rfl, hw⟩
    · exact ⟨takeWhile_opened (fun w hw => hopens w (Or.inr hw)) hlimit,
        dropWhile_opened (fun w hw => hopens w (Or.inr hw)) hlimit⟩
    · have hopened : Opened (lit "ORDER") (.word w :: us ++ limits) := Or.inr ⟨w, us ++ limits, rfl, hw⟩
      exact ⟨takeWhile_opened (fun w hw => hopens w (Or.inl hw)) hopened,
        dropWhile_opened (fun w hw => hopens w (Or.inl hw)) hopened⟩
  unfold parseClauses
  rw [List.takeWhile_append_of_pos hplain, List.dropWhile_append_of_pos hplain, hrest.1, hrest.2,
    List.append_nil, List.takeWhile_append_of_pos hinside, List.dropWhile_append_of_pos hinside,
    takeWhile_opened hlimits hlimit, dropWhile_opened hlimits hlimit, List.append_nil]

/-- Without a comma there is one term. -/
theorem parseOrder_single {k b : Bytes} (hk : upper k = lit "ORDER") (hb : upper b = lit "BY")
    {ts : List Token} (h : .comma ∉ ts) :
    parseOrder (.word k :: .word b :: ts) = (orderingTerm ts).map ([·]) := by
  rw [parseOrder]
  · rw [keyword_word hk, Option.bind_some, keyword_word hb, Option.bind_some,
      List.splitOn_eq_singleton h, List.mapM_cons, List.mapM_nil]
    cases orderingTerm ts with
    | none => rfl
    | some t => rfl
  · exact List.cons_ne_nil _ _

theorem orderingTerm_none {ts : List Token} (h : 2 < ts.length) : orderingTerm ts = none := by
  unfold orderingTerm
  split
  · exact absurd h (by simp)
  · exact absurd h (by simp)
  · rfl

/-- A number is no keyword. -/
theorem upper_number {k : Bytes} (hk : ∃ c ∈ k, 0x39 < c) (n : Nat) : upper (lit n.repr) ≠ k := by
  rintro rfl
  obtain ⟨d, hd, hhigh⟩ := hk
  unfold upper at hd
  obtain ⟨c, hc, rfl⟩ := List.mem_map.mp hd
  have hle := (digit_of_mem_repr hc).2
  have hletter : ¬ (0x61 ≤ c ∧ c ≤ 0x7A) := by
    intro hletter
    exact absurd (UInt8.le_trans hletter.1 hle) (by decide)
  rw [if_neg hletter] at hhigh
  exact absurd (UInt8.lt_of_le_of_lt hle hhigh) (UInt8.lt_irrefl _)

theorem opensClause_number (n : Nat) : (Token.word (lit n.repr)).opensClause = false := by
  have horder : upper (lit n.repr) ≠ lit "ORDER" := upper_number ⟨0x4F, by decide, by decide⟩ n
  have hlimit : upper (lit n.repr) ≠ lit "LIMIT" := upper_number ⟨0x4C, by decide, by decide⟩ n
  unfold Token.opensClause Token.isKeyword
  simp only [Bool.or_eq_false_iff, beq_eq_false_iff_ne]
  exact ⟨horder, hlimit⟩

/-- A condition cannot go on with an offset, wherever it is. -/
theorem push_offset {o : Bytes} (ho : upper o = lit "OFFSET") (n : Nat) (r : Reading) :
    [Token.word o, .word (lit n.repr)].foldlM Reading.push r = none := by
  obtain ⟨outer, level, part, params⟩ := r
  have hand : ¬ upper o = lit "AND" := by
    rw [ho]
    decide
  have hor : ¬ upper o = lit "OR" := by
    rw [ho]
    decide
  have hlike : ¬ upper o = lit "LIKE" := by
    rw [ho]
    decide
  have hnumber : upper (lit n.repr) ≠ lit "LIKE" := upper_number ⟨0x4C, by decide, by decide⟩ n
  rw [List.foldlM_cons]
  cases part with
  | operand =>
    -- the word may be the name of a column, but the number is no operator
    have hcolumn : Reading.push ⟨outer, level, .column o, params⟩ (.word (lit n.repr)) = none := by
      unfold Reading.push Token.cmpOp
      dsimp only
      rw [if_neg hnumber]
      rfl
    have hpush : Reading.push ⟨outer, level, .operand, params⟩ (.word o)
        = if isName o then some ⟨outer, level, .column o, params⟩ else none := rfl
    rw [hpush]
    by_cases hname : isName o = true
    · rw [if_pos hname]
      show List.foldlM _ _ _ = none
      rw [List.foldlM_cons, hcolumn]
      rfl
    · rw [if_neg hname]
      rfl
  | column c =>
    have hpush : Reading.push ⟨outer, level, .column c, params⟩ (.word o) = none := by
      unfold Reading.push Token.cmpOp
      dsimp only
      rw [if_neg hlike]
      rfl
    rw [hpush]
    rfl
  | operator c op => rfl
  | done =>
    have hpush : Reading.push ⟨outer, level, .done, params⟩ (.word o) = none := by
      unfold Reading.push
      dsimp only
      rw [if_neg hand, if_neg hor]
    rw [hpush]
    rfl

/-- An offset does not belong to a condition. -/
theorem parseWhere_offset {o : Bytes} (ho : upper o = lit "OFFSET") (n : Nat) (k : Nat)
    (ts : List Token) : parseWhere k (ts ++ [.word o, .word (lit n.repr)]) = none := by
  have hwhere : ¬ upper o = lit "WHERE" := by
    rw [ho]
    decide
  cases ts with
  | nil =>
    rw [List.nil_append, parseWhere, keyword, if_neg hwhere]
    · rfl
    · exact List.cons_ne_nil _ _
  | cons t ts =>
    rw [List.cons_append, parseWhere]
    · cases hkeyword : keyword (lit "WHERE") (t :: (ts ++ [.word o, .word (lit n.repr)])) with
      | none => rfl
      | some us =>
        have hus : us = ts ++ [.word o, .word (lit n.repr)] := by
          unfold keyword at hkeyword
          split at hkeyword
          · rename_i hcons
            obtain ⟨-, rfl⟩ := List.cons.inj hcons
            split at hkeyword
            · exact (Option.some.inj hkeyword).symm
            · cases hkeyword
          · cases hkeyword
        have hcond : parseCond k us = none := by
          unfold parseCond
          rw [hus, List.foldlM_append]
          cases List.foldlM Reading.push (Reading.init k) ts with
          | none => rfl
          | some r =>
            show Option.bind (List.foldlM _ r _) _ = none
            rw [push_offset ho n r]
            rfl
        rw [Option.bind_some, hcond]
        rfl
    · exact List.cons_ne_nil _ _

end Zway.Sql
