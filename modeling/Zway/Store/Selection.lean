import Zway.Lib.Select
import Zway.Store.Where

/-!
# The text of a query, clause by clause

`QueryAction` puts five parts behind one another, each of which may be missing. The text
is read back here as a selection, and compared with what was asked for: the columns, the
table, the condition, the terms to order by, the limit and the offset.
-/

namespace Zway.Ubj.Store

open Sql

/-! ## What is asked for -/

/-- The terms of an order: a field that is positive is ordered by upwards. -/
def orderTerms (order : Object) : List Term :=
  order.map fun p => ⟨p.1, decide (0 < p.2.toInt.toInt)⟩

/-- A limit or an offset, where zero and less mean none. -/
def givenNumber (n : BitVec 32) : Option Nat := if 0 < n.toInt then some n.toNat else none

/-- The text is a selection, with the clauses that were given. -/
def WellFormed (table : Bytes) (query order : Object) (fields : List Bytes)
    (limit offset : BitVec 32) : Prop :=
  ∃ cond, parseWhere 0 (tokens (whereText query)) = some cond ∧
    parseSelection (tokens (QueryAction.sql table query order fields limit offset).1) =
      some ⟨fields, table, ⟨cond, orderTerms order, givenNumber limit, givenNumber offset⟩⟩

/-! ## The condition -/

theorem Composed.plain {text : Bytes} (h : Composed text) : Plain text := by
  have hand : Plain (lit " AND ") := by decide
  have hor : Plain (lit " OR ") := by decide
  have hlparen : Plain (lit "(") := by decide
  have hrparen : Plain (lit ")") := by decide
  induction h with
  | nil =>
    intro t ht
    cases ht
  | term hcolumn hop =>
    obtain ⟨c, cs, token, rfl, hc, hscan, hcmp⟩ := hop
    intro t ht
    rw [scan_compare hcolumn hc hscan] at ht
    simp only [List.mem_cons, List.not_mem_nil, or_false] at ht
    rcases ht with rfl | rfl | rfl
    · exact opensClause_of_isName hcolumn
    · exact opensClause_of_cmpOp hcmp
    · rfl
  | and ha hb iha ihb => exact (iha.append ha.whole hand).append (ha.whole.append whole_and) ihb
  | or ha hb iha ihb => exact (iha.append ha.whole hor).append (ha.whole.append whole_or) ihb
  | paren ha iha =>
    exact (hlparen.append whole_lparen iha).append (whole_lparen.append ha.whole) hrparen

theorem scan_whereText {query : Object} (h : WellNamed query) :
    scan .idle (whereText query) = (tokens (whereText query), .idle) := by
  have hwhole : Whole (whereText query) := by
    have hwhere : Whole (lit " WHERE ") := rfl
    unfold whereText
    split
    · exact rfl
    · exact hwhere.append (whole_wherePart h)
  exact Prod.ext hwhole.tokens.symm hwhole

theorem plain_whereText {query : Object} (h : WellNamed query) :
    ∀ t ∈ tokens (whereText query), t.opensClause = false := by
  have hwhere : Plain (lit " WHERE ") := by decide
  have hplain : Plain (whereText query) := by
    unfold whereText
    split
    · intro t ht
      cases ht
    · exact hwhere.append rfl (composed_wherePart h).plain
  intro t ht
  refine hplain t ?_
  rw [scan_whereText h]
  exact ht

/-- The condition can be read exactly if there is none, or every entry has a term. -/
theorem parseWhere_isSome {query : Object} (h : WellNamed query) :
    (∃ cond, parseWhere 0 (tokens (whereText query)) = some cond) ↔
      whereText query = [] ∨ complete query = true := by
  constructor
  · rintro ⟨cond, hcond⟩
    by_cases hcomplete : complete query = true
    · exact Or.inr hcomplete
    · refine Or.inl ?_
      by_contra hne
      rcases parseWhere_of_not_complete 0 h (Bool.eq_false_iff.mpr hcomplete) with hnone | hall
      · rw [hnone] at hcond
        cases hcond
      · -- a text is never read as no condition
        unfold whereText at hne hall
        split at hne
        · exact hne rfl
        · rename_i hempty
          rw [if_neg hempty, parseWhere_text] at hall
          cases hparse : parseCond 0 (tokens (wherePart query).1) with
          | none =>
            rw [hparse] at hall
            cases hall
          | some c =>
            rw [hparse] at hall
            cases hall
  · rintro (hempty | hcomplete)
    · exact ⟨none, by rw [hempty]; rfl⟩
    · obtain ⟨⟨selects, hsome, -⟩, -⟩ :=
        whereMeaning_of_complete (fun (_ : Unit) _ _ _ => true) [] h hcomplete
      unfold whereMeaning at hsome
      obtain ⟨cond, hcond, -⟩ := Option.map_eq_some_iff.mp hsome
      exact ⟨cond, hcond⟩

/-! ## The order -/

/-- The tokens of an order. There are no commas between the fields. -/
def orderTokens (order : Object) : List Token :=
  order.flatMap fun p =>
    [.word p.1, .word (if 0 < p.2.toInt.toInt then lit "ASC" else lit "DESC")]

theorem scan_orderPart : ∀ {order : Object}, Named order →
    scan .idle (orderPart order) = (orderTokens order, .idle)
  | [], _ => rfl
  | (key, v) :: order, h => by
      have ih := scan_orderPart h.tail
      have htext : orderPart ((key, v) :: order)
          = (key ++ if 0 < v.toInt.toInt then lit " ASC " else lit " DESC ") ++ orderPart order := rfl
      have hfield : scan .idle (key ++ if 0 < v.toInt.toInt then lit " ASC " else lit " DESC ")
          = ([.word key, .word (if 0 < v.toInt.toInt then lit "ASC" else lit "DESC")], .idle) := by
        have hspace : isWordChar 0x20 = false := by decide
        by_cases hpos : 0 < v.toInt.toInt
        · rw [if_pos hpos, if_pos hpos]
          exact scan_name h.head hspace (lit "ASC ")
        · rw [if_neg hpos, if_neg hpos]
          exact scan_name h.head hspace (lit "DESC ")
      rw [htext, scan_idle_append hfield, ih]
      rfl

theorem orderPart_isEmpty {order : Object} : (orderPart order).isEmpty = order.isEmpty := by
  cases order with
  | nil => rfl
  | cons p order =>
    have hne : orderPart (p :: order) ≠ [] := by
      unfold orderPart
      rw [List.flatMap_cons]
      refine List.append_ne_nil_of_left_ne_nil (List.append_ne_nil_of_right_ne_nil _ ?_) _
      split
      · exact List.cons_ne_nil _ _
      · exact List.cons_ne_nil _ _
    rw [List.isEmpty_eq_false_iff.mpr hne]
    rfl

/-- The tokens of the clause that orders. -/
def orderClause (order : Object) : List Token :=
  if order.isEmpty then [] else .word (lit "ORDER") :: .word (lit "BY") :: orderTokens order

theorem opened_orderClause (order : Object) : Opened (lit "ORDER") (orderClause order) := by
  unfold orderClause
  split
  · exact Or.inl rfl
  · exact Or.inr ⟨lit "ORDER", _, rfl, by decide⟩

theorem orderTokens_mem {order : Object} (h : Named order) :
    ∀ t ∈ orderTokens order, t ≠ .comma ∧ t.isKeyword (lit "LIMIT") = false := by
  intro t ht
  obtain ⟨p, hp, ht⟩ := List.mem_flatMap.mp ht
  simp only [List.mem_cons, List.not_mem_nil, or_false] at ht
  rcases ht with rfl | rfl
  · have hopens := opensClause_of_isName (h p hp)
    unfold Token.opensClause at hopens
    rw [Bool.or_eq_false_iff] at hopens
    exact ⟨nofun, hopens.2⟩
  · refine ⟨nofun, ?_⟩
    split
    · rfl
    · rfl

theorem orderClause_mem {order : Object} (h : Named order) :
    ∀ t ∈ orderClause order, t.isKeyword (lit "LIMIT") = false := by
  intro t ht
  unfold orderClause at ht
  split at ht
  · cases ht
  · rcases List.mem_cons.mp ht with rfl | ht
    · rfl
    · rcases List.mem_cons.mp ht with rfl | ht
      · rfl
      · exact (orderTokens_mem h t ht).2

theorem orderTokens_length (order : Object) : (orderTokens order).length = 2 * order.length := by
  induction order with
  | nil => rfl
  | cons p order ih =>
    show (orderTokens order).length + 2 = 2 * (order.length + 1)
    omega

/-- An order of more than one field is none, and nor is one with something behind it. -/
theorem parseOrder_none {order : Object} (h : Named order) {ts : List Token} (hts : .comma ∉ ts)
    (hne : order ≠ []) (hlong : 2 < (orderTokens order ++ ts).length) :
    parseOrder (orderClause order ++ ts) = none := by
  have hcomma : .comma ∉ orderTokens order ++ ts := by
    intro hmem
    rcases List.mem_append.mp hmem with hmem | hmem
    · exact (orderTokens_mem h _ hmem).1 rfl
    · exact hts hmem
  have hclause : orderClause order ++ ts
      = .word (lit "ORDER") :: .word (lit "BY") :: (orderTokens order ++ ts) := by
    cases order with
    | nil => exact absurd rfl hne
    | cons p order => rfl
  rw [hclause, parseOrder_single (by decide) (by decide) hcomma, orderingTerm_none hlong]
  rfl

theorem parseOrder_clause {order : Object} (h : Named order) (hlen : order.length ≤ 1) :
    parseOrder (orderClause order) = some (orderTerms order) := by
  match order, hlen with
  | [], _ => rfl
  | [(key, v)], _ =>
    have hname : isName key = true := h.head
    have hcomma : .comma ∉ orderTokens [(key, v)] := by
      intro hmem
      exact (orderTokens_mem h _ hmem).1 rfl
    have hterm : orderingTerm (orderTokens [(key, v)]) = some ⟨key, decide (0 < v.toInt.toInt)⟩ := by
      show orderingTerm [.word key, .word (if 0 < v.toInt.toInt then lit "ASC" else lit "DESC")] = _
      by_cases hpos : 0 < v.toInt.toInt
      · rw [if_pos hpos, orderingTerm, if_pos ⟨hname, by decide⟩, decide_eq_true hpos]
      · have hasc : ¬ (isName key = true ∧ upper (lit "DESC") = lit "ASC") := by
          intro hboth
          exact absurd hboth.2 (by decide)
        rw [if_neg hpos, orderingTerm, if_neg hasc, if_pos ⟨hname, by decide⟩,
          decide_eq_false hpos]
    show parseOrder (.word (lit "ORDER") :: .word (lit "BY") :: orderTokens [(key, v)]) = _
    rw [parseOrder_single (by decide) (by decide) hcomma, hterm]
    rfl

/-! ## The limits -/

/-- The tokens of the limit, and of the offset. -/
def limitClause (limit : BitVec 32) : List Token :=
  if 0 < limit.toInt then [.word (lit "LIMIT"), .word (lit limit.toNat.repr)] else []

def offsetClause (offset : BitVec 32) : List Token :=
  if 0 < offset.toInt then [.word (lit "OFFSET"), .word (lit offset.toNat.repr)] else []

theorem parseLimit_clauses {limit offset : BitVec 32} (h : 0 < offset.toInt → 0 < limit.toInt) :
    parseLimit (limitClause limit ++ offsetClause offset)
      = some (givenNumber limit, givenNumber offset) := by
  unfold limitClause offsetClause givenNumber
  by_cases hlimit : 0 < limit.toInt
  · rw [if_pos hlimit, if_pos hlimit]
    by_cases hoffset : 0 < offset.toInt
    · have hwords : upper (lit "LIMIT") = lit "LIMIT" ∧ upper (lit "OFFSET") = lit "OFFSET" := by
        decide
      rw [if_pos hoffset, if_pos hoffset]
      show parseLimit [.word (lit "LIMIT"), .word (lit limit.toNat.repr), .word (lit "OFFSET"),
        .word (lit offset.toNat.repr)] = _
      rw [parseLimit, if_pos hwords, number_repr, number_repr]
      rfl
    · have hword : upper (lit "LIMIT") = lit "LIMIT" := by decide
      rw [if_neg hoffset, if_neg hoffset, List.append_nil, parseLimit, if_pos hword, number_repr]
      rfl
  · have hoffset : ¬ 0 < offset.toInt := fun hpos => hlimit (h hpos)
    rw [if_neg hlimit, if_neg hlimit, if_neg hoffset, if_neg hoffset]
    rfl

theorem opened_limitClause {limit offset : BitVec 32} (h : 0 < offset.toInt → 0 < limit.toInt) :
    Opened (lit "LIMIT") (limitClause limit ++ offsetClause offset) := by
  unfold limitClause offsetClause
  by_cases hlimit : 0 < limit.toInt
  · rw [if_pos hlimit]
    exact Or.inr ⟨lit "LIMIT", _, rfl, by decide⟩
  · have hoffset : ¬ 0 < offset.toInt := fun hpos => hlimit (h hpos)
    rw [if_neg hlimit, if_neg hoffset]
    exact Or.inl rfl

/-! ## The text -/

/-- The clause that orders, as a text. -/
def orderText (order : Object) : Bytes :=
  if (orderPart order).isEmpty then [] else lit " ORDER BY " ++ orderPart order

/-- The limit and the offset, as a text. -/
def limitText (limit offset : BitVec 32) : Bytes :=
  (if 0 < limit.toInt then lit " LIMIT " ++ lit limit.toNat.repr else [])
    ++ (if 0 < offset.toInt then lit " OFFSET " ++ lit offset.toNat.repr else [])

/-- What follows the table. -/
def tailText (query order : Object) (limit offset : BitVec 32) : Bytes :=
  whereText query ++ (orderText order ++ limitText limit offset)

theorem scan_orderText {order : Object} (h : Named order) :
    scan .idle (orderText order) = (orderClause order, .idle) := by
  have horder : scan .idle (lit " ORDER BY ") = ([.word (lit "ORDER"), .word (lit "BY")], .idle) := by
    decide
  unfold orderText orderClause
  rw [orderPart_isEmpty]
  split
  · rfl
  · rw [scan_idle_append horder, scan_orderPart h]
    rfl

theorem tokens_limitText (limit offset : BitVec 32) :
    tokens (limitText limit offset) = limitClause limit ++ offsetClause offset := by
  have hlimit : scan .idle (lit " LIMIT ") = ([.word (lit "LIMIT")], .idle) := by decide
  have hoffset : scan .idle (lit " OFFSET ") = ([.word (lit "OFFSET")], .idle) := by decide
  have hopen : lit " OFFSET " = 0x20 :: lit "OFFSET " := rfl
  have hspace : isWordChar 0x20 = false := by decide
  have hne := number_ne_nil limit.toNat
  have hchars := wordChars_number limit.toNat
  have hlast : tokens (lit " OFFSET " ++ lit offset.toNat.repr)
      = [.word (lit "OFFSET"), .word (lit offset.toNat.repr)] := by
    rw [tokens_append hoffset,
      tokens_wordChars (number_ne_nil offset.toNat) (wordChars_number offset.toNat),
      List.singleton_append]
  unfold limitText limitClause offsetClause
  by_cases hpos : 0 < limit.toInt
  · rw [if_pos hpos, if_pos hpos, List.append_assoc, tokens_append hlimit]
    by_cases hskip : 0 < offset.toInt
    · -- the number of the limit ends at the space in front of `OFFSET`
      rw [hopen, List.cons_append] at hlast
      rw [if_pos hskip, if_pos hskip, hopen, @List.cons_append _ 0x20,
        tokens_wordChars_append hne hchars hspace, hlast, List.singleton_append,
        List.cons_append, List.singleton_append]
    · rw [if_neg hskip, if_neg hskip, List.append_nil, tokens_wordChars hne hchars,
        List.append_nil, List.singleton_append]
  · rw [if_neg hpos, if_neg hpos, List.nil_append, List.nil_append]
    by_cases hskip : 0 < offset.toInt
    · rw [if_pos hskip, if_pos hskip, hlast]
    · rw [if_neg hskip, if_neg hskip]
      rfl

theorem tokens_tailText {query order : Object} (hq : WellNamed query) (ho : Named order)
    (limit offset : BitVec 32) :
    tokens (tailText query order limit offset) =
      tokens (whereText query) ++ (orderClause order ++ (limitClause limit ++ offsetClause offset)) := by
  unfold tailText
  rw [tokens_append (scan_whereText hq), tokens_append (scan_orderText ho), tokens_limitText]

theorem tailText_cases (query order : Object) (limit offset : BitVec 32) :
    tailText query order limit offset = [] ∨ ∃ cs, tailText query order limit offset = 0x20 :: cs := by
  have hlimit : limitText limit offset = [] ∨ ∃ cs, limitText limit offset = 0x20 :: cs := by
    unfold limitText
    split
    · exact Or.inr ⟨_, rfl⟩
    · split
      · exact Or.inr ⟨_, rfl⟩
      · exact Or.inl rfl
  have horder : orderText order = [] ∨ ∃ cs, orderText order = 0x20 :: cs := by
    unfold orderText
    split
    · exact Or.inl rfl
    · exact Or.inr ⟨_, rfl⟩
  unfold tailText
  rcases whereText_cases query with hwhere | ⟨cs, hwhere⟩
  · rw [hwhere, List.nil_append]
    rcases horder with hnil | ⟨cs, hcs⟩
    · rw [hnil, List.nil_append]
      exact hlimit
    · rw [hcs]
      exact Or.inr ⟨_, rfl⟩
  · rw [hwhere]
    exact Or.inr ⟨_, rfl⟩

section

variable {table : Bytes} (ht : isName table = true) {query order : Object} (hq : WellNamed query)
  (ho : Named order) {fields : List Bytes} (hf : ∀ f ∈ fields, isName f = true)
  (limit offset : BitVec 32)

include ht in
theorem tokens_tableTail :
    tokens (table ++ tailText query order limit offset)
      = .word table :: tokens (tailText query order limit offset) := by
  rcases tailText_cases query order limit offset with h | ⟨cs, h⟩
  · rw [h, List.append_nil, tokens_name_nil ht]
    rfl
  · rw [h, tokens_name ht (by decide)]

include ht hf in
/-- The columns and the table are read as they were given. -/
theorem parseSelection_query :
    parseSelection (tokens (QueryAction.sql table query order fields limit offset).1) =
      (parseClauses (tokens (tailText query order limit offset))).map (⟨fields, table, ·⟩) := by
  have hselect : scan .idle (lit "SELECT ") = ([.word (lit "SELECT")], .idle) := by decide
  have hsql : (QueryAction.sql table query order fields limit offset).1
      = lit "SELECT " ++ ((if (fieldsToReturnPart fields).isEmpty then lit "* FROM " ++ table
        else fieldsToReturnPart fields ++ lit " FROM " ++ table)
          ++ tailText query order limit offset) := by
    unfold QueryAction.sql tailText orderText limitText
    simp only [List.append_assoc]
  have hfrom : ∀ columns, ((keyword (lit "FROM")
      (.word (lit "FROM") :: tokens (table ++ tailText query order limit offset))).bind fun ts =>
        (name ts).bind fun p => (parseClauses p.2).map (Selection.mk columns p.1))
      = (parseClauses (tokens (tailText query order limit offset))).map (⟨columns, table, ·⟩) := by
    intro columns
    rw [keyword_word (by decide), Option.bind_some, tokens_tableTail ht limit offset, name_word ht]
    rfl
  rw [hsql, tokens_append hselect]
  unfold parseSelection
  rw [List.singleton_append, keyword_word (by decide), Option.bind_some]
  by_cases hnil : fields = []
  · have hstar : scan .idle (lit "* FROM ") = ([.star, .word (lit "FROM")], .idle) := by decide
    have hempty : (fieldsToReturnPart fields).isEmpty = true := by
      rw [hnil]
      rfl
    rw [if_pos hempty, List.append_assoc, tokens_append hstar, hnil]
    exact hfrom []
  · have hspace : isWordChar 0x20 = false := by decide
    have hword : scan .idle (0x20 :: lit "FROM ") = ([.word (lit "FROM")], .idle) := by decide
    have hfields := scan_fieldsToReturnPart hf hnil hspace
      (lit "FROM " ++ (table ++ tailText query order limit offset))
    have htable := tokens_append hword (table ++ tailText query order limit offset)
    have htext : tokens (fieldsToReturnPart fields ++ lit " FROM " ++ table
        ++ tailText query order limit offset)
        = nameTokens fields ++ (.word (lit "FROM") ::
            tokens (table ++ tailText query order limit offset)) := by
      have hassoc : fieldsToReturnPart fields ++ lit " FROM " ++ table
          ++ tailText query order limit offset = fieldsToReturnPart fields ++ 0x20 :: (lit "FROM "
            ++ (table ++ tailText query order limit offset)) := by
        rw [List.append_assoc, List.append_assoc]
        rfl
      rw [hassoc]
      unfold tokens at htable ⊢
      rw [hfields]
      show nameTokens fields ++ _ ++ _ = _
      rw [List.append_assoc]
      exact congrArg (nameTokens fields ++ ·) htable
    have hcolumns : resultColumns (nameTokens fields ++ (.word (lit "FROM") ::
        tokens (table ++ tailText query order limit offset)))
        = some (fields, .word (lit "FROM") :: tokens (table ++ tailText query order limit offset)) := by
      have hlist := @nameList_nameTokens _ hnil hf
        (.word (lit "FROM") :: tokens (table ++ tailText query order limit offset)) nofun
      cases fields with
      | nil => exact absurd rfl hnil
      | cons f rest =>
        cases rest with
        | nil => exact hlist
        | cons g rest => exact hlist
    rw [if_neg (by rw [fieldsToReturnPart_isEmpty hf hnil]; exact Bool.false_ne_true), htext,
      hcolumns, Option.bind_some]
    exact hfrom fields

include hq ho in
/-- What follows the table is read clause by clause, as long as no offset is without a limit. -/
theorem parseClauses_tail (hlimit : 0 < offset.toInt → 0 < limit.toInt) :
    parseClauses (tokens (tailText query order limit offset)) =
      (parseWhere 0 (tokens (whereText query))).bind fun cond =>
        (parseOrder (orderClause order)).map fun terms =>
          ⟨cond, terms, givenNumber limit, givenNumber offset⟩ := by
  rw [tokens_tailText hq ho, parseClauses_append (plain_whereText hq) (opened_orderClause order)
    (orderClause_mem ho) (opened_limitClause hlimit), parseLimit_clauses hlimit]
  refine congrArg (Option.bind _) (funext fun cond => ?_)
  cases parseOrder (orderClause order) with
  | none => rfl
  | some terms => rfl

include hq ho in
/-- An offset without a limit belongs to nothing. -/
theorem parseClauses_offset (hoffset : 0 < offset.toInt) (hlimit : ¬ 0 < limit.toInt) :
    parseClauses (tokens (tailText query order limit offset)) = none := by
  have hclauses : limitClause limit ++ offsetClause offset
      = [.word (lit "OFFSET"), .word (lit offset.toNat.repr)] := by
    unfold limitClause offsetClause
    rw [if_neg hlimit, if_pos hoffset]
    rfl
  have hnumber := opensClause_number offset.toNat
  rw [tokens_tailText hq ho, hclauses]
  cases order with
  | nil =>
    have hplain : ∀ t ∈ tokens (whereText query)
        ++ [.word (lit "OFFSET"), .word (lit offset.toNat.repr)], t.opensClause = false := by
      intro t ht
      rcases List.mem_append.mp ht with ht | ht
      · exact plain_whereText hq t ht
      · simp only [List.mem_cons, List.not_mem_nil, or_false] at ht
        rcases ht with rfl | rfl
        · rfl
        · exact hnumber
    have hsplit := @parseClauses_append _ [] [] hplain (Or.inl rfl) nofun (Or.inl rfl)
    rw [List.append_nil, List.append_nil, parseWhere_offset (by decide)] at hsplit
    exact hsplit
  | cons p order =>
    have hnone : parseOrder (orderClause (p :: order)
        ++ [.word (lit "OFFSET"), .word (lit offset.toNat.repr)]) = none := by
      refine parseOrder_none ho (by simp) (List.cons_ne_nil _ _) ?_
      rw [List.length_append, orderTokens_length]
      show 2 < 2 * (order.length + 1) + 2
      omega
    have hmem : ∀ t ∈ orderClause (p :: order)
        ++ [.word (lit "OFFSET"), .word (lit offset.toNat.repr)],
        t.isKeyword (lit "LIMIT") = false := by
      intro t ht
      rcases List.mem_append.mp ht with ht | ht
      · exact orderClause_mem ho t ht
      · simp only [List.mem_cons, List.not_mem_nil, or_false] at ht
        rcases ht with rfl | rfl
        · rfl
        · unfold Token.opensClause at hnumber
          rw [Bool.or_eq_false_iff] at hnumber
          exact hnumber.2
    have hopened : Opened (lit "ORDER") (orderClause (p :: order)
        ++ [.word (lit "OFFSET"), .word (lit offset.toNat.repr)]) :=
      Or.inr ⟨lit "ORDER", _, rfl, by decide⟩
    have hsplit := parseClauses_append (plain_whereText hq) hopened hmem (Or.inl rfl)
    rw [List.append_nil, hnone] at hsplit
    rw [hsplit]
    cases parseWhere 0 (tokens (whereText query)) with
    | none => rfl
    | some cond => rfl

include ht hq ho hf in
/-- **The text of a query is a selection with the order, the limit and the offset that were given**
exactly if it is ordered by one field at most, an offset comes with a limit, and the condition has
no text, or every entry has a term in it. -/
theorem wellFormed_iff :
    WellFormed table query order fields limit offset ↔
      order.length ≤ 1 ∧ (0 < offset.toInt → 0 < limit.toInt) ∧
        (whereText query = [] ∨ complete query = true) := by
  rw [← parseWhere_isSome hq]
  unfold WellFormed
  rw [parseSelection_query ht hf]
  constructor
  · rintro ⟨cond, hcond, hselection⟩
    have hlimit : 0 < offset.toInt → 0 < limit.toInt := by
      intro hoffset
      by_contra hnone
      rw [parseClauses_offset hq ho limit offset hoffset hnone] at hselection
      cases hselection
    refine ⟨?_, hlimit, cond, hcond⟩
    by_contra hlen
    have hnone : parseOrder (orderClause order) = none := by
      have hlong := @parseOrder_none _ ho [] List.not_mem_nil (fun hnil => hlen (by rw [hnil]; simp))
      rw [List.append_nil, List.append_nil, orderTokens_length] at hlong
      exact hlong (by omega)
    rw [parseClauses_tail hq ho limit offset hlimit, hcond, hnone] at hselection
    cases hselection
  · rintro ⟨hlen, hlimit, cond, hcond⟩
    refine ⟨cond, hcond, ?_⟩
    rw [parseClauses_tail hq ho limit offset hlimit, hcond, parseOrder_clause ho hlen]
    rfl

end

/-- One row of a table, by one column, after skipping two. -/
theorem wellFormed_iff_page :
    WellFormed (lit "messages") [(lit "src", .int32 1)] [(lit "time", .int32 1)] [lit "id"] 1 2 ↔
      [(lit "time", Value.int32 1)].length ≤ 1 ∧
        (0 < (2 : BitVec 32).toInt → 0 < (1 : BitVec 32).toInt) ∧
        (whereText [(lit "src", .int32 1)] = [] ∨ complete [(lit "src", .int32 1)] = true) := by
  have hquery : WellNamed [(lit "src", .int32 1)] := by
    simp only [WellNamed, NamedEntry, and_true]
    decide
  exact wellFormed_iff (by decide) hquery (by unfold Named; decide) (by decide) 1 2

/-- Two columns to order by, without a comma. -/
theorem not_wellFormed_order :
    ¬ WellFormed (lit "messages") [] [(lit "a", .int32 1), (lit "b", .int32 1)] [] 0 0 := by
  have hnone : parseSelection (tokens (QueryAction.sql (lit "messages") []
      [(lit "a", .int32 1), (lit "b", .int32 1)] [] 0 0).1) = none := by decide
  rintro ⟨cond, -, h⟩
  rw [hnone] at h
  cases h

end Zway.Ubj.Store
