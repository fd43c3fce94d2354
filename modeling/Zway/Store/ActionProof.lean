import Zway.Store.Action

/-!
# The statements of the actions, read back

The texts the actions build are the statements they are meant to be, as long as tables
and columns have names. What is said here is where each `?` belongs; the conditions
are read in `Zway.Store.Where`.
-/

namespace Zway.Ubj.Store

open Sql

/-- Every field is the name of a column. -/
def Named (obj : Object) : Prop := ∀ p ∈ obj, isName p.1 = true

theorem Named.head {key : Bytes} {v : Value} {rest : Object} (h : Named ((key, v) :: rest)) :
    isName key = true := h _ (List.mem_cons_self ..)

theorem Named.tail {p : Bytes × Value} {rest : Object} (h : Named (p :: rest)) : Named rest :=
  fun q hq => h q (List.mem_cons_of_mem _ hq)

/-! ## Assignments -/

/-- The tokens of `Action::updatePart`. -/
def updateTokens : List Bytes → List Token
  | [] => []
  | [key] => [.word key, .eq, .param]
  | key :: keys => .word key :: .eq :: .param :: .comma :: updateTokens keys

theorem scan_updateText : ∀ {update : Object}, Named update → ∀ rest : Bytes,
    scan .idle (updateText update ++ rest) =
      (updateTokens (update.map (·.1)) ++ (scan .idle rest).1, (scan .idle rest).2)
  | [], _, _ => rfl
  | [(key, v)], h, rest => by
      rw [updateText, List.append_assoc]
      exact scan_name h.head (by decide) _
  | (key, v) :: q :: update, h, rest => by
      have ih := scan_updateText h.tail rest
      have htext : updateText ((key, v) :: q :: update) ++ rest
          = key ++ (0x3D :: 0x3F :: 0x2C :: (updateText (q :: update) ++ rest)) := by
        rw [updateText, List.append_assoc, List.append_assoc, List.append_assoc]
        · rfl
        · exact List.cons_ne_nil _ _
      have hhead : ∀ cs, scan .idle (0x3D :: 0x3F :: 0x2C :: cs)
          = (.eq :: .param :: .comma :: (scan .idle cs).1, (scan .idle cs).2) := fun _ => rfl
      rw [htext, scan_name h.head (by decide), hhead, ih]
      rfl

theorem assignments_updateTokens : ∀ {keys : List Bytes}, keys ≠ [] →
    (∀ key ∈ keys, isName key = true) → ∀ {ts : List Token}, (∀ us, ts ≠ .comma :: us) →
    assignments (updateTokens keys ++ ts) = some (keys, ts)
  | [], h, _, _, _ => absurd rfl h
  | [key], _, h, ts, hts => by
      have hkey := h key (List.mem_cons_self ..)
      show assignments (.word key :: .eq :: .param :: ts) = _
      rw [assignments]
      · exact if_pos hkey
      · exact hts
  | key :: k :: keys, _, h, ts, hts => by
      have hkey := h key (List.mem_cons_self ..)
      have ih := assignments_updateTokens (List.cons_ne_nil k keys)
        (fun c hc => h c (List.mem_cons_of_mem _ hc)) hts
      show assignments (.word key :: .eq :: .param :: .comma :: (updateTokens (k :: keys) ++ ts)) = _
      rw [assignments, if_pos hkey, ih]
      rfl

/-! ## Lists of names and of parameters -/

/-- The tokens of names between commas. -/
def nameTokens : List Bytes → List Token
  | [] => []
  | [key] => [.word key]
  | key :: keys => .word key :: .comma :: nameTokens keys

/-- The tokens of so many `?`s. -/
def paramTokens : Nat → List Token
  | 0 => []
  | 1 => [.param]
  | n + 2 => .param :: .comma :: paramTokens (n + 1)

theorem scan_fieldsToReturnPart : ∀ {fields : List Bytes}, (∀ f ∈ fields, isName f = true) →
    fields ≠ [] → ∀ {c : UInt8}, isWordChar c = false → ∀ rest : Bytes,
    scan .idle (fieldsToReturnPart fields ++ c :: rest) =
      (nameTokens fields ++ (scan .idle (c :: rest)).1, (scan .idle (c :: rest)).2)
  | [], _, hne, _, _, _ => absurd rfl hne
  | [f], h, _, c, hc, rest => scan_name (h f (List.mem_cons_self ..)) hc rest
  | f :: g :: fields, h, _, c, hc, rest => by
      have ih := scan_fieldsToReturnPart (fun e he => h e (List.mem_cons_of_mem _ he))
        (List.cons_ne_nil g fields) hc rest
      have htext : fieldsToReturnPart (f :: g :: fields) ++ c :: rest
          = f ++ (0x2C :: (fieldsToReturnPart (g :: fields) ++ c :: rest)) := by
        rw [fieldsToReturnPart, List.append_assoc, List.append_assoc]
        · rfl
        · exact List.cons_ne_nil _ _
      have hhead : ∀ cs, scan .idle (0x2C :: cs)
          = (.comma :: (scan .idle cs).1, (scan .idle cs).2) := fun _ => rfl
      rw [htext, scan_name (h f (List.mem_cons_self ..)) (by decide), hhead, ih]
      rfl

/-- The names of an insertion are listed like those of a selection. -/
theorem insertLists_fst : ∀ insert : Object,
    (insertLists insert).1 = fieldsToReturnPart (insert.map (·.1))
  | [] => rfl
  | [_] => rfl
  | (key, _) :: q :: rest => by
      have ih := insertLists_fst (q :: rest)
      rw [insertLists, ih]
      · rfl
      · exact List.cons_ne_nil _ _

theorem scan_insertLists_snd : ∀ (insert : Object) (rest : Bytes),
    scan .idle ((insertLists insert).2 ++ rest) =
      (paramTokens insert.length ++ (scan .idle rest).1, (scan .idle rest).2)
  | [], _ => rfl
  | [_], _ => rfl
  | (key, v) :: q :: insert, rest => by
      have ih := scan_insertLists_snd (q :: insert) rest
      have htext : (insertLists ((key, v) :: q :: insert)).2 ++ rest
          = 0x3F :: 0x2C :: ((insertLists (q :: insert)).2 ++ rest) := by
        rw [insertLists]
        · rfl
        · exact List.cons_ne_nil _ _
      have hhead : ∀ cs, scan .idle (0x3F :: 0x2C :: cs)
          = (.param :: .comma :: (scan .idle cs).1, (scan .idle cs).2) := fun _ => rfl
      rw [htext, hhead, ih]
      rfl

theorem nameList_nameTokens : ∀ {keys : List Bytes}, keys ≠ [] →
    (∀ key ∈ keys, isName key = true) → ∀ {ts : List Token}, (∀ us, ts ≠ .comma :: us) →
    nameList (nameTokens keys ++ ts) = some (keys, ts)
  | [], h, _, _, _ => absurd rfl h
  | [key], _, h, ts, hts => by
      show nameList (.word key :: ts) = _
      rw [nameList]
      · exact if_pos (h key (List.mem_cons_self ..))
      · exact hts
  | key :: k :: keys, _, h, ts, hts => by
      have ih := nameList_nameTokens (List.cons_ne_nil k keys)
        (fun c hc => h c (List.mem_cons_of_mem _ hc)) hts
      show nameList (.word key :: .comma :: (nameTokens (k :: keys) ++ ts)) = _
      rw [nameList, if_pos (h key (List.mem_cons_self ..)), ih]
      rfl

theorem paramList_paramTokens : ∀ (n : Nat) {ts : List Token}, (∀ us, ts ≠ .comma :: us) →
    paramList (paramTokens (n + 1) ++ ts) = some (n + 1, ts)
  | 0, ts, hts => by
      show paramList (.param :: ts) = _
      rw [paramList]
      exact hts
  | n + 1, ts, hts => by
      have ih := paramList_paramTokens n hts
      show paramList (.param :: .comma :: (paramTokens (n + 1) ++ ts)) = _
      rw [paramList, ih]
      rfl

/-! ## Whole statements -/

/-- The text of a condition begins with a space, or there is none. -/
theorem whereText_cases (query : Object) :
    whereText query = [] ∨ ∃ cs, whereText query = 0x20 :: cs := by
  unfold whereText
  by_cases h : (wherePart query).1.isEmpty
  · exact .inl (if_pos h)
  · exact .inr ⟨_, if_neg h⟩

/-- A table in front of a condition. -/
theorem tokens_table {table : Bytes} (ht : isName table = true) (query : Object) :
    tokens (table ++ whereText query) = .word table :: tokens (whereText query) := by
  rcases whereText_cases query with h | ⟨cs, h⟩
  · rw [h, List.append_nil, tokens_name_nil ht]
    rfl
  · rw [h, tokens_name ht (by decide)]

/-- A condition does not begin with a comma. -/
theorem ne_comma_of_parseWhere {k : Nat} {ts : List Token} {cond : Option Cond}
    (h : parseWhere k ts = some cond) : ∀ us, ts ≠ .comma :: us := by
  rintro us rfl
  cases h

theorem Named.keys {obj : Object} (h : Named obj) : ∀ key ∈ obj.map (·.1), isName key = true := by
  intro key hkey
  obtain ⟨p, hp, rfl⟩ := List.mem_map.mp hkey
  exact h p hp

/-- Names leave some text. -/
theorem fieldsToReturnPart_isEmpty {fields : List Bytes} (h : ∀ f ∈ fields, isName f = true)
    (hne : fields ≠ []) : (fieldsToReturnPart fields).isEmpty = false := by
  cases fields with
  | nil => exact absurd rfl hne
  | cons f rest =>
    have hf := ne_nil_of_isName (h f (List.mem_cons_self ..))
    cases rest with
    | nil => exact List.isEmpty_eq_false_iff.mpr hf
    | cons g rest =>
      rw [fieldsToReturnPart, List.append_assoc]
      · exact List.isEmpty_eq_false_iff.mpr (List.append_ne_nil_of_left_ne_nil hf _)
      · exact List.cons_ne_nil _ _

section

variable {table : Bytes} (ht : isName table = true) {query : Object} {cond : Option Cond}
include ht

/-- **What an insertion says.** -/
theorem parse_insert {insert : Object} (h : Named insert) (hne : insert ≠ []) :
    parse (tokens (InsertAction.sql table insert).1) = some (.insert table (insert.map (·.1))) := by
  have hkeys : insert.map (·.1) ≠ [] := fun hmap => hne (List.map_eq_nil_iff.mp hmap)
  obtain ⟨n, hn⟩ : ∃ n, insert.length = n + 1 :=
    Nat.exists_eq_succ_of_ne_zero (fun hlen => hne (List.length_eq_zero_iff.mp hlen))
  have hpart : (insertLists insert).1.isEmpty = false := by
    rw [insertLists_fst]
    exact fieldsToReturnPart_isEmpty h.keys hkeys
  have htext : (InsertAction.sql table insert).1
      = lit "INSERT INTO " ++ (table ++ 0x20 :: ([0x28] ++ (fieldsToReturnPart (insert.map (·.1))
          ++ 0x29 :: (lit " VALUES(" ++ ((insertLists insert).2 ++ [0x29]))))) := by
    unfold InsertAction.sql insertPart
    rw [hpart, insertLists_fst]
    simp only [Bool.false_eq_true, if_false, List.append_assoc]
    rfl
  -- from the second list on
  have hvalues : scan .idle (0x29 :: (lit " VALUES(" ++ ((insertLists insert).2 ++ [0x29])))
      = (.rparen :: .word (lit "VALUES") :: .lparen :: (paramTokens (n + 1) ++ [.rparen]),
          .idle) := by
    have hlit : scan .idle ([0x29] ++ lit " VALUES(")
        = ([.rparen, .word (lit "VALUES"), .lparen], .idle) := by decide
    have htail := scan_insertLists_snd insert [0x29]
    rw [hn] at htail
    have hall := scan_idle_append hlit ((insertLists insert).2 ++ [0x29])
    rw [htail] at hall
    exact hall
  have hscan : tokens (InsertAction.sql table insert).1
      = .word (lit "INSERT") :: .word (lit "INTO") :: .word table :: .lparen ::
          (nameTokens (insert.map (·.1)) ++
            .rparen :: .word (lit "VALUES") :: .lparen :: (paramTokens (n + 1) ++ [.rparen])) := by
    have hinto : scan .idle (lit "INSERT INTO ")
        = ([.word (lit "INSERT"), .word (lit "INTO")], .idle) := by decide
    have hopen : scan .idle (0x20 :: [0x28]) = ([.lparen], .idle) := by decide
    have hclose : isWordChar 0x29 = false := by decide
    have hlists := scan_fieldsToReturnPart h.keys hkeys hclose
      (lit " VALUES(" ++ ((insertLists insert).2 ++ [0x29]))
    rw [hvalues] at hlists
    rw [htext, tokens_append hinto, tokens_name ht (by decide), ← List.cons_append,
      tokens_append hopen]
    unfold tokens
    rw [hlists]
    exact congrArg (fun ts => _ :: _ :: _ :: _ :: ts) (List.append_nil _)
  have hparams := @paramList_paramTokens n [.rparen] (fun us hus => by cases hus)
  have hlist := @nameList_nameTokens _ hkeys h.keys
    (.rparen :: .word (lit "VALUES") :: .lparen :: (paramTokens (n + 1) ++ [.rparen]))
    (fun us hus => by cases hus)
  rw [hscan]
  show parseInsert _ = _
  unfold parseInsert
  rw [name_word ht]
  dsimp only
  rw [hlist]
  dsimp only
  rw [keyword_word (by decide)]
  dsimp only
  rw [hparams, List.length_map, hn, if_pos rfl]

/-- **What an update says.** -/
theorem parse_update {update : Object} (h : Named update) (hne : update ≠ [])
    (hw : parseWhere update.length (tokens (whereText query)) = some cond) :
    parse (tokens (UpdateAction.sql table update query).1)
      = some (.update table (update.map (·.1)) cond) := by
  have hkeys : update.map (·.1) ≠ [] := fun hmap => hne (List.map_eq_nil_iff.mp hmap)
  have htext : (UpdateAction.sql table update query).1
      = lit "UPDATE " ++ (table ++ 0x20 :: (lit "SET " ++ (updateText update
          ++ whereText query))) := by
    unfold UpdateAction.sql updatePart
    simp only [List.append_assoc]
    rfl
  have hscan : tokens (UpdateAction.sql table update query).1
      = .word (lit "UPDATE") :: .word table :: .word (lit "SET") ::
          (updateTokens (update.map (·.1)) ++ tokens (whereText query)) := by
    have hupdate : scan .idle (lit "UPDATE ") = ([.word (lit "UPDATE")], .idle) := by decide
    have hset : scan .idle (0x20 :: lit "SET ") = ([.word (lit "SET")], .idle) := by decide
    have hassign := scan_updateText h []
    rw [List.append_nil] at hassign
    rw [htext, tokens_append hupdate, tokens_name ht (by decide), ← List.cons_append,
      tokens_append hset, tokens_append hassign]
    exact congrArg (fun ts => _ :: _ :: _ :: (ts ++ _)) (List.append_nil _)
  have hassign := assignments_updateTokens hkeys h.keys (ne_comma_of_parseWhere hw)
  rw [hscan]
  show parseUpdate _ = _
  unfold parseUpdate
  rw [name_word ht, Option.bind_some]
  dsimp only
  rw [keyword_word (by decide), Option.bind_some, hassign, Option.bind_some]
  dsimp only
  rw [List.length_map, hw]
  rfl

/-- **What a removal says.** -/
theorem parse_remove (hw : parseWhere 0 (tokens (whereText query)) = some cond) :
    parse (tokens (RemoveAction.sql table query).1) = some (.delete table cond) := by
  have hdelete : scan .idle (lit "DELETE FROM ")
      = ([.word (lit "DELETE"), .word (lit "FROM")], .idle) := by decide
  have hscan : tokens (RemoveAction.sql table query).1
      = .word (lit "DELETE") :: .word (lit "FROM") :: .word table :: tokens (whereText query) := by
    show tokens (lit "DELETE FROM " ++ table ++ whereText query) = _
    rw [List.append_assoc, tokens_append hdelete, tokens_table ht]
    rfl
  rw [hscan]
  show parseDelete _ = _
  unfold parseDelete
  rw [name_word ht, Option.bind_some]
  dsimp only
  rw [hw]
  rfl

theorem parseFrom_table (stmt : Bytes → Option Cond → Stmt) :
    parseFrom stmt (.word (lit "FROM") :: .word table :: tokens (whereText query))
      = (parseWhere 0 (tokens (whereText query))).map (stmt table) := by
  unfold parseFrom
  rw [keyword_word (by decide), Option.bind_some, name_word ht, Option.bind_some]

/-- What a count says, if its condition says something. -/
theorem parse_count_eq : parse (tokens (CountAction.sql table query).1)
    = (parseWhere 0 (tokens (whereText query))).map (.count table) := by
  have hcount : scan .idle (lit "SELECT COUNT(1) FROM ")
      = ([.word (lit "SELECT"), .word (lit "COUNT"), .lparen, .word (lit "1"), .rparen,
          .word (lit "FROM")], .idle) := by decide
  have hscan : tokens (CountAction.sql table query).1
      = .word (lit "SELECT") :: .word (lit "COUNT") :: .lparen :: .word (lit "1") :: .rparen ::
          .word (lit "FROM") :: .word table :: tokens (whereText query) := by
    show tokens (lit "SELECT COUNT(1) FROM " ++ table ++ whereText query) = _
    rw [List.append_assoc, tokens_append hcount, tokens_table ht]
    rfl
  rw [hscan]
  exact parseFrom_table ht .count

/-- **What a count says.** -/
theorem parse_count (hw : parseWhere 0 (tokens (whereText query)) = some cond) :
    parse (tokens (CountAction.sql table query).1) = some (.count table cond) := by
  rw [parse_count_eq ht, hw]
  rfl

/-- What a query for some columns says, if its condition says something. -/
theorem parse_query_eq {fields : List Bytes} (h : ∀ f ∈ fields, isName f = true)
    (hne : fields ≠ []) : parse (tokens (QueryAction.sql table query [] fields 0 0).1)
      = (parseWhere 0 (tokens (whereText query))).map (.select fields table) := by
  have hzero : ¬ 0 < (0 : BitVec 32).toInt := by decide
  have htext : (QueryAction.sql table query [] fields 0 0).1
      = lit "SELECT " ++ (fieldsToReturnPart fields ++ 0x20 :: (lit "FROM " ++ (table
          ++ whereText query))) := by
    unfold QueryAction.sql
    rw [fieldsToReturnPart_isEmpty h hne, if_neg hzero, if_neg hzero]
    simp only [orderPart, List.flatMap_nil, List.isEmpty_nil, if_true, Bool.false_eq_true,
      if_false, List.append_nil, List.append_assoc]
    rfl
  have hscan : tokens (QueryAction.sql table query [] fields 0 0).1
      = .word (lit "SELECT") :: (nameTokens fields ++
          .word (lit "FROM") :: .word table :: tokens (whereText query)) := by
    have hselect : scan .idle (lit "SELECT ") = ([.word (lit "SELECT")], .idle) := by decide
    have hfrom : scan .idle (0x20 :: lit "FROM ") = ([.word (lit "FROM")], .idle) := by decide
    have hspace : isWordChar 0x20 = false := by decide
    have hfields := scan_fieldsToReturnPart h hne hspace (lit "FROM " ++ (table ++ whereText query))
    have htable := tokens_append hfrom (table ++ whereText query)
    rw [tokens_table ht] at htable
    rw [htext, tokens_append hselect]
    unfold tokens at htable ⊢
    rw [hfields]
    show _ :: (nameTokens fields ++ _ ++ _) = _
    rw [List.append_assoc]
    exact congrArg (fun ts => _ :: (_ ++ ts)) htable
  have hlist := @nameList_nameTokens _ hne h
    (.word (lit "FROM") :: .word table :: tokens (whereText query))
    (fun us hus => by cases hus)
  have hselect : parseSelect (nameTokens fields ++
      .word (lit "FROM") :: .word table :: tokens (whereText query))
        = (nameList (nameTokens fields ++
            .word (lit "FROM") :: .word table :: tokens (whereText query))).bind
              fun list => parseFrom (.select list.1) list.2 := by
    cases fields with
    | nil => exact absurd rfl hne
    | cons f rest =>
      cases rest with
      | nil => rfl
      | cons g rest => rfl
  rw [hscan]
  show parseSelect _ = _
  rw [hselect, hlist]
  exact parseFrom_table ht (.select fields)

/-- **What a query for some columns says.** -/
theorem parse_query {fields : List Bytes} (h : ∀ f ∈ fields, isName f = true) (hne : fields ≠ [])
    (hw : parseWhere 0 (tokens (whereText query)) = some cond) :
    parse (tokens (QueryAction.sql table query [] fields 0 0).1)
      = some (.select fields table cond) := by
  rw [parse_query_eq ht h hne, hw]
  rfl

/-- **What a query for all columns says.** -/
theorem parse_query_star (hw : parseWhere 0 (tokens (whereText query)) = some cond) :
    parse (tokens (QueryAction.sql table query [] [] 0 0).1) = some (.select [] table cond) := by
  have hzero : ¬ 0 < (0 : BitVec 32).toInt := by decide
  have htext : (QueryAction.sql table query [] [] 0 0).1
      = lit "SELECT * FROM " ++ (table ++ whereText query) := by
    unfold QueryAction.sql
    rw [if_neg hzero, if_neg hzero]
    simp only [fieldsToReturnPart, orderPart, List.flatMap_nil, List.isEmpty_nil, if_true,
      List.append_nil, ← List.append_assoc]
    rfl
  have hstar : scan .idle (lit "SELECT * FROM ")
      = ([.word (lit "SELECT"), .star, .word (lit "FROM")], .idle) := by decide
  rw [htext, tokens_append hstar, tokens_table ht]
  refine (parseFrom_table ht (.select [])).trans ?_
  rw [hw]
  rfl

end

/-- The condition on a rowid. -/
theorem parseWhere_rowid (id : BitVec 64) (k : Nat) :
    parseWhere k (tokens (whereText [(lit "rowid", .int64 id)]))
      = some (some (.compare (lit "rowid") .eq k)) := rfl

end Zway.Ubj.Store
