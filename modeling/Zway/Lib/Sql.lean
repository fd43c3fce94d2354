import Zway.Lib.Bytes

/-!
# SQL text

The statements a program hands to a database are texts with a `?` wherever a value
is bound. This module reads them: characters to tokens, tokens to statements. The
parameters are numbered from left to right.

Tokens are read by a machine that looks at one character at a time, `scan`, and
conditions by one that looks at one token at a time, `Reading.push`. So what is read
from one text after another follows from what is read from each: `scan_append`, and
`List.foldlM_append` for conditions.

Only what a program needs that builds its statements from names is here: there are
no literals, no quotes and no comments, and a comparison has a column on its left and
a parameter on its right.
-/

namespace Zway.Sql

/-! ## Tokens -/

inductive Token where
  | word (w : Bytes)
  | param
  | comma
  | lparen
  | rparen
  | star
  | eq
  | ne
  | lt
  | le
  | gt
  | ge
  | other (c : UInt8)
  deriving Repr, DecidableEq

/-- Letters, digits, `_`, `$` and all that is not ASCII. -/
def isWordChar (c : UInt8) : Bool :=
  (0x30 ≤ c && c ≤ 0x39) || (0x41 ≤ c && c ≤ 0x5A) || (0x61 ≤ c && c ≤ 0x7A)
    || c == 0x5F || c == 0x24 || 0x80 ≤ c

/-- What has been read and may still go on. -/
inductive Pending where
  | idle
  | word (w : Bytes)
  | lt
  | gt
  deriving Repr, DecidableEq

def Pending.flush : Pending → List Token
  | idle => []
  | word w => [.word w]
  | lt => [.lt]
  | gt => [.gt]

/-- A character that is a token of its own. -/
def symbol (c : UInt8) : Token :=
  if c = 0x3F then .param
  else if c = 0x2C then .comma
  else if c = 0x28 then .lparen
  else if c = 0x29 then .rparen
  else if c = 0x2A then .star
  else if c = 0x3D then .eq
  else .other c

/-- A character with nothing before it. -/
def start (c : UInt8) : List Token × Pending :=
  if isWordChar c then ([], .word [c])
  else if c = 0x3C then ([], .lt)
  else if c = 0x3E then ([], .gt)
  else if c = 0x20 ∨ c = 0x09 ∨ c = 0x0A ∨ c = 0x0C ∨ c = 0x0D then ([], .idle)
  else ([symbol c], .idle)

/-- The next character. -/
def step : Pending → UInt8 → List Token × Pending
  | .idle, c => start c
  | .word w, c =>
      if isWordChar c then ([], .word (w ++ [c])) else (.word w :: (start c).1, (start c).2)
  | .lt, c =>
      if c = 0x3D then ([.le], .idle)
      else if c = 0x3E then ([.ne], .idle)
      else (.lt :: (start c).1, (start c).2)
  | .gt, c => if c = 0x3D then ([.ge], .idle) else (.gt :: (start c).1, (start c).2)

/-- The tokens of a text, and what is left to be finished after it. -/
def scan : Pending → Bytes → List Token × Pending
  | p, [] => ([], p)
  | p, c :: cs => ((step p c).1 ++ (scan (step p c).2 cs).1, (scan (step p c).2 cs).2)

def tokens (text : Bytes) : List Token := (scan .idle text).1 ++ (scan .idle text).2.flush

theorem scan_append : ∀ (p : Pending) (a b : Bytes),
    scan p (a ++ b) = ((scan p a).1 ++ (scan (scan p a).2 b).1, (scan (scan p a).2 b).2)
  | _, [], _ => rfl
  | p, c :: cs, b => by
      have ih := scan_append (step p c).2 cs b
      rw [List.cons_append, scan, ih, scan, List.append_assoc]

theorem scan_word : ∀ (w v : Bytes), (∀ c ∈ v, isWordChar c = true) →
    scan (.word w) v = ([], .word (w ++ v))
  | w, [], _ => by rw [scan, List.append_nil]
  | w, c :: cs, h => by
      have hc : step (.word w) c = ([], .word (w ++ [c])) := if_pos (h c (List.mem_cons_self ..))
      have ih := scan_word (w ++ [c]) cs (fun d hd => h d (List.mem_cons_of_mem _ hd))
      rw [scan, hc, ih, List.append_assoc]
      rfl

/-- After whole tokens the next text is read by itself. -/
theorem scan_idle_append {a : Bytes} {ts : List Token} (h : scan .idle a = (ts, .idle)) (b : Bytes) :
    scan .idle (a ++ b) = (ts ++ (scan .idle b).1, (scan .idle b).2) := by
  rw [scan_append, h]

theorem tokens_append {a : Bytes} {ts : List Token} (h : scan .idle a = (ts, .idle)) (b : Bytes) :
    tokens (a ++ b) = ts ++ tokens b := by
  unfold tokens
  rw [scan_idle_append h, List.append_assoc]

/-- A word ends at the first character that cannot be in one. -/
theorem scan_word_end (w : Bytes) {c : UInt8} (hc : isWordChar c = false) (cs : Bytes) :
    scan (.word w) (c :: cs) =
      (.word w :: (scan .idle (c :: cs)).1, (scan .idle (c :: cs)).2) := by
  have hstep : step (.word w) c = (.word w :: (start c).1, (start c).2) :=
    if_neg (by rw [hc]; exact Bool.false_ne_true)
  rw [scan, hstep]
  rfl

/-- Characters of a word are read as one word, which ends where the text after it begins. -/
theorem scan_wordChars {w : Bytes} (hne : w ≠ []) (hchars : ∀ c ∈ w, isWordChar c = true) {c : UInt8}
    (hc : isWordChar c = false) (cs : Bytes) :
    scan .idle (w ++ c :: cs) =
      (.word w :: (scan .idle (c :: cs)).1, (scan .idle (c :: cs)).2) := by
  cases w with
  | nil => exact absurd rfl hne
  | cons d ds =>
    have hd : step .idle d = ([], .word [d]) := if_pos (hchars d (List.mem_cons_self ..))
    have hds := scan_word [d] ds (fun e he => hchars e (List.mem_cons_of_mem _ he))
    rw [List.cons_append, scan, hd, scan_append, hds]
    exact scan_word_end _ hc cs

theorem tokens_wordChars_append {w : Bytes} (hne : w ≠ []) (hchars : ∀ c ∈ w, isWordChar c = true)
    {c : UInt8} (hc : isWordChar c = false) (cs : Bytes) :
    tokens (w ++ c :: cs) = .word w :: tokens (c :: cs) := by
  unfold tokens
  rw [scan_wordChars hne hchars hc]
  rfl

theorem tokens_wordChars {w : Bytes} (hne : w ≠ []) (hchars : ∀ c ∈ w, isWordChar c = true) :
    tokens w = [.word w] := by
  cases w with
  | nil => exact absurd rfl hne
  | cons c cs =>
    have hc : step .idle c = ([], .word [c]) := if_pos (hchars c (List.mem_cons_self ..))
    have hcs := scan_word [c] cs (fun d hd => hchars d (List.mem_cons_of_mem _ hd))
    have hscan : scan .idle (c :: cs) = ([], .word (c :: cs)) := by
      rw [scan, hc, hcs]
      rfl
    unfold tokens
    rw [hscan]
    rfl

/-! ## Names -/

/-- ASCII letters in upper case. -/
def upper (w : Bytes) : Bytes := w.map (fun c => if 0x61 ≤ c ∧ c ≤ 0x7A then c - 0x20 else c)

/-- The words that have a meaning of their own, and cannot be names where a value is compared. -/
def keywords : List Bytes :=
  [lit "ADD", lit "ALL", lit "ALTER", lit "AND", lit "AS", lit "AUTOINCREMENT", lit "BETWEEN",
    lit "CASE", lit "CAST", lit "CHECK", lit "COLLATE", lit "COMMIT", lit "CONSTRAINT",
    lit "CREATE", lit "CURRENT_DATE", lit "CURRENT_TIME", lit "CURRENT_TIMESTAMP", lit "DEFAULT",
    lit "DEFERRABLE", lit "DELETE", lit "DISTINCT", lit "DROP", lit "ELSE", lit "ESCAPE",
    lit "EXCEPT", lit "EXISTS", lit "FOREIGN", lit "FROM", lit "GROUP", lit "HAVING", lit "IN",
    lit "INDEX", lit "INSERT", lit "INTERSECT", lit "INTO", lit "IS", lit "ISNULL", lit "JOIN",
    lit "LIMIT", lit "NOT", lit "NOTHING", lit "NOTNULL", lit "NULL", lit "ON", lit "OR",
    lit "ORDER", lit "PRIMARY", lit "RAISE", lit "REFERENCES", lit "RETURNING", lit "SELECT",
    lit "SET", lit "TABLE", lit "THEN", lit "TO", lit "TRANSACTION", lit "UNION", lit "UNIQUE",
    lit "UPDATE", lit "USING", lit "VALUES", lit "WHEN", lit "WHERE"]

/-- The first character of a number or of a named parameter. -/
def isLead (c : UInt8) : Bool := (0x30 ≤ c && c ≤ 0x39) || c == 0x24

/-- A word that names a table or a column. -/
def isName (w : Bytes) : Bool :=
  !w.isEmpty && !isLead (w.headD 0) && w.all isWordChar && !keywords.contains (upper w)

theorem wordChars_of_isName {w : Bytes} (h : isName w = true) : ∀ c ∈ w, isWordChar c = true := by
  unfold isName at h
  simp only [Bool.and_eq_true] at h
  exact List.all_eq_true.mp h.1.2

theorem ne_nil_of_isName {w : Bytes} (h : isName w = true) : w ≠ [] := by
  rintro rfl
  exact absurd h (by decide)

theorem not_keyword_of_isName {w k : Bytes} (h : isName w = true) (hk : k ∈ keywords) :
    upper w ≠ k := by
  rintro rfl
  unfold isName at h
  simp only [Bool.and_eq_true, Bool.not_eq_true'] at h
  exact absurd (List.contains_iff_mem.mpr hk) (by rw [h.2]; exact Bool.false_ne_true)

/-- A name is read as one word, which ends where the text after it begins. -/
theorem scan_name {w : Bytes} (h : isName w = true) {c : UInt8} (hc : isWordChar c = false)
    (cs : Bytes) :
    scan .idle (w ++ c :: cs) =
      (.word w :: (scan .idle (c :: cs)).1, (scan .idle (c :: cs)).2) :=
  scan_wordChars (ne_nil_of_isName h) (wordChars_of_isName h) hc cs

theorem tokens_name {w : Bytes} (h : isName w = true) {c : UInt8} (hc : isWordChar c = false)
    (cs : Bytes) : tokens (w ++ c :: cs) = .word w :: tokens (c :: cs) :=
  tokens_wordChars_append (ne_nil_of_isName h) (wordChars_of_isName h) hc cs

/-- A name at the end of a text. -/
theorem tokens_name_nil {w : Bytes} (h : isName w = true) : tokens w = [.word w] :=
  tokens_wordChars (ne_nil_of_isName h) (wordChars_of_isName h)

/-! ## Conditions -/

inductive CmpOp where
  | eq
  | ne
  | lt
  | le
  | gt
  | ge
  | like
  deriving Repr, DecidableEq

/-- A condition. A comparison is of a column with a parameter. -/
inductive Cond where
  | compare (column : Bytes) (op : CmpOp) (param : Nat)
  | and (a b : Cond)
  | or (a b : Cond)
  deriving Repr, DecidableEq

/-- Whether a condition holds, given which comparisons do. There is no negation, so a comparison
with NULL is one that does not hold. -/
def Cond.eval (holds : Bytes → CmpOp → Nat → Bool) : Cond → Bool
  | compare column op param => holds column op param
  | and a b => a.eval holds && b.eval holds
  | or a b => a.eval holds || b.eval holds

/-- The operator a token stands for. -/
def Token.cmpOp : Token → Option CmpOp
  | eq => some .eq
  | ne => some .ne
  | lt => some .lt
  | le => some .le
  | gt => some .gt
  | ge => some .ge
  | word w => if upper w = lit "LIKE" then some .like else none
  | _ => none

/-- What is read between two parentheses: the alternatives in front of the last `OR`, and the terms
of the one after it. -/
structure Level where
  ors : Option Cond
  ands : Option Cond
  deriving Repr, DecidableEq

/-- Where in a comparison one is. -/
inductive Part where
  | operand
  | column (c : Bytes)
  | operator (c : Bytes) (op : CmpOp)
  | done
  deriving Repr, DecidableEq

/-- A condition that is being read. -/
structure Reading where
  outer : List Level
  level : Level
  part : Part
  params : Nat
  deriving Repr, DecidableEq

/-- Put a condition behind what may be there. -/
def join (f : Cond → Cond → Cond) : Option Cond → Cond → Cond
  | some a, b => f a b
  | none, b => b

/-- One more term of an alternative. -/
def Level.push (l : Level) (c : Cond) : Level := { l with ands := some (join .and l.ands c) }

/-- What stands between the parentheses. `AND` binds tighter than `OR`. -/
def Level.cond (l : Level) : Option Cond := l.ands.map (join .or l.ors)

/-- The next token of a condition. -/
def Reading.push (r : Reading) (t : Token) : Option Reading :=
  match r.part, t with
  | .operand, .lparen =>
      some { r with outer := r.level :: r.outer, level := ⟨none, none⟩ }
  | .operand, .word w => if isName w then some { r with part := .column w } else none
  | .column c, t => t.cmpOp.map (fun op => { r with part := .operator c op })
  | .operator c op, .param =>
      some { r with
        level := r.level.push (.compare c op r.params)
        part := .done
        params := r.params + 1 }
  | .done, .rparen =>
      match r.outer, r.level.cond with
      | l :: ls, some c => some { r with outer := ls, level := l.push c }
      | _, _ => none
  | .done, .word w =>
      if upper w = lit "AND" then some { r with part := .operand }
      else if upper w = lit "OR" then
        some { r with level := ⟨r.level.cond, none⟩, part := .operand }
      else none
  | _, _ => none

/-- A condition whose first parameter has the number `params`. -/
def Reading.init (params : Nat) : Reading := ⟨[], ⟨none, none⟩, .operand, params⟩

/-- The condition, if the text may end here. -/
def Reading.result (r : Reading) : Option Cond :=
  if r.part = .done ∧ r.outer = [] then r.level.cond else none

/-- Read a condition. -/
def parseCond (params : Nat) (ts : List Token) : Option Cond :=
  (ts.foldlM Reading.push (Reading.init params)).bind Reading.result

/-! ## Conditions in pieces -/

/-- A text that ends where a token ends. -/
def Whole (text : Bytes) : Prop := (scan .idle text).2 = .idle

/-- Go on with a text. -/
def Reading.run (r : Reading) (text : Bytes) : Option Reading :=
  (scan .idle text).1.foldlM Reading.push r

theorem Whole.append {a b : Bytes} (ha : Whole a) (hb : Whole b) : Whole (a ++ b) := by
  unfold Whole at *
  rw [scan_append, ha]
  exact hb

theorem Reading.run_append {a : Bytes} (ha : Whole a) (r : Reading) (b : Bytes) :
    r.run (a ++ b) = (r.run a).bind (·.run b) := by
  unfold Whole at ha
  unfold run
  rw [scan_append, ha, List.foldlM_append]
  rfl

theorem Whole.tokens {text : Bytes} (h : Whole text) : tokens text = (scan .idle text).1 := by
  unfold Whole at h
  unfold Sql.tokens
  rw [h]
  exact List.append_nil _

theorem parseCond_eq {text : Bytes} (h : Whole text) (params : Nat) :
    parseCond params (Sql.tokens text) = ((Reading.init params).run text).bind Reading.result := by
  unfold parseCond Reading.run
  rw [h.tokens]

/-- A comparison, as a text. -/
theorem scan_compare {column : Bytes} (h : isName column = true) {c : UInt8}
    (hc : isWordChar c = false) {cs : Bytes} {t : Token}
    (hscan : scan .idle (c :: cs) = ([t, .param], .idle)) :
    scan .idle (column ++ c :: cs) = ([.word column, t, .param], .idle) := by
  rw [scan_name h hc, hscan]

theorem run_compare {column : Bytes} (h : isName column = true) {c : UInt8}
    (hc : isWordChar c = false) {cs : Bytes} {t : Token} {op : CmpOp}
    (hscan : scan .idle (c :: cs) = ([t, .param], .idle)) (hop : t.cmpOp = some op) {r : Reading}
    (hr : r.part = .operand) :
    r.run (column ++ c :: cs) = some
      { r with
        level := r.level.push (.compare column op r.params)
        part := .done
        params := r.params + 1 } := by
  obtain ⟨outer, level, part, params⟩ := r
  subst hr
  have hcolumn : Reading.push ⟨outer, level, .operand, params⟩ (.word column)
      = some ⟨outer, level, .column column, params⟩ := if_pos h
  have hoperator : Reading.push ⟨outer, level, .column column, params⟩ t
      = some ⟨outer, level, .operator column op, params⟩ := by
    unfold Reading.push
    dsimp only
    rw [hop]
    rfl
  unfold Reading.run
  rw [scan_compare h hc hscan, List.foldlM_cons, hcolumn]
  show Option.bind (some _) _ = _
  rw [Option.bind_some, List.foldlM_cons, hoperator]
  rfl

/-! ## Statements -/

inductive Stmt where
  | insert (table : Bytes) (columns : List Bytes)
  | update (table : Bytes) (columns : List Bytes) (cond : Option Cond)
  | delete (table : Bytes) (cond : Option Cond)
  | select (columns : List Bytes) (table : Bytes) (cond : Option Cond)
  | count (table : Bytes) (cond : Option Cond)
  deriving Repr, DecidableEq

/-- The text after a keyword. -/
def keyword (k : Bytes) : List Token → Option (List Token)
  | .word w :: ts => if upper w = k then some ts else none
  | _ => none

/-- A name, and the text after it. -/
def name : List Token → Option (Bytes × List Token)
  | .word w :: ts => if isName w then some (w, ts) else none
  | _ => none

theorem keyword_word {w k : Bytes} (h : upper w = k) (ts : List Token) :
    keyword k (.word w :: ts) = some ts := if_pos h

theorem name_word {w : Bytes} (h : isName w = true) (ts : List Token) :
    name (.word w :: ts) = some (w, ts) := if_pos h

/-- `a,b,c` -/
def nameList : List Token → Option (List Bytes × List Token)
  | .word w :: .comma :: ts =>
      if isName w then (nameList ts).map (fun r => (w :: r.1, r.2)) else none
  | .word w :: ts => if isName w then some ([w], ts) else none
  | _ => none

/-- `?,?,?` and how many. -/
def paramList : List Token → Option (Nat × List Token)
  | .param :: .comma :: ts => (paramList ts).map (fun r => (r.1 + 1, r.2))
  | .param :: ts => some (1, ts)
  | _ => none

/-- `a=?,b=?` -/
def assignments : List Token → Option (List Bytes × List Token)
  | .word w :: .eq :: .param :: .comma :: ts =>
      if isName w then (assignments ts).map (fun r => (w :: r.1, r.2)) else none
  | .word w :: .eq :: .param :: ts => if isName w then some ([w], ts) else none
  | _ => none

/-- The end of a statement, with or without a condition. -/
def parseWhere (params : Nat) : List Token → Option (Option Cond)
  | [] => some none
  | ts => (keyword (lit "WHERE") ts).bind (fun ts => (parseCond params ts).map some)

/-- After `INSERT INTO`. -/
def parseInsert (ts : List Token) : Option Stmt :=
  match name ts with
  | some (table, .lparen :: ts) =>
      match nameList ts with
      | some (columns, .rparen :: ts) =>
          match keyword (lit "VALUES") ts with
          | some (.lparen :: ts) =>
              if paramList ts = some (columns.length, [.rparen]) then some (.insert table columns)
              else none
          | _ => none
      | _ => none
  | _ => none

/-- After `UPDATE`. -/
def parseUpdate (ts : List Token) : Option Stmt :=
  (name ts).bind fun (table, ts) =>
    (keyword (lit "SET") ts).bind fun ts =>
      (assignments ts).bind fun (columns, ts) =>
        (parseWhere columns.length ts).map (.update table columns)

/-- After `DELETE FROM`. -/
def parseDelete (ts : List Token) : Option Stmt :=
  (name ts).bind fun (table, ts) => (parseWhere 0 ts).map (.delete table)

/-- After what is selected. -/
def parseFrom (stmt : Bytes → Option Cond → Stmt) (ts : List Token) : Option Stmt :=
  (keyword (lit "FROM") ts).bind fun ts =>
    (name ts).bind fun (table, ts) => (parseWhere 0 ts).map (stmt table)

/-- After `SELECT`. A `*` is an empty list of columns. -/
def parseSelect : List Token → Option Stmt
  | .star :: ts => parseFrom (.select []) ts
  | .word w :: .lparen :: .word n :: .rparen :: ts =>
      if upper w = lit "COUNT" ∧ n = lit "1" then parseFrom .count ts else none
  | ts => (nameList ts).bind fun (columns, ts) => parseFrom (.select columns) ts

/-- Read a statement. -/
def parse (ts : List Token) : Option Stmt :=
  match ts with
  | .word w :: ts =>
      if upper w = lit "INSERT" then (keyword (lit "INTO") ts).bind parseInsert
      else if upper w = lit "UPDATE" then parseUpdate ts
      else if upper w = lit "DELETE" then (keyword (lit "FROM") ts).bind parseDelete
      else if upper w = lit "SELECT" then parseSelect ts
      else none
  | _ => none

end Zway.Sql
