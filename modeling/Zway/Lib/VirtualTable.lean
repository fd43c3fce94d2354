import Zway.Lib.Sqlite

/-!
# How SQLite goes through a virtual table

A statement on a virtual table takes one scan of it or several. For each of them SQLite
offers constraints that follow from the condition, and the table may give more rows than
meet them, because SQLite checks the condition on every row itself. A row that an
earlier scan has given is passed over.

Which scans there are is up to SQLite: a `Planner`. When a statement is prepared it offers the
table constraints, and refuses to go on if the table picks one that is not usable. What is known of
the scans is that they ask for no rowid that the condition does not name, that a single comparison
with the rowid is among their constraints, and that together they cover the condition.
-/

namespace Zway.Sql

/-- `sqlite3_index_constraint` and the value it compares with. Column `-1` is the rowid. -/
structure Constraint where
  iColumn : Int
  op : Nat
  rhs : Val
  deriving Repr, DecidableEq

def SQLITE_INDEX_CONSTRAINT_EQ : Nat := 2

/-- The operator of a constraint. -/
def CmpOp.constraint : CmpOp → Nat
  | eq => SQLITE_INDEX_CONSTRAINT_EQ
  | gt => 4
  | le => 8
  | lt => 16
  | ge => 32
  | like => 65
  | ne => 68

theorem CmpOp.eq_of_constraint {op : CmpOp}
    (h : op.constraint = SQLITE_INDEX_CONSTRAINT_EQ) : op = .eq := by
  cases op with
  | eq => rfl
  | _ => cases h

/-- A constraint when a statement is prepared: its value is not known yet. -/
structure Offer where
  iColumn : Int
  op : Nat
  usable : Bool
  deriving Repr, DecidableEq

/-! ## What a condition says of the rowid -/

namespace Cond

/-- The comparisons with the rowid that have to hold, in order. -/
def rowids : Cond → List (CmpOp × Nat)
  | compare column op param => if column = lit "rowid" then [(op, param)] else []
  | and a b => a.rowids ++ b.rowids
  | or _ _ => []

/-- The parameters that the rowid is to be equal to, also as an alternative. -/
def rowidParams : Cond → List Nat
  | compare column op param => if column = lit "rowid" ∧ op = .eq then [param] else []
  | and a b => a.rowidParams ++ b.rowidParams
  | or a b => a.rowidParams ++ b.rowidParams

/-- The rowid is compared. -/
def onRowid : Cond → Bool
  | compare column _ _ => decide (column = lit "rowid")
  | and a b => a.onRowid || b.onRowid
  | or a b => a.onRowid || b.onRowid

/-- No alternative compares the rowid. -/
def rowidOnTop : Cond → Bool
  | compare _ _ _ => true
  | and a b => a.rowidOnTop && b.rowidOnTop
  | or a b => !a.onRowid && !b.onRowid

/-- Nothing but alternatives for the rowid. -/
def rowidsOnly : Cond → Bool
  | compare column op _ => decide (column = lit "rowid" ∧ op = .eq)
  | and _ _ => false
  | or a b => a.rowidsOnly && b.rowidsOnly

/-- Alternatives for the rowid, which become one constraint. -/
def rowidIn : Cond → Bool
  | or a b => a.rowidsOnly && b.rowidsOnly
  | _ => false

theorem mem_rowidParams {param : Nat} : ∀ {cond : Cond}, (.eq, param) ∈ cond.rowids →
    param ∈ cond.rowidParams
  | compare column op k, h => by
      unfold rowids at h
      split at h
      · rename_i hcolumn
        obtain ⟨rfl, rfl⟩ := Prod.mk.inj (List.mem_singleton.mp h)
        unfold rowidParams
        rw [if_pos ⟨hcolumn, rfl⟩]
        exact List.mem_singleton_self _
      · cases h
  | and a b, h => by
      rw [rowidParams]
      rcases List.mem_append.mp h with h | h
      · exact List.mem_append_left _ (mem_rowidParams h)
      · exact List.mem_append_right _ (mem_rowidParams h)
  | or a b, h => by cases h

/-- Where a condition holds, they hold. -/
theorem holds_of_mem_rowids {holds : Bytes → CmpOp → Nat → Bool} {op : CmpOp} {param : Nat} :
    ∀ {cond : Cond}, cond.eval holds = true → (op, param) ∈ cond.rowids →
    holds (lit "rowid") op param = true
  | compare column op' k, heval, h => by
      unfold rowids at h
      split at h
      · rename_i hcolumn
        obtain ⟨rfl, rfl⟩ := Prod.mk.inj (List.mem_singleton.mp h)
        exact hcolumn ▸ heval
      · cases h
  | and a b, heval, h => by
      obtain ⟨ha, hb⟩ := (Bool.and_eq_true ..).mp heval
      rcases List.mem_append.mp h with h | h
      · exact holds_of_mem_rowids ha h
      · exact holds_of_mem_rowids hb h
  | or a b, _, h => by cases h

end Cond

/-- The same of a condition that may not be there. -/
def rowidOnTop (cond : Option Cond) : Bool := cond.all Cond.rowidOnTop

/-! ## Comparisons that all have to hold -/

/-- A condition, and comparisons that have to hold besides. -/
def conj : Option Cond → List (Bytes × CmpOp × Nat) → Option Cond
  | cond, [] => cond
  | cond, (column, op, param) :: terms =>
      conj (some (join .and cond (.compare column op param))) terms

/-- A condition stays one. -/
theorem exists_conj : ∀ (terms : List (Bytes × CmpOp × Nat)) (cond : Cond),
    ∃ c, conj (some cond) terms = some c
  | [], cond => ⟨cond, rfl⟩
  | _ :: terms, _ => exists_conj terms _

theorem all_conj (holds : Bytes → CmpOp → Nat → Bool) : ∀ {terms : List (Bytes × CmpOp × Nat)}
    {cond : Option Cond}, (conj cond terms).all (·.eval holds)
      = (cond.all (·.eval holds) && terms.all (fun t => holds t.1 t.2.1 t.2.2))
  | [], cond => (Bool.and_true _).symm
  | (column, op, param) :: terms, cond => by
      -- the first comparison joins the condition
      have hjoin : (join .and cond (.compare column op param)).eval holds
          = (cond.all (·.eval holds) && holds column op param) := by
        cases cond with
        | none => rfl
        | some cond => rfl
      rw [conj, all_conj holds, Option.all_some, hjoin, List.all_cons, Bool.and_assoc]

theorem rowidOnTop_conj : ∀ {terms : List (Bytes × CmpOp × Nat)} {cond : Option Cond},
    rowidOnTop (conj cond terms) = rowidOnTop cond
  | [], cond => rfl
  | (column, op, param) :: terms, cond => by
      rw [conj, rowidOnTop_conj]
      cases cond with
      | none => rfl
      | some cond => exact Bool.and_true _

/-- The comparisons with the rowid. -/
theorem rowids_conj : ∀ {terms : List (Bytes × CmpOp × Nat)} {cond : Option Cond},
    ((conj cond terms).map Cond.rowids).getD [] = (cond.map Cond.rowids).getD []
      ++ (terms.filter (fun t => decide (t.1 = lit "rowid"))).map (·.2)
  | [], cond => (List.append_nil _).symm
  | (column, op, param) :: terms, cond => by
      have hjoin : (join .and cond (.compare column op param)).rowids
          = (cond.map Cond.rowids).getD [] ++ (Cond.compare column op param).rowids := by
        cases cond with
        | none => rfl
        | some cond => rfl
      rw [conj, rowids_conj, Option.map_some, Option.getD_some, hjoin, List.append_assoc]
      unfold Cond.rowids
      by_cases hcolumn : column = lit "rowid"
      · rw [if_pos hcolumn, List.filter_cons_of_pos (by exact decide_eq_true hcolumn)]
        rfl
      · rw [if_neg hcolumn, List.filter_cons_of_neg (by exact fun h => hcolumn (of_decide_eq_true h))]
        rfl

/-- Names may stand for other columns. -/
theorem renameWhere_conj {f : Bytes → Option Bytes} {g : Bytes → Bytes} :
    ∀ {terms : List (Bytes × CmpOp × Nat)} {cond cond' : Option Cond},
    renameWhere f cond = some cond' → (∀ t ∈ terms, f t.1 = some (g t.1)) →
    renameWhere f (conj cond terms) = some (conj cond' (terms.map (fun t => (g t.1, t.2))))
  | [], cond, cond', h, _ => h
  | (column, op, param) :: terms, cond, cond', h, hterms => by
      have hcolumn : f column = some (g column) := hterms _ (List.mem_cons_self ..)
      have hjoin : renameWhere f (some (join .and cond (.compare column op param)))
          = some (some (join .and cond' (.compare (g column) op param))) := by
        cases cond with
        | none =>
          obtain rfl := Option.some.inj h
          show Option.map some ((f column).map _) = _
          rw [hcolumn]
          rfl
        | some cond =>
          obtain ⟨c, hc, rfl⟩ := Option.map_eq_some_iff.mp h
          show Option.map some ((cond.rename f).bind _) = _
          rw [hc, Option.bind_some]
          show Option.map some (Option.map _ ((f column).map _)) = _
          rw [hcolumn]
          rfl
      have hrest : ∀ t ∈ terms, f t.1 = some (g t.1) :=
        fun t ht => hterms t (List.mem_cons_of_mem _ ht)
      rw [conj, renameWhere_conj hjoin hrest]
      rfl

/-! ## Scans -/

/-- The constraints of one scan. -/
abbrev Scan := List Constraint

abbrev Plan := List Scan

/-- What a constraint compares. -/
def Constraint.lhs (c : Constraint) (columns : List Bytes) (id : BitVec 64) (row : Row) : Val :=
  if c.iColumn = -1 then .integer id else row (columns.getD c.iColumn.toNat [])

/-- The equalities of a scan hold in a row. -/
def Scan.Admits (sqlite : Behaviour) (columns : List Bytes) (scan : Scan) (id : BitVec 64)
    (row : Row) : Prop :=
  ∀ c ∈ scan, c.op = SQLITE_INDEX_CONSTRAINT_EQ →
    sqlite.compare .eq (c.lhs columns id row) c.rhs = true

/-- **No row is left out**: what meets the condition is admitted by one of the scans. -/
def Plan.Covers (sqlite : Behaviour) (columns : List Bytes) (plan : Plan)
    (p : BitVec 64 → Row → Bool) : Prop :=
  ∀ id row, p id row = true → ∃ scan ∈ plan, scan.Admits sqlite columns id row

/-- One scan without constraints covers everything. -/
theorem Plan.covers_full (sqlite : Behaviour) (columns : List Bytes) (p : BitVec 64 → Row → Bool) :
    Plan.Covers sqlite columns [[]] p :=
  fun _ _ _ => ⟨[], List.mem_singleton_self _, fun _ hc => absurd hc List.not_mem_nil⟩

/-! ## Planning -/

/-- How SQLite plans a statement with a condition. -/
structure Planner where
  /-- What the table is offered while the statement is prepared, time after time. -/
  offers : Option Cond → List (List Offer)
  /-- A constraint on the rowid that is not usable stands for alternatives. -/
  offers_usable : ∀ cond, rowidOnTop cond = true → ∀ offer ∈ offers cond, ∀ o ∈ offer,
    o.iColumn = -1 → o.usable = true
  /-- And so do alternatives that are nothing else, which become one constraint. -/
  offers_rowids : ∀ cond : Cond, cond.rowidIn = true → ∃ offer ∈ offers (some cond),
    ∃ o, (offer.filter (·.iColumn = -1)).getLast? = some o ∧ o.usable = false
  /-- The scans that the condition is answered with, for the values of its parameters. -/
  plan : Option Cond → List Val → Plan
  /-- A rowid that is asked for is named in the condition. -/
  plan_params : ∀ cond vals, ∀ scan ∈ plan cond vals, ∀ c ∈ scan, c.iColumn = -1 →
    c.op = SQLITE_INDEX_CONSTRAINT_EQ →
    ∃ k ∈ (cond.map Cond.rowidParams).getD [], c.rhs = vals.getD k .null
  /-- The rowid that a row has to have is a constraint of each scan, if it is not compared with
  anything else. -/
  plan_rowid : ∀ (cond : Cond) vals k, cond.rowidOnTop = true → cond.rowids = [(.eq, k)] →
    ∀ scan ∈ plan (some cond) vals,
      scan.filter (·.iColumn = -1) = [⟨-1, SQLITE_INDEX_CONSTRAINT_EQ, vals.getD k .null⟩]

/-- The comparisons with the rowid are passed on, and everything else is left to the check of the
rows. -/
def rowidPlan (cond : Option Cond) (vals : List Val) : Plan :=
  match cond with
  | some c =>
      if c.rowidOnTop then
        [c.rowids.map (fun r => ⟨-1, r.1.constraint, vals.getD r.2 .null⟩)]
      else [[]]
  | none => [[]]

/-- What is then offered. -/
def rowidOffers : Option Cond → List (List Offer)
  | none => [[]]
  | some c =>
      if c.rowidIn then
        [[⟨-1, SQLITE_INDEX_CONSTRAINT_EQ, true⟩], [⟨-1, SQLITE_INDEX_CONSTRAINT_EQ, false⟩]]
      else [c.rowids.map (fun r => ⟨-1, r.1.constraint, true⟩)]

theorem onRowid_of_rowidsOnly : ∀ {cond : Cond}, cond.rowidsOnly = true → cond.onRowid = true
  | .compare column op k, h => by
      obtain ⟨hrowid, -⟩ := of_decide_eq_true h
      exact decide_eq_true hrowid
  | .or a b, h => by
      obtain ⟨ha, -⟩ := (Bool.and_eq_true ..).mp h
      rw [Cond.onRowid, Bool.or_eq_true]
      exact .inl (onRowid_of_rowidsOnly ha)

theorem not_rowidIn_of_onTop {cond : Cond} (h : cond.rowidOnTop = true) :
    ¬ cond.rowidIn = true := by
  cases cond with
  | or a b =>
    intro honly
    obtain ⟨ha, -⟩ := (Bool.and_eq_true ..).mp honly
    obtain ⟨hnot, -⟩ := (Bool.and_eq_true ..).mp h
    rw [onRowid_of_rowidsOnly ha] at hnot
    cases hnot
  | _ => exact Bool.false_ne_true

theorem rowidOffers_usable (cond : Option Cond) (h : rowidOnTop cond = true) :
    ∀ offer ∈ rowidOffers cond, ∀ o ∈ offer, o.iColumn = -1 → o.usable = true := by
  intro offer hoffer o ho _
  cases cond with
  | none =>
    obtain rfl := List.mem_singleton.mp hoffer
    cases ho
  | some c =>
    unfold rowidOffers at hoffer
    dsimp only at hoffer
    rw [if_neg (not_rowidIn_of_onTop h)] at hoffer
    obtain rfl := List.mem_singleton.mp hoffer
    obtain ⟨r, -, rfl⟩ := List.mem_map.mp ho
    rfl

/-- A planner for small cases. -/
def Planner.plain : Planner where
  offers := rowidOffers
  offers_usable := rowidOffers_usable
  offers_rowids := by
    intro cond hin
    refine ⟨[⟨-1, SQLITE_INDEX_CONSTRAINT_EQ, false⟩], ?_, _, rfl, rfl⟩
    unfold rowidOffers
    dsimp only
    rw [if_pos hin]
    exact List.mem_cons_of_mem _ (List.mem_singleton_self _)
  plan := rowidPlan
  plan_params := by
    intro cond vals scan hscan c hc _ hop
    cases cond with
    | none =>
      obtain rfl := List.mem_singleton.mp hscan
      cases hc
    | some cond =>
      unfold rowidPlan at hscan
      dsimp only at hscan
      split at hscan
      · obtain rfl := List.mem_singleton.mp hscan
        obtain ⟨⟨op, k⟩, hr, rfl⟩ := List.mem_map.mp hc
        obtain rfl := CmpOp.eq_of_constraint hop
        exact ⟨k, Cond.mem_rowidParams hr, rfl⟩
      · obtain rfl := List.mem_singleton.mp hscan
        cases hc
  plan_rowid := by
    intro cond vals k htop hrowids scan hscan
    unfold rowidPlan at hscan
    dsimp only at hscan
    rw [if_pos htop, hrowids] at hscan
    obtain rfl := List.mem_singleton.mp hscan
    rfl

section

variable {α β : Type} [DecidableEq α]

/-- The rows of several scans. -/
def gather : List (List (α × β)) → List (α × β)
  | [] => []
  | rows :: scans => rows ++ (gather scans).filter (fun r => decide (r.1 ∉ rows.map (·.1)))

/-- Every row comes from a scan. -/
theorem mem_of_mem_gather {r : α × β} : ∀ {scans : List (List (α × β))}, r ∈ gather scans →
    ∃ rows ∈ scans, r ∈ rows
  | [], h => absurd h List.not_mem_nil
  | rows :: scans, h => by
      rcases List.mem_append.mp h with h | h
      · exact ⟨rows, List.mem_cons_self, h⟩
      · obtain ⟨rows', hrows, hr⟩ := mem_of_mem_gather (List.mem_of_mem_filter h)
        exact ⟨rows', List.mem_cons_of_mem _ hrows, hr⟩

/-- What a scan gives is among them, if not from this scan. -/
theorem exists_mem_gather {r : α × β} {rows : List (α × β)} (hr : r ∈ rows) :
    ∀ {scans : List (List (α × β))}, rows ∈ scans → ∃ r' ∈ gather scans, r'.1 = r.1
  | rows' :: scans, h => by
      by_cases hfirst : r.1 ∈ rows'.map (·.1)
      · obtain ⟨r', hr', heq⟩ := List.mem_map.mp hfirst
        exact ⟨r', List.mem_append_left _ hr', heq⟩
      · rcases List.mem_cons.mp h with rfl | h
        · exact absurd (List.mem_map_of_mem hr) hfirst
        · obtain ⟨r', hr', heq⟩ := exists_mem_gather hr h
          refine ⟨r', List.mem_append_right _ (List.mem_filter.mpr ⟨hr', ?_⟩), heq⟩
          rw [heq]
          exact decide_eq_true hfirst

/-- No row comes twice. -/
theorem gather_nodup : ∀ {scans : List (List (α × β))},
    (∀ rows ∈ scans, (rows.map (·.1)).Nodup) → ((gather scans).map (·.1)).Nodup
  | [], _ => List.nodup_nil
  | rows :: scans, h => by
      have hrest := gather_nodup (fun rows' hrows => h rows' (List.mem_cons_of_mem _ hrows))
      rw [gather, List.map_append, List.nodup_append]
      refine ⟨h rows List.mem_cons_self, ?_, ?_⟩
      · exact hrest.sublist (List.Sublist.map _ List.filter_sublist)
      · intro id hid id' hid' heq
        obtain ⟨r, hr, rfl⟩ := List.mem_map.mp hid'
        exact of_decide_eq_true (List.mem_filter.mp hr).2 (heq ▸ hid)

end

end Zway.Sql
