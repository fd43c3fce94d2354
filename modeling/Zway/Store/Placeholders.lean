import Zway.Lib.Select
import Zway.Store.ActionProof

/-!
# Where the `?`s of a statement stand

The text of a statement and `m_bound` are built side by side. A *slot* is a field with an
operator and the value it is compared with or set to; the slots of a query are listed
here without any text. `Lined` reads a text from left to right: in front of each `?`
stands the field and the operator of the next slot, and there are no more.
-/

namespace Zway.Ubj.Store

open Sql

/-- A field, an operator and the value that goes with them. -/
structure Slot where
  field : Bytes
  op : Bytes
  value : Value

/-! ## The slots of the parts -/

/-- The operators, in the order in which they are looked for. -/
def operators : List (Bytes × Bytes) :=
  [(lit "$ge", lit ">="), (lit "$gt", lit ">"), (lit "$le", lit "<="), (lit "$like", lit " like "),
    (lit "$lt", lit "<"), (lit "$ne", lit "<>")]

/-- An object of operators stands for the first of them it has. -/
def operatorSlots (key : Bytes) (fields : Object) : List Slot :=
  (operators.filterMap fun op =>
    (OrdMap.find? fields op.1).map fun v => (⟨key, op.2, v⟩ : Slot)).take 1

mutual

/-- The comparisons of a query, in the order of its fields. -/
def whereSlots : Object → List Slot
  | [] => []
  | (key, v) :: rest => entrySlots key v ++ whereSlots rest

def entrySlots (key : Bytes) : Value → List Slot
  | .array items => if key = lit "$or" then itemSlots items else []
  | .buffer _ => []
  | .object (field :: fields) => operatorSlots key (field :: fields)
  | v => [⟨key, lit "=", v⟩]

def itemSlots : List Value → List Slot
  | [] => []
  | .object fields :: items => whereSlots fields ++ itemSlots items
  | _ :: items => itemSlots items

end

/-- The assignments of an update. -/
def updateSlots (update : Object) : List Slot := update.map fun p => ⟨p.1, lit "=", p.2⟩

mutual

/-- No field of the query has a `?` in its name, and none of its alternatives has one. -/
def Unmarked : Object → Prop
  | [] => True
  | (key, v) :: rest => 0x3F ∉ key ∧ UnmarkedEntry v ∧ Unmarked rest

def UnmarkedEntry : Value → Prop
  | .array items => UnmarkedItems items
  | _ => True

def UnmarkedItems : List Value → Prop
  | [] => True
  | .object fields :: items => Unmarked fields ∧ UnmarkedItems items
  | _ :: items => UnmarkedItems items

end

/-! ## Texts with slots -/

/-- Where a name may begin: at the start, after a space, a parenthesis or a comma. -/
def Boundary (text : Bytes) : Prop :=
  text = [] ∨ ∃ front c, text = front ++ [c] ∧ (c = 0x20 ∨ c = 0x28 ∨ c = 0x2C)

/-- In front of the next `?` stands the next slot. -/
def Lined : List Slot → Bytes → Prop
  | [], text => 0x3F ∉ text
  | slot :: slots, text => ∃ front rest,
      text = front ++ (slot.field ++ slot.op) ++ 0x3F :: rest ∧ 0x3F ∉ front ∧ Boundary front ∧
        0x3F ∉ slot.field ++ slot.op ∧ Lined slots rest

/-- A text that can stand in front of a name. -/
structure Separator (text : Bytes) : Prop where
  unmarked : 0x3F ∉ text
  ends : ∃ front c, text = front ++ [c] ∧ (c = 0x20 ∨ c = 0x28 ∨ c = 0x2C)

theorem Lined.count : ∀ {slots : List Slot} {text : Bytes}, Lined slots text →
    text.count 0x3F = slots.length
  | [], _, h => List.count_eq_zero.mpr h
  | slot :: slots, _, ⟨front, rest, htext, hfront, _, hslot, hrest⟩ => by
      have ih := Lined.count hrest
      rw [htext, List.count_append, List.count_append, List.count_eq_zero.mpr hfront,
        List.count_eq_zero.mpr hslot, List.count_cons_self, ih, List.length_cons]
      omega

theorem Lined.close : ∀ {slots : List Slot} {text tail : Bytes}, Lined slots text →
    0x3F ∉ tail → Lined slots (text ++ tail)
  | [], _, _, h, htail => by
      intro hmem
      exact (List.mem_append.mp hmem).elim h htail
  | slot :: slots, _, tail, ⟨front, rest, htext, hfront, hbound, hslot, hrest⟩, htail => by
      refine ⟨front, rest ++ tail, ?_, hfront, hbound, hslot, Lined.close hrest htail⟩
      rw [htext, List.append_assoc, List.cons_append]

/-- A separator in front of a text. -/
theorem Lined.after {slots : List Slot} {text sep : Bytes} {front : Bytes} (h : Lined slots text)
    (hfront : 0x3F ∉ front) (hsep : Separator sep) : Lined slots (front ++ sep ++ text) := by
  have hunmarked : 0x3F ∉ front ++ sep := by
    intro hmem
    exact (List.mem_append.mp hmem).elim hfront hsep.unmarked
  cases slots with
  | nil =>
    intro hmem
    exact (List.mem_append.mp hmem).elim hunmarked h
  | cons slot slots =>
    obtain ⟨pre, rest, rfl, hpre, hbound, hslot, hrest⟩ := h
    refine ⟨front ++ sep ++ pre, rest, ?_, ?_, ?_, hslot, hrest⟩
    · simp only [List.append_assoc]
    · intro hmem
      exact (List.mem_append.mp hmem).elim hunmarked hpre
    · rcases hbound with rfl | ⟨init, c, rfl, hc⟩
      · obtain ⟨init, c, rfl, hc⟩ := hsep.ends
        exact Or.inr ⟨front ++ init, c, by rw [List.append_nil, List.append_assoc], hc⟩
      · exact Or.inr ⟨front ++ sep ++ init, c, by rw [List.append_assoc (front ++ sep)], hc⟩

/-- Two texts with a separator between them. -/
theorem Lined.join : ∀ {a b : List Slot} {s t sep : Bytes}, Lined a s → Lined b t →
    Separator sep → Lined (a ++ b) (s ++ sep ++ t)
  | [], _, _, _, _, ha, hb, hsep => hb.after ha hsep
  | slot :: a, b, _, t, sep, ⟨front, rest, htext, hfront, hbound, hslot, hrest⟩, hb, hsep => by
      refine ⟨front, rest ++ sep ++ t, ?_, hfront, hbound, hslot, Lined.join hrest hb hsep⟩
      rw [htext, List.append_assoc, List.append_assoc, List.cons_append, List.append_assoc rest]

theorem lined_slot {field op : Bytes} (v : Value) (hfield : 0x3F ∉ field) (hop : 0x3F ∉ op) :
    Lined [⟨field, op, v⟩] (field ++ (op ++ [0x3F])) := by
  refine ⟨[], [], ?_, List.not_mem_nil, Or.inl rfl, ?_, List.not_mem_nil⟩
  · rw [List.nil_append, List.append_assoc]
  · intro hmem
    exact (List.mem_append.mp hmem).elim hfield hop

/-- Nothing stands in front of a `?` that is not there. -/
theorem Lined.eq_nil {slots : List Slot} (h : Lined slots []) : slots = [] :=
  List.eq_nil_of_length_eq_zero h.count.symm

theorem separator_and : Separator (lit " AND ") := ⟨by decide, lit " AND", 0x20, rfl, Or.inl rfl⟩

theorem separator_or : Separator (lit " OR ") := ⟨by decide, lit " OR", 0x20, rfl, Or.inl rfl⟩

theorem separator_where : Separator (lit " WHERE ") :=
  ⟨by decide, lit " WHERE", 0x20, rfl, Or.inl rfl⟩

theorem separator_paren : Separator (lit "(") := ⟨by decide, [], 0x28, rfl, Or.inr (Or.inl rfl)⟩

theorem separator_comma : Separator (lit ",") := ⟨by decide, [], 0x2C, rfl, Or.inr (Or.inr rfl)⟩

/-! ## Conditions -/

theorem itemSlots_cons (v : Value) (items : List Value) :
    itemSlots (v :: items) = itemSlots [v] ++ itemSlots items := by
  cases v with
  | object fields => rw [itemSlots, itemSlots, itemSlots, List.append_nil]
  | _ => rfl

theorem UnmarkedItems.split {v : Value} {items : List Value} (h : UnmarkedItems (v :: items)) :
    UnmarkedItems [v] ∧ UnmarkedItems items := by
  cases v with
  | object fields =>
    rw [UnmarkedItems] at h
    rw [UnmarkedItems]
    exact ⟨⟨h.1, trivial⟩, h.2⟩
  | _ => exact ⟨trivial, h⟩

/-- A part of a statement whose values are those of the slots, in their order. -/
structure Filled (part : Part) (slots : List Slot) : Prop where
  lined : Lined slots part.1
  values : part.2 = slots.map (·.value)

theorem Filled.join {a b : Part} {s t : List Slot} (ha : Filled a s) (hb : Filled b t)
    {sep : Bytes} (hsep : Separator sep) : Filled (a.1 ++ sep ++ b.1, a.2 ++ b.2) (s ++ t) :=
  ⟨ha.lined.join hb.lined hsep, by rw [ha.values, hb.values, List.map_append]⟩

theorem filled_nil : Filled ([], []) [] := ⟨List.not_mem_nil, rfl⟩

theorem filled_eq {key : Bytes} (h : 0x3F ∉ key) (v : Value) :
    Filled (key ++ lit "=?", [v]) [⟨key, lit "=", v⟩] :=
  ⟨lined_slot v h (by decide), rfl⟩

theorem filled_firstOp {key : Bytes} (h : 0x3F ∉ key) (fields : Object) :
    ∀ (names : List (Bytes × Bytes)), (∀ op ∈ names, 0x3F ∉ op.2) →
    Filled (firstOp key fields (names.map fun op => (op.1, op.2 ++ [0x3F])))
      ((names.filterMap fun op =>
        (OrdMap.find? fields op.1).map fun v => (⟨key, op.2, v⟩ : Slot)).take 1)
  | [], _ => filled_nil
  | op :: names, hnames => by
      rw [List.map_cons, firstOp]
      cases hfind : OrdMap.find? fields op.1 with
      | none =>
        rw [List.filterMap_cons_none (by rw [hfind]; rfl)]
        exact filled_firstOp h fields names (fun p hp => hnames p (List.mem_cons_of_mem _ hp))
      | some v =>
        rw [List.filterMap_cons_some (b := ⟨key, op.2, v⟩) (by rw [hfind]; rfl), List.take_succ_cons,
          List.take_zero]
        exact ⟨lined_slot v h (hnames op (List.mem_cons_self ..)), rfl⟩

theorem filled_operators {key : Bytes} (h : 0x3F ∉ key) (fields : Object) :
    Filled (firstOp key fields ops) (operatorSlots key fields) :=
  filled_firstOp h fields operators (by decide)

mutual

theorem filled_wherePart : ∀ {q : Object}, Unmarked q → Filled (wherePart q) (whereSlots q)
  | [], _ => filled_nil
  | [(key, v)], h => by
      rw [Unmarked] at h
      have hentry := filled_whereEntry h.1 h.2.1
      rw [wherePart, whereSlots, whereSlots, List.append_nil]
      exact hentry
  | (key, v) :: p :: rest, h => by
      rw [Unmarked] at h
      have hentry := filled_whereEntry h.1 h.2.1
      have hrest := filled_wherePart h.2.2
      rw [wherePart, whereSlots]
      · exact hentry.join hrest separator_and
      · exact List.cons_ne_nil _ _

theorem filled_whereEntry {key : Bytes} (h : 0x3F ∉ key) : ∀ {v : Value}, UnmarkedEntry v →
    Filled (whereEntry key v) (entrySlots key v)
  | .array [], _ => by
      rw [whereEntry, entrySlots, itemSlots, ite_self]
      exact filled_nil
  | .array [v], hv => by
      rw [UnmarkedEntry] at hv
      have hitem := filled_whereItem hv
      rw [whereEntry, entrySlots]
      by_cases hor : key = lit "$or"
      · rw [if_pos hor, if_pos hor]
        exact hitem
      · rw [if_neg hor, if_neg hor]
        exact filled_nil
  | .array (v :: w :: items), hv => by
      rw [UnmarkedEntry] at hv
      have hitems := filled_whereItems hv
      rw [whereEntry, entrySlots]
      · by_cases hor : key = lit "$or"
        · rw [if_pos hor, if_pos hor]
          exact ⟨(hitems.lined.after List.not_mem_nil separator_paren).close (by decide),
            hitems.values⟩
        · rw [if_neg hor, if_neg hor]
          exact filled_nil
      · exact List.cons_ne_nil _ _
  | .buffer _, _ => filled_nil
  | .object [], _ => filled_eq h _
  | .object (field :: fields), _ => filled_operators h _
  | .null, _ => filled_eq h _
  | .bool _, _ => filled_eq h _
  | .int32 _, _ => filled_eq h _
  | .int64 _, _ => filled_eq h _
  | .float32 _, _ => filled_eq h _
  | .float64 _, _ => filled_eq h _
  | .string _, _ => filled_eq h _

theorem filled_whereItem : ∀ {v : Value}, UnmarkedItems [v] →
    Filled (whereItem v) (itemSlots [v])
  | .object fields, h => by
      rw [UnmarkedItems] at h
      have hfields := filled_wherePart h.1
      rw [whereItem, itemSlots, itemSlots, List.append_nil]
      exact hfields
  | .array _, _ => filled_nil
  | .buffer _, _ => filled_nil
  | .null, _ => filled_nil
  | .bool _, _ => filled_nil
  | .int32 _, _ => filled_nil
  | .int64 _, _ => filled_nil
  | .float32 _, _ => filled_nil
  | .float64 _, _ => filled_nil
  | .string _, _ => filled_nil

theorem filled_whereItems : ∀ {items : List Value}, UnmarkedItems items →
    Filled (whereItems items) (itemSlots items)
  | [], _ => filled_nil
  | [v], h => by
      rw [whereItems]
      exact filled_whereItem h
  | v :: w :: items, h => by
      have hitem := filled_whereItem h.split.1
      have hitems := filled_whereItems h.split.2
      rw [whereItems, itemSlots_cons]
      · exact hitem.join hitems separator_or
      · exact List.cons_ne_nil _ _

end

/-- A condition after a text. -/
theorem Filled.whereText {part : Part} {slots : List Slot} (h : Filled part slots) {q : Object}
    (hq : Unmarked q) :
    Filled (part.1 ++ whereText q, part.2 ++ (wherePart q).2) (slots ++ whereSlots q) := by
  have hwhere := filled_wherePart hq
  unfold Store.whereText
  by_cases hempty : (wherePart q).1.isEmpty = true
  · -- a condition without a text has no slots either
    have hnone : whereSlots q = [] := by
      have hlined := hwhere.lined
      rw [List.isEmpty_iff.mp hempty] at hlined
      exact hlined.eq_nil
    have hvalues : (wherePart q).2 = [] := by rw [hwhere.values, hnone, List.map_nil]
    rw [if_pos hempty, hnone, hvalues, List.append_nil, List.append_nil, List.append_nil]
    exact h
  · rw [if_neg hempty, ← List.append_assoc]
    exact h.join hwhere separator_where

theorem Filled.close {part : Part} {slots : List Slot} (h : Filled part slots) {tail : Bytes}
    (htail : 0x3F ∉ tail) : Filled (part.1 ++ tail, part.2) slots :=
  ⟨h.lined.close htail, h.values⟩

/-! ## Assignments -/

theorem filled_updatePart : ∀ {update : Object}, (∀ p ∈ update, 0x3F ∉ p.1) →
    Filled (updatePart update) (updateSlots update)
  | [], _ => filled_nil
  | [(key, v)], h => filled_eq (h (key, v) (List.mem_cons_self ..)) v
  | (key, v) :: p :: update, h => by
      have hhead := filled_eq (h (key, v) (List.mem_cons_self ..)) v
      have ih := filled_updatePart (fun q hq => h q (List.mem_cons_of_mem _ hq))
      have hjoin := hhead.join ih separator_comma
      unfold updatePart at hjoin ⊢
      rw [updateText]
      · exact hjoin
      · exact List.cons_ne_nil _ _

/-! ## Insertions -/

/-- Texts with commas between them. -/
def commaList (texts : List Bytes) : Bytes := (lit ",").intercalate texts

theorem commaList_cons (a b : Bytes) (texts : List Bytes) :
    commaList (a :: b :: texts) = a ++ lit "," ++ commaList (b :: texts) := by
  unfold commaList
  rw [List.append_assoc]
  rfl

theorem commaList_unmarked : ∀ {texts : List Bytes}, (∀ t ∈ texts, 0x3F ∉ t) →
    0x3F ∉ commaList texts
  | [], _ => List.not_mem_nil
  | [t], h => by
      have hlist : commaList [t] = t := List.append_nil t
      rw [hlist]
      exact h t (List.mem_cons_self ..)
  | a :: b :: texts, h => by
      have ih := commaList_unmarked (fun t ht => h t (List.mem_cons_of_mem _ ht))
      rw [commaList_cons]
      intro hmem
      rcases List.mem_append.mp hmem with hmem | hmem
      · rcases List.mem_append.mp hmem with hmem | hmem
        · exact h a (List.mem_cons_self ..) hmem
        · exact absurd hmem (by decide)
      · exact ih hmem

/-- So many `?`s with commas between them. -/
def questionMarks (n : Nat) : Bytes := commaList (List.replicate n (lit "?"))

theorem questionMarks_count : ∀ n : Nat, (questionMarks n).count 0x3F = n
  | 0 => rfl
  | 1 => rfl
  | n + 2 => by
      have ih := questionMarks_count (n + 1)
      have hlist : questionMarks (n + 2) = lit "?" ++ lit "," ++ questionMarks (n + 1) :=
        commaList_cons _ _ _
      rw [hlist, List.count_append, ih]
      show 1 + (n + 1) = n + 2
      omega

/-- The columns and the `?`s are listed in the same order. -/
theorem insertLists_eq : ∀ insert : Object,
    insertLists insert = (commaList (insert.map (·.1)), questionMarks insert.length)
  | [] => rfl
  | [(key, v)] => Prod.ext (List.append_nil key).symm rfl
  | (key, v) :: p :: insert => by
      have ih := insertLists_eq (p :: insert)
      rw [insertLists, ih]
      · exact Prod.ext (commaList_cons _ _ _).symm (commaList_cons _ _ _).symm
      · exact List.cons_ne_nil _ _

/-- The only object whose columns have no text is the empty one, and one with a single field
without a name. -/
theorem insertLists_isEmpty (insert : Object) :
    (insertLists insert).1.isEmpty = true ↔ insert = [] ∨ ∃ v, insert = [([], v)] := by
  match insert with
  | [] => exact ⟨fun _ => Or.inl rfl, fun _ => rfl⟩
  | [(key, v)] =>
    show key.isEmpty = true ↔ _
    rw [List.isEmpty_iff]
    constructor
    · rintro rfl
      exact Or.inr ⟨v, rfl⟩
    · rintro (h | ⟨w, h⟩)
      · exact absurd h (List.cons_ne_nil _ _)
      · exact congrArg Prod.fst (List.cons.inj h).1
  | (key, v) :: p :: insert =>
    rw [insertLists_eq, List.map_cons, List.map_cons, commaList_cons, List.isEmpty_iff]
    constructor
    · intro h
      exact absurd h (by simp [lit])
    · rintro (h | ⟨w, h⟩)
      · exact absurd h (List.cons_ne_nil _ _)
      · exact absurd (List.cons.inj h).2 (List.cons_ne_nil _ _)

/-- The statement names the columns of the fields, one after another, and after them as many `?`s
stand as there are columns; the values are those of the fields, in the same order. -/
structure InsertFilled (part : Part) (insert : Object) : Prop where
  values : part.2 = insert.map (·.2)
  placed : ∃ front middle tail,
    part.1 = front ++ commaList (insert.map (·.1)) ++ middle ++ questionMarks insert.length
        ++ tail ∧
      0x3F ∉ front ∧ 0x3F ∉ middle ∧ 0x3F ∉ tail ∧ (insert ≠ [] → middle = lit ") VALUES(")

theorem InsertFilled.count {part : Part} {insert : Object} (h : InsertFilled part insert)
    (hnames : ∀ p ∈ insert, 0x3F ∉ p.1) : part.1.count 0x3F = insert.length := by
  obtain ⟨front, middle, tail, htext, hfront, hmiddle, htail, -⟩ := h.placed
  have hcolumns : 0x3F ∉ commaList (insert.map (·.1)) := by
    refine commaList_unmarked ?_
    intro t ht
    obtain ⟨p, hp, rfl⟩ := List.mem_map.mp ht
    exact hnames p hp
  rw [htext, List.count_append, List.count_append, List.count_append, List.count_append,
    List.count_eq_zero.mpr hfront, List.count_eq_zero.mpr hmiddle, List.count_eq_zero.mpr htail,
    List.count_eq_zero.mpr hcolumns, questionMarks_count]
  omega

theorem insertFilled_iff {table : Bytes} (ht : 0x3F ∉ table) {insert : Object}
    (hnames : ∀ p ∈ insert, 0x3F ∉ p.1) :
    InsertFilled (InsertAction.sql table insert) insert ↔ ∀ v, insert ≠ [([], v)] := by
  have hfront : 0x3F ∉ lit "INSERT INTO " ++ table ++ lit " " := by
    intro hmem
    rcases List.mem_append.mp hmem with hmem | hmem
    · rcases List.mem_append.mp hmem with hmem | hmem
      · exact absurd hmem (by decide)
      · exact ht hmem
    · exact absurd hmem (by decide)
  constructor
  · intro h v hinsert
    -- the text has no `?`, and there is a value
    have hcount := h.count hnames
    rw [hinsert] at hcount
    have htext : (InsertAction.sql table [([], v)]).1 = lit "INSERT INTO " ++ table ++ lit " " :=
      List.append_nil _
    rw [htext, List.count_eq_zero.mpr hfront] at hcount
    exact absurd hcount (by simp)
  · intro h
    refine ⟨rfl, ?_⟩
    by_cases hempty : (insertLists insert).1.isEmpty = true
    · have hnil : insert = [] := by
        rcases (insertLists_isEmpty insert).mp hempty with hnil | ⟨v, hv⟩
        · exact hnil
        · exact absurd hv (h v)
      rw [hnil]
      refine ⟨lit "INSERT INTO " ++ table ++ lit " ", [], [], ?_, hfront, List.not_mem_nil,
        List.not_mem_nil, ?_⟩
      · unfold InsertAction.sql insertPart
        simp [insertLists, commaList, questionMarks]
      · intro hne
        exact absurd rfl hne
    · refine ⟨lit "INSERT INTO " ++ table ++ lit " (", lit ") VALUES(", lit ")", ?_, ?_, by decide,
        by decide, ?_⟩
      · unfold InsertAction.sql insertPart
        rw [if_neg hempty, insertLists_eq]
        have hopen : lit " (" = lit " " ++ lit "(" := rfl
        simp only [hopen, List.append_assoc]
      · intro hmem
        rcases List.mem_append.mp hmem with hmem | hmem
        · exact hfront (List.mem_append_left _ hmem)
        · exact absurd hmem (by decide)
      · intro _
        rfl

/-! ## The statements -/

/-- As many `?`s as values, and each at the slot of its value. -/
def LinedUp (part : Part) (slots : List Slot) : Prop :=
  part.1.count 0x3F = part.2.length ∧ Filled part slots

theorem Filled.linedUp {part : Part} {slots : List Slot} (h : Filled part slots) :
    LinedUp part slots :=
  ⟨by rw [h.lined.count, h.values, List.length_map], h⟩

/-- The same for an insertion. -/
def InsertLinedUp (part : Part) (insert : Object) : Prop :=
  part.1.count 0x3F = part.2.length ∧ InsertFilled part insert

theorem insertLinedUp_iff {table : Bytes} (ht : 0x3F ∉ table) {insert : Object}
    (hnames : ∀ p ∈ insert, 0x3F ∉ p.1) :
    InsertLinedUp (InsertAction.sql table insert) insert ↔ ∀ v, insert ≠ [([], v)] := by
  rw [← insertFilled_iff ht hnames]
  constructor
  · intro h
    exact h.2
  · intro h
    exact ⟨by rw [h.count hnames, h.values, List.length_map], h⟩

/-- There is no `?` in a text that has none in front of a part and none in it. -/
theorem unmarked_append {a b : Bytes} (ha : 0x3F ∉ a) (hb : 0x3F ∉ b) : 0x3F ∉ a ++ b := by
  intro hmem
  exact (List.mem_append.mp hmem).elim ha hb

theorem unmarked_fieldsToReturnPart : ∀ {fields : List Bytes}, (∀ f ∈ fields, 0x3F ∉ f) →
    0x3F ∉ fieldsToReturnPart fields
  | [], _ => List.not_mem_nil
  | [f], h => h f (List.mem_cons_self ..)
  | f :: g :: fields, h => by
      have ih := unmarked_fieldsToReturnPart (fun e he => h e (List.mem_cons_of_mem _ he))
      rw [fieldsToReturnPart]
      · exact unmarked_append (unmarked_append (h f (List.mem_cons_self ..)) (by decide)) ih
      · exact List.cons_ne_nil _ _

theorem unmarked_orderPart {order : Object} (h : ∀ p ∈ order, 0x3F ∉ p.1) :
    0x3F ∉ orderPart order := by
  intro hmem
  obtain ⟨p, hp, hmem⟩ := List.mem_flatMap.mp hmem
  refine unmarked_append (h p hp) ?_ hmem
  split
  · decide
  · decide

theorem unmarked_number (n : Nat) : 0x3F ∉ lit n.repr := by
  intro hmem
  exact absurd (digit_of_mem_repr hmem).2 (by decide)

section

variable {table : Bytes} (ht : 0x3F ∉ table) {query : Object} (hq : Unmarked query)
include ht hq

theorem filled_remove : Filled (RemoveAction.sql table query) (whereSlots query) := by
  have hstart : Filled (lit "DELETE FROM " ++ table, []) [] :=
    ⟨unmarked_append (by decide) ht, rfl⟩
  exact hstart.whereText hq

theorem filled_count : Filled (CountAction.sql table query) (whereSlots query) := by
  have hstart : Filled (lit "SELECT COUNT(1) FROM " ++ table, []) [] :=
    ⟨unmarked_append (by decide) ht, rfl⟩
  exact hstart.whereText hq

theorem filled_update {update : Object} (hu : ∀ p ∈ update, 0x3F ∉ p.1) :
    Filled (UpdateAction.sql table update query) (updateSlots update ++ whereSlots query) := by
  have hset : Separator (lit " SET ") := ⟨by decide, lit " SET", 0x20, rfl, Or.inl rfl⟩
  have hstart : Filled (lit "UPDATE " ++ table, []) [] := ⟨unmarked_append (by decide) ht, rfl⟩
  exact (hstart.join (filled_updatePart hu) hset).whereText hq

theorem filled_query {order : Object} (ho : ∀ p ∈ order, 0x3F ∉ p.1) {fields : List Bytes}
    (hf : ∀ f ∈ fields, 0x3F ∉ f) (limit offset : BitVec 32) :
    Filled (QueryAction.sql table query order fields limit offset) (whereSlots query) := by
  have hstart : Filled (lit "SELECT "
      ++ (if (fieldsToReturnPart fields).isEmpty then lit "* FROM " ++ table
        else fieldsToReturnPart fields ++ lit " FROM " ++ table), []) [] := by
    refine ⟨?_, rfl⟩
    refine unmarked_append (by decide) ?_
    split
    · exact unmarked_append (by decide) ht
    · exact unmarked_append (unmarked_append (unmarked_fieldsToReturnPart hf) (by decide)) ht
  have horder : 0x3F ∉ (if (orderPart order).isEmpty then [] else
      lit " ORDER BY " ++ orderPart order : Bytes) := by
    split
    · exact List.not_mem_nil
    · exact unmarked_append (by decide) (unmarked_orderPart ho)
  have hlimit : 0x3F ∉ (if 0 < limit.toInt then lit " LIMIT " ++ lit limit.toNat.repr else []
      : Bytes) := by
    split
    · exact unmarked_append (by decide) (unmarked_number _)
    · exact List.not_mem_nil
  have hoffset : 0x3F ∉ (if 0 < offset.toInt then lit " OFFSET " ++ lit offset.toNat.repr else []
      : Bytes) := by
    split
    · exact unmarked_append (by decide) (unmarked_number _)
    · exact List.not_mem_nil
  exact (((hstart.whereText hq).close horder).close hlimit).close hoffset

end

/-- **The `?`s of all five statements line up with `m_bound`, as long as what is inserted is not
an object with one field that has no name.** -/
theorem linedUp_iff {table : Bytes} (ht : 0x3F ∉ table) {query : Object} (hq : Unmarked query)
    {order : Object} (ho : ∀ p ∈ order, 0x3F ∉ p.1) {fields : List Bytes}
    (hf : ∀ f ∈ fields, 0x3F ∉ f) {update : Object} (hu : ∀ p ∈ update, 0x3F ∉ p.1)
    {insert : Object} (hi : ∀ p ∈ insert, 0x3F ∉ p.1) (limit offset : BitVec 32) :
    (LinedUp (QueryAction.sql table query order fields limit offset) (whereSlots query) ∧
      LinedUp (CountAction.sql table query) (whereSlots query) ∧
      LinedUp (RemoveAction.sql table query) (whereSlots query) ∧
      LinedUp (UpdateAction.sql table update query) (updateSlots update ++ whereSlots query) ∧
      InsertLinedUp (InsertAction.sql table insert) insert) ↔ ∀ v, insert ≠ [([], v)] := by
  rw [← insertLinedUp_iff ht hi]
  constructor
  · rintro ⟨-, -, -, -, hinsert⟩
    exact hinsert
  · intro hinsert
    exact ⟨(filled_query ht hq ho hf limit offset).linedUp, (filled_count ht hq).linedUp,
      (filled_remove ht hq).linedUp, (filled_update ht hq hu).linedUp, hinsert⟩

/-- Statements about two columns. -/
theorem linedUp_iff_columns :
    (LinedUp (QueryAction.sql (lit "t") [(lit "a", .int32 1)] [(lit "b", .int32 1)] [lit "b"] 5 0)
        (whereSlots [(lit "a", .int32 1)]) ∧
      LinedUp (CountAction.sql (lit "t") [(lit "a", .int32 1)])
        (whereSlots [(lit "a", .int32 1)]) ∧
      LinedUp (RemoveAction.sql (lit "t") [(lit "a", .int32 1)])
        (whereSlots [(lit "a", .int32 1)]) ∧
      LinedUp (UpdateAction.sql (lit "t") [(lit "b", .int32 3)] [(lit "a", .int32 1)])
        (updateSlots [(lit "b", .int32 3)] ++ whereSlots [(lit "a", .int32 1)]) ∧
      InsertLinedUp (InsertAction.sql (lit "t") [(lit "a", .int32 1), (lit "b", .int32 2)])
        [(lit "a", .int32 1), (lit "b", .int32 2)]) ↔
      ∀ v, [(lit "a", Value.int32 1), (lit "b", .int32 2)] ≠ [([], v)] := by
  have hquery : Unmarked [(lit "a", .int32 1)] := by
    simp only [Unmarked, UnmarkedEntry, and_true]
    decide
  exact linedUp_iff (by decide) hquery (by decide) (by decide) (by decide) (by decide) 5 0

/-- A value without a `?`. -/
theorem not_insertLinedUp :
    ¬ InsertLinedUp (InsertAction.sql (lit "t") [([], .int32 7)]) [([], .int32 7)] := by
  intro h
  exact absurd h.1 (by decide)

end Zway.Ubj.Store
