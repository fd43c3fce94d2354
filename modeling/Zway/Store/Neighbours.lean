import Zway.Store.Documents
import Zway.Store.IndexScan

/-!
# Do calls on a virtual table disturb another one?

All virtual tables of a blob table share its ids. As long as every call on the others keeps
to objects of its own table, and no update makes an object one of this table, the table
shows the same rows before and after: `undisturbed_of_apart`.
-/

namespace Zway.Ubj.Store

open Sql Records Steps

namespace VirtualTable

variable (p : Platform) (T : VirtualTable)

/-- A query that is about objects of the table only. -/
def Own (docs : Documents) (where_ : Object) : Prop :=
  ∀ id ∈ matching p T docs where_, ∀ obj, docs id = some obj → Typed p T obj

/-- The objects of the table. -/
abbrev rows (docs : Documents) : Documents := ofKind (Typed p T) docs

/-- A call on another table, which keeps to its own objects and makes none of this table. -/
def Apart (docs : Documents) : Call → Prop
  | .insert T' _ => T'.type ≠ T.type
  | .update T' changes where_ => T'.type ≠ T.type ∧ Own p T' docs where_
      ∧ ∀ f ∈ changes, f.1 = lit "_$type" → f.2.toStr p.printed ≠ typeText p T
  | .remove T' where_ => T'.type ≠ T.type ∧ Own p T' docs where_
  | .query _ _ _ => True
  | .count _ _ => True

variable {p T}

/-! ## Types -/

/-- The type of a table is that of no other one. -/
theorem typed_apart {T' : VirtualTable} (htype : T'.type ≠ T.type) {obj : Object}
    (h : Typed p T' obj) : ¬ Typed p T obj := by
  intro h'
  have htext : typeText p T' = typeText p T := Option.some.inj (h.symm.trans h')
  exact htype (BitVec.toInt_inj.mp (decimal_inj htext))

theorem typed_recordOf (obj : Object) : Typed p T (recordOf p T obj) := by
  unfold Typed typeOf
  rw [find?_recordOf, if_pos rfl]
  rfl

/-- A field of an object that was updated is one of the update or was there before. -/
theorem find?_override {key : Bytes} {v : Value} : ∀ {changes obj : Object},
    OrdMap.find? (override obj changes) key = some v →
    (key, v) ∈ changes ∨ OrdMap.find? obj key = some v
  | [], obj, h => .inr h
  | (k, w) :: changes, obj, h => by
      rcases @find?_override key v changes (OrdMap.insert k w obj) h with h | h
      · exact .inl (List.mem_cons_of_mem _ h)
      · by_cases hk : key = k
        · subst hk
          rw [OrdMap.find?_insert_self] at h
          obtain rfl := Option.some.inj h
          exact .inl List.mem_cons_self
        · rw [OrdMap.find?_insert_of_ne _ _ hk] at h
          exact .inr h

/-- An update does not make an object one of another table. -/
theorem typed_override {T' : VirtualTable} (htype : T'.type ≠ T.type) {obj changes : Object}
    (h : Typed p T' obj)
    (hchanges : ∀ f ∈ changes, f.1 = lit "_$type" → f.2.toStr p.printed ≠ typeText p T) :
    ¬ Typed p T (override obj changes) := by
  intro h'
  obtain ⟨v, hv, htext⟩ := Option.map_eq_some_iff.mp h'
  rcases find?_override hv with hmem | hold
  · exact hchanges _ hmem rfl htext
  · refine typed_apart htype h ?_
    unfold Typed typeOf
    rw [hold]
    exact congrArg some htext

/-! ## One call -/

/-- **A call on another table leaves the rows of this one.** -/
theorem rows_of_does {docs docs' : Documents} {call : Call} {reply : Reply}
    (hdoes : Does p docs call reply docs') (hapart : Apart p T docs call) :
    rows p T docs' = rows p T docs := by
  cases hdoes with
  | inserted _ hnew => exact ofKind_update hnew (typed_apart hapart (typed_recordOf _))
  | notInserted => rfl
  | updated =>
    obtain ⟨htype, hown, hchanges⟩ := hapart
    refine ofKind_change (fun id hid obj hobj => typed_apart htype (hown id hid obj hobj)) ?_
    intro id hid obj hobj obj' hobj'
    obtain rfl := Option.some.inj hobj'
    exact typed_override htype (hown id hid obj hobj) hchanges
  | removed =>
    obtain ⟨htype, hown⟩ := hapart
    refine ofKind_change (fun id hid obj hobj => typed_apart htype (hown id hid obj hobj)) ?_
    intro id hid obj hobj obj' hobj'
    cases hobj'
  | queried _ => rfl
  | counted => rfl

/-- **What a query is about depends on the rows of the table only**, if it is about no others. -/
theorem matching_of_rows {docs docs' : Documents} {where_ : Object}
    (hown : Own p T docs where_) (hrows : rows p T docs' = rows p T docs) {id : BitVec 64}
    (hid : id ∈ matching p T docs where_) :
    id ∈ matching p T docs' where_ ∧ docs' id = docs id := by
  obtain ⟨hsmall, obj, hdoc, hmine, hsatisfies⟩ := hid
  have htyped := hown id ⟨hsmall, obj, hdoc, hmine, hsatisfies⟩ obj hdoc
  have hrow : rows p T docs' id = some obj := by
    rw [hrows]
    unfold rows ofKind
    rw [hdoc]
    exact Option.filter_some_pos (decide_eq_true htyped)
  obtain ⟨hdoc', -⟩ := Option.filter_eq_some_iff.mp hrow
  exact ⟨⟨hsmall, obj, hdoc', .inl htyped, hsatisfies⟩, hdoc'.trans hdoc.symm⟩

end VirtualTable

open VirtualTable

/-! ## Runs -/

section

variable {p : Platform} {T : VirtualTable}

/-- Two stores with the same rows. -/
theorem undisturbed_of_rows (hcovers : Covering p T) {db db' : Db}
    (husable : Usable T.blobTable db) (husable' : Usable T.blobTable db')
    (hrows : rows p T (p.doc db' T.blobTable) = rows p T (p.doc db T.blobTable)) {where_ : Object}
    (hsayable : Sayable p T where_) {fields : List Bytes}
    (hfields : ∀ f ∈ fields, isName f = true ∧ (T.table []).declares f = true)
    (hown : Own p T (p.doc db T.blobTable) where_)
    (hown' : Own p T (p.doc db' T.blobTable) where_) : Undisturbed p T db db' where_ fields := by
  refine undisturbed_of_matching hcovers husable husable' hsayable hfields ?_ ?_
  · ext id
    exact ⟨fun hid => (matching_of_rows hown' hrows.symm hid).1,
      fun hid => (matching_of_rows hown hrows hid).1⟩
  · intro id hid
    unfold itemOf
    rw [(matching_of_rows hown hrows hid).2]

/-- **Calls on the other tables leave this one as it is**, whatever is called in whatever order. -/
theorem undisturbed_of_apart (hcovers : ∀ T, Covering p T) {random : Nat → Option SaltBytes}
    (hrandom : ∀ n, (random n).isSome = true) {db : Db} (husable : Usable T.blobTable db)
    {calls : List Call}
    (hgood : Meets (performed (perform p random))
      (fun db call => Good p T.blobTable (p.doc db T.blobTable) call
        ∧ Apart p T (p.doc db T.blobTable) call) db calls)
    {where_ : Object} (hsayable : Sayable p T where_) {fields : List Bytes}
    (hfields : ∀ f ∈ fields, isName f = true ∧ (T.table []).declares f = true)
    (hown : Own p T (p.doc db T.blobTable) where_)
    (hown' : Own p T (p.doc (history (perform p random) db calls).2 T.blobTable) where_) :
    Undisturbed p T db (history (perform p random) db calls).2 where_ fields := by
  have hstep : ∀ db₁ call db₂,
      Usable T.blobTable db₁ ∧ rows p T (p.doc db₁ T.blobTable) = rows p T (p.doc db T.blobTable) →
      Good p T.blobTable (p.doc db₁ T.blobTable) call ∧ Apart p T (p.doc db₁ T.blobTable) call →
      performed (perform p random) db₁ call = some db₂ →
      Usable T.blobTable db₂
        ∧ rows p T (p.doc db₂ T.blobTable) = rows p T (p.doc db T.blobTable) := by
    rintro db₁ call db₂ ⟨⟨hok, htable⟩, hrows⟩ ⟨hgood, hapart⟩ hdb₂
    obtain rfl := Option.some.inj hdb₂
    obtain ⟨hdoes, htable', hsucceeds⟩ := does_perform hcovers hrandom hok htable hgood
    exact ⟨⟨fun n => by rw [hsucceeds, hok], htable'⟩, (rows_of_does hdoes hapart).trans hrows⟩
  obtain ⟨husable', hrows⟩ :=
    run_invariant_of_meets hstep ⟨husable, rfl⟩ hgood (run_performed db calls)
  exact undisturbed_of_rows (hcovers T) husable husable' hrows hsayable hfields hown hown'

/-- A query that no scan asks an id for is about objects of the table only. -/
theorem own_of_not_asked {docs : Documents} {where_ : Object} (h : ∀ id, ¬ Asked p where_ id) :
    Own p T docs where_ := by
  rintro id ⟨-, obj', hdoc', hmine, -⟩ obj hdoc
  obtain rfl := Option.some.inj (hdoc'.symm.trans hdoc)
  exact hmine.resolve_right (h id)

/-- What is called on the table of the type 2 leaves that of the type 1 empty. -/
theorem undisturbed_of_apart_two :
    Undisturbed deep (names 1) ofTwo (history (perform deep sevens) ofTwo
      [.update (names 2) nameA [], .remove (names 2) []]).2 [] [lit "name"] := by
  have hasked : ∀ id, ¬ Asked deep [] id := by
    rintro id ⟨cond, vals, hcond, -, scan, hscan, c, hc, -⟩
    obtain rfl : none = cond := Option.some.inj hcond
    obtain rfl : scan = [] := List.mem_singleton.mp hscan
    cases hc
  have htype : (names 2).type ≠ (names 1).type := by decide
  have hchanges : ∀ f ∈ nameA, f.1 = lit "_$type" → f.2.toStr deep.printed ≠ typeText deep (names 1) := by
    intro f hf hname
    rw [List.mem_singleton.mp hf] at hname
    exact absurd hname (by decide)
  have hfields : ∀ f ∈ [lit "name"], isName f = true
      ∧ ((names 1).table []).declares f = true := by decide
  have hgood : Meets (performed (perform deep sevens))
      (fun db call => Good deep (names 1).blobTable (deep.doc db (names 1).blobTable) call
        ∧ Apart deep (names 1) (deep.doc db (names 1).blobTable) call) ofTwo
      [.update (names 2) nameA [], .remove (names 2) []] :=
    ⟨⟨good_update, htype, own_of_not_asked hasked, hchanges⟩, fun _ _ =>
      meets_of_forall (fun call hcall _ => by
        obtain rfl := List.mem_singleton.mp hcall
        exact ⟨⟨rfl, sayable_nil⟩, htype, own_of_not_asked hasked⟩)⟩
  exact undisturbed_of_apart (fun T => covering_rowidPlan deep T rfl) (fun _ => rfl)
    ⟨fun _ => rfl, blobsDb_hasBlobTable _⟩ hgood sayable_nil hfields (own_of_not_asked hasked)
    (own_of_not_asked hasked)

end

end Zway.Ubj.Store
