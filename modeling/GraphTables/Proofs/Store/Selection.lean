import GraphTables.Proofs.Sorting
import GraphTables.Proofs.Store.Mutation
import Mathlib.Data.List.Perm.Subperm

namespace GraphTables

theorem compare_text_eq_lt_iff (s t : String) : compare s t = .lt ↔ s < t := compareOfLessAndEq_eq_lt

/-- The order of lists of texts is the lexicographic one. -/
theorem compare_texts_eq_lt_iff (a b : List String) : compare a b = .lt ↔ a < b := by
  induction a generalizing b with
  | nil =>
    cases b with
    | nil => decide
    | cons y ys => exact ⟨fun _ => List.nil_lt_cons y ys, fun _ => rfl⟩
  | cons x xs ih =>
    cases b with
    | nil => exact ⟨nofun, fun h => absurd h (List.not_lt_nil _)⟩
    | cons y ys =>
      have hcompare : compare (x :: xs) (y :: ys) = (compare x y).then (compare xs ys) :=
        List.compareLex_cons_cons
      have hrest : compare xs ys = .lt ↔ xs < ys := ih ys
      rw [hcompare, Ordering.then_eq_lt, hrest, compare_text_eq_lt_iff, Std.compare_eq_iff_eq,
        List.cons_lt_cons_iff]

/-- The order of rows by orderings is a total preorder, whatever columns they name and how often. -/
instance transCmp_compareBy (orderings : List SortKey) : Std.TransCmp (compareBy orderings) := by
  induction orderings with
  | nil => exact { eq_swap := rfl, isLE_trans := fun _ _ => rfl }
  | cons o rest ih =>
    let cell (row : Record) := row.get? o.column
    have hasc : Std.TransCmp (compareOn cell) := inferInstance
    have hdesc : Std.TransCmp fun a b => compareOn cell b a := Std.TransCmp.opposite
    cases hdirection : o.direction with
    | asc =>
      have hcompare : compareBy (o :: rest) = compareLex (compareOn cell) (compareBy rest) := by
        funext a b
        rw [compareBy, hdirection]
        rfl
      rw [hcompare]
      infer_instance
    | desc =>
      have hcompare : compareBy (o :: rest) =
          compareLex (fun a b => compareOn cell b a) (compareBy rest) := by
        funext a b
        rw [compareBy, hdirection]
        rfl
      rw [hcompare]
      infer_instance

theorem compareBy_isLE_trans (orderings : List SortKey) (a b c : Record)
    (hab : (compareBy orderings a b).isLE = true) (hbc : (compareBy orderings b c).isLE = true) :
    (compareBy orderings a c).isLE = true := Std.TransCmp.isLE_trans hab hbc

theorem compareBy_isLE_total (orderings : List SortKey) (a b : Record) :
    ((compareBy orderings a b).isLE || (compareBy orderings b a).isLE) = true := by
  have hswap : compareBy orderings b a = (compareBy orderings a b).swap := Std.OrientedCmp.eq_swap
  rw [hswap]
  cases compareBy orderings a b <;> rfl

/-- Orderings do not tell rows apart that agree on their columns. -/
theorem compareBy_congr {orderings : List SortKey} {a b : Record}
    (h : ∀ o ∈ orderings, a.get? o.column = b.get? o.column) (row : Record) :
    compareBy orderings a row = compareBy orderings b row ∧
      compareBy orderings row a = compareBy orderings row b := by
  induction orderings with
  | nil => exact ⟨rfl, rfl⟩
  | cons o rest ih =>
    rw [List.forall_mem_cons] at h
    obtain ⟨hleft, hright⟩ := ih h.2
    simp only [compareBy, h.1, hleft, hright, and_self]

private theorem compareBy_isLE_of_agree {orderings : List SortKey} {a b : Record}
    (h : ∀ o ∈ orderings, a.get? o.column = b.get? o.column) :
    (compareBy orderings a b).isLE = true := by
  have hself : compareBy orderings b b = .eq := Std.ReflCmp.compare_self
  rw [(compareBy_congr h b).1, hself]
  rfl

/-- All columns that a select names: those of its restrictions, then those it is ordered by. -/
def Select.columns (s : Select) : List String :=
  s.restrictions.map Restriction.column ++ s.orderings.map (·.column)

namespace Table

theorem satisfies_iff_forall_holds {clauses : List Clause} {row : Record} :
    satisfies clauses row = true ↔ ∀ c ∈ clauses, c.holds row.get? = true := by
  induction clauses with
  | nil => simp [satisfies, Clause.holdAll]
  | cons c rest ih =>
    rw [satisfies, Clause.holdAll, Bool.and_eq_true, List.forall_mem_cons]
    exact and_congr_right fun _ => ih

theorem satisfies_append (clauses more : List Clause) (row : Record) :
    satisfies (clauses ++ more) row = (satisfies clauses row && satisfies more row) := by
  simp only [satisfies, Clause.holdAll_eq_all, Clause.restrictionsOf_append, List.all_append]

/-- Without a limit a select gives all rows that satisfy its clauses, sorted. -/
theorem selectRecords_unlimited (t : Table) {s : Select} (hlimit : s.limit = none) :
    t.selectRecords s = stableSort (fun a b => (compareBy s.orderings a b).isLE)
      (t.rows.values.filter (satisfies s.clauses)) := by
  unfold selectRecords
  dsimp only
  rw [hlimit]

/-- Without orderings and limit a select gives the rows that satisfy its clauses, in key order. -/
theorem selectRecords_plain (t : Table) (table : String) (clauses : List Clause) :
    t.selectRecords { table, clauses } = (t.rows.filter fun _ row => satisfies clauses row).values := by
  have hsorted := stableSort_of_forall (fun a b => (compareBy [] a b).isLE)
    (l := t.rows.values.filter (satisfies clauses)) fun _ _ _ _ => rfl
  rw [selectRecords_unlimited t rfl, hsorted, SortedMap.values, SortedMap.values, SortedMap.filter,
    List.filter_map]
  rfl

/-- More clauses take rows out of those selected, and leave the others in their order. -/
theorem selectRecords_append (t : Table) {s : Select} (hlimit : s.limit = none)
    (more : List Clause) :
    t.selectRecords { s with clauses := s.clauses ++ more } =
      (t.selectRecords s).filter (satisfies more) := by
  have hmatching : t.rows.values.filter (satisfies (s.clauses ++ more)) =
      (t.rows.values.filter (satisfies s.clauses)).filter (satisfies more) := by
    rw [List.filter_filter]
    apply List.filter_congr
    intro row _
    rw [satisfies_append, Bool.and_comm]
  have hmore : Select.limit { s with clauses := s.clauses ++ more } = none := hlimit
  rw [selectRecords_unlimited t hmore, selectRecords_unlimited t hlimit, hmatching,
    stableSort_filter (compareBy_isLE_trans _) (compareBy_isLE_total _)]

/-- A limit takes the rows selected first. -/
theorem selectRecords_limit (t : Table) {s : Select} (hlimit : s.limit = none) (n : UInt64) :
    t.selectRecords { s with limit := some n } = (t.selectRecords s).take n.toNat := by
  unfold selectRecords
  dsimp only
  rw [hlimit]

/-- With or without a limit, the rows selected are some of those that the sorted matches list. -/
theorem selectRecords_sublist (t : Table) (s : Select) :
    (t.selectRecords s).Sublist (stableSort (fun a b => (compareBy s.orderings a b).isLE)
      (t.rows.values.filter (satisfies s.clauses))) := by
  unfold selectRecords
  dsimp only
  cases s.limit with
  | none => exact .refl _
  | some n => exact List.take_sublist _ _

theorem mem_of_mem_selectRecords {t : Table} {s : Select} {row : Record}
    (h : row ∈ t.selectRecords s) : row ∈ t.rows.values ∧ satisfies s.clauses row = true := by
  have hsorted := (t.selectRecords_sublist s).subset h
  rwa [(stableSort_perm _ _).mem_iff, List.mem_filter] at hsorted

theorem mem_selectRecords (t : Table) {s : Select} (hlimit : s.limit = none) {row : Record}
    (hrow : row ∈ t.rows.values) (hsatisfies : satisfies s.clauses row = true) :
    row ∈ t.selectRecords s := by
  rw [selectRecords_unlimited t hlimit, (stableSort_perm _ _).mem_iff, List.mem_filter]
  exact ⟨hrow, hsatisfies⟩

/-- Selected rows that the orderings do not tell apart are in key order. -/
theorem filter_selectRecords (t : Table) {s : Select} (hlimit : s.limit = none) {p : Record → Bool}
    (h : ∀ a b, p a = true → p b = true → ∀ o ∈ s.orderings, a.get? o.column = b.get? o.column) :
    (t.selectRecords s).filter p = (t.rows.values.filter (satisfies s.clauses)).filter p := by
  rw [selectRecords_unlimited t hlimit,
    ← stableSort_filter (compareBy_isLE_trans _) (compareBy_isLE_total _)]
  apply stableSort_of_forall
  intro a ha b hb
  exact compareBy_isLE_of_agree (h a b (List.mem_filter.1 ha).2 (List.mem_filter.1 hb).2)

theorem selectRecords_subperm (t : Table) (s : Select) :
    (t.selectRecords s).Subperm t.rows.values :=
  (t.selectRecords_sublist s).subperm.trans
    ((stableSort_perm _ _).subperm.trans List.filter_sublist.subperm)

/-- The rows selected are in the order asked for, and where it does not tell them apart they are as in
    the table. -/
theorem pairwise_selectRecords (t : Table) (s : Select) {R : Record → Record → Prop}
    (h : t.rows.values.Pairwise R) :
    (t.selectRecords s).Pairwise fun a b => (compareBy s.orderings a b).isLE = true ∧
      ((compareBy s.orderings b a).isLE = true → R a b) := by
  refine List.Pairwise.sublist (t.selectRecords_sublist s) ?_
  exact pairwise_stableSort_of_pairwise (compareBy_isLE_trans _) (compareBy_isLE_total _) (h.filter _)

/-- A select whose columns are columns of the table gives the rows, each with all columns of the
    table. -/
theorem select_eq_ok {t : Table} {s : Select}
    (hclauses : ∀ r ∈ s.restrictions, r.column ∈ t.schema.columns)
    (horderings : ∀ o ∈ s.orderings, o.column ∈ t.schema.columns) :
    t.select s = .ok ⟨t.schema.columns, (t.selectRecords s).map t.present⟩ := by
  have hrestrictions : t.requireColumns (s.restrictions.map Restriction.column) = .ok () := by
    rw [requireColumns_eq_ok_iff, List.forall_mem_map]
    exact hclauses
  have hsorted : t.requireColumns (s.orderings.map (·.column)) = .ok () := by
    rw [requireColumns_eq_ok_iff, List.forall_mem_map]
    exact horderings
  unfold select
  rw [hrestrictions, hsorted]
  rfl

theorem select_eq_ok_iff {t : Table} {s : Select} {result : ResultSet} :
    t.select s = .ok result ↔ (∀ r ∈ s.restrictions, r.column ∈ t.schema.columns) ∧
      (∀ o ∈ s.orderings, o.column ∈ t.schema.columns) ∧
        result = ⟨t.schema.columns, (t.selectRecords s).map t.present⟩ := by
  constructor
  · intro h
    obtain ⟨_, hrestrictions, h⟩ := bind_eq_ok_iff.1 h
    obtain ⟨_, horderings, h⟩ := bind_eq_ok_iff.1 h
    rw [requireColumns_eq_ok_iff, List.forall_mem_map] at hrestrictions horderings
    exact ⟨hrestrictions, horderings, (Except.ok.inj h).symm⟩
  · rintro ⟨hrestrictions, horderings, rfl⟩
    exact select_eq_ok hrestrictions horderings

theorem requireColumns_eq_error {t : Table} {columns : List String} {column : String}
    (h : columns.find? (fun c => !t.hasColumn c) = some column) :
    t.requireColumns columns = .error (.undefinedColumn column t.schema.name) := by
  rw [requireColumns, h]

/-- A select is refused for the first column it names that the table does not have. -/
theorem select_eq_error {t : Table} {s : Select} {column : String}
    (h : s.columns.find? (fun c => !t.hasColumn c) = some column) :
    t.select s = .error (.undefinedColumn column t.schema.name) := by
  rw [Select.columns, List.find?_append, Option.or_eq_some_iff] at h
  rw [select]
  rcases h with hrestrictions | ⟨hnone, horderings⟩
  · rw [requireColumns_eq_error hrestrictions]
    rfl
  · have hdefined : t.requireColumns (s.restrictions.map Restriction.column) = .ok () := by
      rw [requireColumns, hnone]
    rw [hdefined, requireColumns_eq_error horderings]
    rfl

/-- Selects that differ at most in what their clauses are, not in which columns they name and which rows they
    hold of, give the same. -/
theorem select_congr (t : Table) {s u : Select}
    (hcolumns : s.restrictions.map Restriction.column = u.restrictions.map Restriction.column)
    (hclauses : ∀ row, satisfies s.clauses row = satisfies u.clauses row)
    (horderings : s.orderings = u.orderings) (hlimit : s.limit = u.limit) : t.select s = t.select u := by
  have hrecords : t.selectRecords s = t.selectRecords u := by
    unfold selectRecords
    rw [funext hclauses, horderings, hlimit]
  unfold select
  rw [hcolumns, horderings, hrecords]

end Table

namespace Session

variable {session session' : Session} {s : Select}

private theorem select_of_open (hopen : session.closed = false) (s : Select) :
    session.select s = session.store.table s.table >>= fun t => (t.select s).mapError .invalid := by
  rw [select, hopen]
  rfl

theorem select_of_table (hopen : session.closed = false) {t : Table}
    (htable : session.store.table s.table = .ok t) :
    session.select s = (t.select s).mapError .invalid := by
  rw [select_of_open hopen, htable]
  rfl

/-- An open session executes the selects that their table takes, and they change nothing. -/
theorem execute_select_eq_ok_iff {result : ResultSet} :
    session.execute (.select s) = .ok (session', result) ↔ session.closed = false ∧ session' = session ∧
      ∃ t, session.store.table s.table = .ok t ∧ t.select s = .ok result := by
  rw [execute]
  cases hclosed : session.closed with
  | true => simp
  | false =>
    simp only [Bool.false_eq_true, ↓reduceIte, map_eq_ok_iff, select_of_open hclosed, bind_eq_ok_iff,
      mapError_eq_ok_iff, Prod.mk.injEq, true_and]
    constructor
    · rintro ⟨_, ⟨t, htable, hresult⟩, rfl, rfl⟩
      exact ⟨rfl, t, htable, hresult⟩
    · rintro ⟨rfl, t, htable, hresult⟩
      exact ⟨result, ⟨t, htable, hresult⟩, rfl, rfl⟩

/-- Selects that every table answers alike, from tables of one name, are answered alike. -/
theorem select_congr (session : Session) {s u : Select}
    (h : ∀ table : Table, table.select s = table.select u) (hname : s.table = u.table) :
    session.select s = session.select u := by
  unfold select
  simp only [hname, h]

end Session

end GraphTables
