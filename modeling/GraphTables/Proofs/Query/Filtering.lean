import GraphTables.Proofs.Query.Conditions
import GraphTables.Proofs.Query.Rows

namespace GraphTables

namespace Planner

/-- Selections by identifiers restrict identity columns. -/
theorem column_of_mem_selections {p : Planner} {ids : List ElementId} {selections : List (List Clause)}
    (h : p.selections ids = .ok selections) {clauses : List Clause} (hclauses : clauses ∈ selections) :
    ∀ r ∈ Clause.restrictionsOf clauses, ∃ c ∈ p.shape.columns, r.column = c.text := by
  intro r hr
  unfold Planner.selections at h
  split at h
  · cases h
    rw [List.mem_singleton.1 hclauses] at hr
    cases hr
  next column _ hcolumn =>
    cases h
    rw [List.mem_singleton.1 hclauses] at hr
    obtain rfl := List.mem_singleton.1 hr
    exact ⟨column, by simp [hcolumn], rfl⟩
  · obtain ⟨id, _, hid⟩ := exists_of_mem_mapM h clauses hclauses
    rw [idClauses, map_eq_ok_iff] at hid
    obtain ⟨pairs, hpairs, rfl⟩ := hid
    rw [IdShape.pairs, map_eq_ok_iff] at hpairs
    obtain ⟨values, _, rfl⟩ := hpairs
    have hmem := List.mem_map_of_mem (f := Restriction.column) hr
    rw [Clause.columns_equalities] at hmem
    obtain ⟨e, he, heq⟩ := List.mem_map.1 hmem
    exact ⟨e.1, (List.of_mem_zip he).1, heq.symm⟩

/-- Identifiers that fit the identity columns have selections. -/
theorem exists_selections (p : Planner) {ids : List ElementId}
    (h : ∀ id ∈ ids, ∃ values, p.shape.values id = .ok values) :
    ∃ selections, p.selections ids = .ok selections := by
  unfold selections
  split
  · exact ⟨_, rfl⟩
  · exact ⟨_, rfl⟩
  · apply exists_mapM_eq_ok
    intro id hid
    obtain ⟨values, hvalues⟩ := h id hid
    refine ⟨Clause.equalities (p.shape.columns.zip values), ?_⟩
    rw [idClauses, IdShape.pairs, hvalues]
    rfl

end Planner

/-- Clauses of comparisons hold of a row exactly if these hold of the element it is read as. -/
theorem Condition.Expressed.satisfies_eq {k : Kind} {leaves : List Leaf} {clauses : List Clause}
    (h : Expressed leaves clauses) (hleaves : ∀ leaf ∈ leaves, leaf.column ∈ k.layout.elementColumns)
    (row : Record) :
    Table.satisfies clauses row = leaves.all fun leaf => leaf.holds (k.layout.ofRecord row) := by
  rw [Table.satisfies, h.holds, Bool.eq_iff_iff, List.all_eq_true, List.all_eq_true]
  refine forall₂_congr fun leaf hleaf => ?_
  rw [Leaf.holds, k.get?_ofRecord row (hleaves leaf hleaf)]

/-- Leaving out elements by their columns before folding is leaving them out afterwards, if the rows of an
    element are next to each other. -/
theorem Layout.fold_filter {l : Layout} {elements : List Element}
    (hgrouped : l.spansRows = true → Grouped Element.identity elements) (leaves : List Leaf) :
    l.fold (elements.filter fun e => leaves.all (·.holds e)) =
      (l.fold elements).filter fun e => leaves.all (·.holds e) := by
  unfold fold
  split
  next hspans =>
    apply foldRuns_filter (hgrouped hspans)
    intro e f hidentity
    have hcolumns : e.columns = f.columns := congrArg Prod.snd hidentity
    simp only [Leaf.holds, hcolumns]
  next => rfl

namespace KindTable

variable {t : KindTable} {session : Session}

theorem columns_defined {columns : List Column} (h : columns ⊆ t.layout.columns) {column : String}
    (hcolumn : ∃ c ∈ columns, column = c.text) : column ∈ t.schema.columns := by
  obtain ⟨c, hc, rfl⟩ := hcolumn
  exact mem_columns_schema (h hc)

theorem restrictions_defined_of_leaves {leaves : List Leaf} {clauses : List Clause}
    (h : Condition.Expressed leaves clauses) (hleaves : ∀ leaf ∈ leaves, leaf.column ∈ t.layout.columns) :
    ∀ r ∈ Clause.restrictionsOf clauses, r.column ∈ t.schema.columns := by
  intro r hr
  have hmem := List.mem_map_of_mem (f := Restriction.column) hr
  rw [h.columns] at hmem
  obtain ⟨leaf, hleaf, heq⟩ := List.mem_map.1 hmem
  rw [← heq]
  exact mem_columns_schema (hleaves leaf hleaf)

theorem elementColumns_subset (t : KindTable) : t.layout.elementColumns ⊆ t.layout.columns :=
  fun c hc => (t.kind.roleOf_of_mem_elementColumns c hc).1

theorem orderings_of_orders {q : Query} {columns : List Column} (h : ∀ o ∈ q.orders, o.1 ∈ columns)
    (clauses : List Clause) :
    ∀ o ∈ (t.planner.selectOf q clauses).orderings, ∃ c ∈ columns, o.column = c.text := by
  intro o ho
  obtain ⟨order, horder, rfl⟩ := List.mem_map.1 ho
  exact ⟨order.1, h order horder, rfl⟩

theorem keyed_of_intact {rows : SortedMap (List String) Record}
    (hintact : Table.Intact ⟨t.schema, rows⟩) (key : List String) (row : Record)
    (hrow : rows.get? key = some row) :
    (t.layout.primaryKey.map fun c => row.get? c.text) = key.map some := by
  rw [← hintact.keyed key row hrow, primaryKey_schema, List.map_map]
  rfl

/-- The rows of an element are next to each other, if they are sorted by identity columns. -/
theorem grouped_ofRecord {rows : SortedMap (List String) Record}
    (hintact : Table.Intact ⟨t.schema, rows⟩) (hspans : t.layout.spansRows = true) {s : Select}
    (horderings : ∀ o ∈ s.orderings, ∃ c ∈ t.layout.elementColumns, o.column = c.text) :
    Grouped Element.identity ((Table.selectRecords ⟨t.schema, rows⟩ s).map t.layout.ofRecord) := by
  have hl : t.layout.PropertyRows := Kind.propertyRows_of_spansRows hspans
  have hidentity : ∀ o ∈ s.orderings, ∃ c ∈ t.layout.identity, o.column = c.text := by
    rwa [Layout.elementColumns, if_pos hspans] at horderings
  have hgrouped := Layout.grouped_selectRecords hl (t := ⟨t.schema, rows⟩) (keyed_of_intact hintact) hidentity
  apply Grouped.map
  intro a b c hsublist heq
  rw [Function.comp_apply, Function.comp_apply, Layout.identity_ofRecord_eq_iff hl] at heq ⊢
  exact hgrouped a b c hsublist heq

/-- More clauses leave out the elements of which their comparisons do not hold, and leave the others whole
    and in their order. -/
theorem read_append (h : t.Created session) {s : Select} (hs : s.table = t.name)
    (hlimit : s.limit = none) (hclauses : ∀ r ∈ s.restrictions, r.column ∈ t.schema.columns)
    (horderings : ∀ o ∈ s.orderings, ∃ c ∈ t.layout.elementColumns, o.column = c.text)
    {leaves : List Leaf} {more : List Clause} (hmore : Condition.Expressed leaves more)
    (hleaves : ∀ leaf ∈ leaves, leaf.column ∈ t.layout.elementColumns) :
    t.read session { s with clauses := s.clauses ++ more } =
      (t.read session s).map (List.filter fun e => leaves.all (·.holds e)) := by
  cases hclosed : session.closed with
  | true =>
    rw [read_of_closed hclosed, read_of_closed hclosed]
    rfl
  | false =>
    obtain ⟨rows, htable, hintact⟩ := h.exists_rows
    have hdefined : ∀ o ∈ s.orderings, o.column ∈ t.schema.columns := fun o ho =>
      columns_defined t.elementColumns_subset (horderings o ho)
    have hmoreDefined : ∀ r ∈ Clause.restrictionsOf more, r.column ∈ t.schema.columns :=
      restrictions_defined_of_leaves hmore fun leaf hleaf =>
        t.elementColumns_subset (hleaves leaf hleaf)
    have hall : ∀ r ∈ Select.restrictions { s with clauses := s.clauses ++ more },
        r.column ∈ t.schema.columns := by
      rw [Select.restrictions, Clause.restrictionsOf_append, List.forall_mem_append]
      exact ⟨hclauses, hmoreDefined⟩
    have hfilter : ((Table.selectRecords ⟨t.schema, rows⟩ s).filter (Table.satisfies more)).map
        t.layout.ofRecord = ((Table.selectRecords ⟨t.schema, rows⟩ s).map t.layout.ofRecord).filter
          fun e => leaves.all (·.holds e) := by
      rw [List.filter_map]
      congr 2
      funext row
      exact hmore.satisfies_eq hleaves row
    have hmany := read_eq_ok hclosed htable (s := { s with clauses := s.clauses ++ more }) hs hall
      hdefined
    rw [hmany, read_eq_ok hclosed htable hs hclauses hdefined, Table.selectRecords_append _ hlimit,
      hfilter, Layout.fold_filter fun hspans => grouped_ofRecord hintact hspans horderings]
    rfl

/-- On a created table a query with supported conditions gives those elements of the same query without
    conditions of which every comparison holds, whole and in the same order. Conditions and orders name
    columns of the elements. On an open session, the query without conditions gives elements. -/
theorem query_conditions {t : KindTable} {session : Session} (h : t.Created session) {q : Query}
    (hids : ∀ id ∈ q.ids, ∃ values, t.layout.idShape.values id = .ok values)
    (hsupported : ∀ c ∈ q.conditions, c.Supported)
    (hleaves : ∀ leaf ∈ q.conditions.flatMap Condition.leaves, leaf.column ∈ t.layout.elementColumns)
    (horders : ∀ o ∈ q.orders, o.1 ∈ t.layout.elementColumns) (hlimit : q.limit = none) :
    t.query session q = (t.query session { q with conditions := [] }).map
        (List.filter fun e => (q.conditions.flatMap Condition.leaves).all (·.holds e)) ∧
      (session.closed = false → q.kind = t.kind →
        ∃ elements, t.query session { q with conditions := [] } = .ok elements) := by
  obtain ⟨condition, hcondition, hexpressed⟩ := Condition.conjunction_of_supported hsupported
  obtain ⟨selections, hselections⟩ := t.planner.exists_selections hids
  have horderings (clauses : List Clause) := orderings_of_orders (t := t) horders clauses
  have hdefined : ∀ clauses ∈ selections,
      ∀ r ∈ (t.planner.selectOf q clauses).restrictions, r.column ∈ t.schema.columns := by
    intro clauses hclauses r hr
    have hidentity := Planner.column_of_mem_selections hselections hclauses r hr
    exact columns_defined (fun c hc => (t.kind.roleOf_of_mem_identity c hc).1) hidentity
  have hread : ∀ clauses ∈ selections,
      t.read session (t.planner.selectOf q (clauses ++ condition.toList)) =
        (t.read session (t.planner.selectOf q clauses)).map
          (List.filter fun e => (q.conditions.flatMap Condition.leaves).all (·.holds e)) := by
    intro clauses hclauses
    have hunlimited : (t.planner.selectOf q clauses).limit = none := by
      rw [Planner.selectOf, hlimit]
      rfl
    exact read_append h (s := t.planner.selectOf q clauses) rfl hunlimited (hdefined clauses hclauses)
      (horderings clauses) hexpressed hleaves
  by_cases hkind : q.kind = t.kind
  · have hplain : t.query session { q with conditions := [] } = (selections.mapM fun clauses =>
        t.read session (t.planner.selectOf q clauses)).map List.flatten := by
      have hnone : Condition.conjunction [] = .ok none := rfl
      have hquery := query_eq_mapM session (q := { q with conditions := [] }) hkind hnone hselections
      simp only [Option.toList_none, List.append_nil] at hquery
      exact hquery
    constructor
    · rw [query_eq_mapM session hkind hcondition hselections, mapM_map_result hread, hplain]
      cases selections.mapM fun clauses => t.read session (t.planner.selectOf q clauses) with
      | error e => rfl
      | ok elements => simp [Except.map, List.filter_flatten]
    · intro hopen _
      obtain ⟨rows, htable, _⟩ := h.exists_rows
      obtain ⟨elements, helements⟩ : ∃ elements, selections.mapM (fun clauses =>
          t.read session (t.planner.selectOf q clauses)) = .ok elements := by
        apply exists_mapM_eq_ok
        intro clauses hclauses
        exact ⟨_, read_eq_ok hopen htable rfl (hdefined clauses hclauses) fun o ho =>
          columns_defined t.elementColumns_subset (horderings clauses o ho)⟩
      exact ⟨elements.flatten, hplain.trans (congrArg (Except.map List.flatten) helements)⟩
  · constructor
    · rw [query, query, if_neg hkind, if_neg hkind]
      rfl
    · intro _ heq
      exact absurd heq hkind

/-- One of three people has a number of ten or more, and is given with both properties. A comparison of
    texts would have found another. -/
theorem query_conditions_people :
    let q : Query :=
      { kind := .vertex
        conditions := [.and (.relation .label .eq (.symbol "person"))
          (.relation .primaryValues .gt (.int 3)), .relation .primaryValues .gte (.int 10)]
        orders := [(.primaryValues, .desc)] }
    let cell (name value : String) : Property := ⟨.propertyKey, name, .propertyValue, value⟩
    people.Created .people ∧
      (people.query .people { q with conditions := [] }).map List.length = .ok 3 ∧
      people.query .people q = .ok [⟨.vertex, .ofList [(.label, "person"), (.primaryValues, "29")],
        [cell "city" "Oslo", cell "name" "vadas"]⟩] := by
  intro q cell
  have hids : ∀ id ∈ q.ids, ∃ values, people.layout.idShape.values id = .ok values := by simp [q]
  obtain ⟨hfilter, _⟩ := query_conditions created_people (q := q) hids (by decide) (by decide)
    (by decide) rfl
  refine ⟨created_people, by decide +kernel, ?_⟩
  rw [hfilter]
  decide +kernel

end KindTable

end GraphTables
