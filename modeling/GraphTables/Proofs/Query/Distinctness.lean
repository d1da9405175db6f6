import GraphTables.Proofs.Query.Outcome

namespace GraphTables

/-- The property in a row of a vertex or an edge. -/
def Record.property (row : Record) : Property :=
  ⟨.propertyKey, (row.get? Column.propertyKey.text).getD "", .propertyValue,
    (row.get? Column.propertyValue.text).getD ""⟩

/-- The texts that identify an element. -/
def Layout.identityOf (l : Layout) (e : Element) : List (Option String) :=
  l.identity.map e.columns.get?

namespace Query

/-- All comparisons of the query hold of a row. -/
def accepts (q : Query) (row : Record) : Bool :=
  (q.conditions.flatMap Condition.leaves).all fun leaf => leaf.accepts (row.get? leaf.column.text)

/-- The query asks for the element of an identity, or for all. -/
def AsksFor (q : Query) (identity : List (Option String)) : Prop :=
  q.ids = [] ∨ ∃ id ∈ q.ids, identity = id.parts.map some

end Query

/-- The rows of one element that a query accepts, in the order of their keys. -/
def KindTable.rowsOf (t : KindTable) (q : Query) (table : Table) (identity : List (Option String)) :
    List Record :=
  table.rows.values.filter fun row => q.accepts row && t.layout.identityTexts row = identity

private theorem KindTable.mem_rowsOf_iff {t : KindTable} {q : Query} {table : Table}
    {identity : List (Option String)} {row : Record} :
    row ∈ t.rowsOf q table identity ↔
      row ∈ table.rows.values ∧ q.accepts row = true ∧ t.layout.identityTexts row = identity := by
  rw [rowsOf, List.mem_filter, Bool.and_eq_true, decide_eq_true_iff]

namespace Layout

variable {l : Layout}

private theorem identityOf_eq (hl : l.PropertyRows) {e : Element} {row : Record}
    (h : (l.ofRecord row).identity = e.identity) : l.identityOf e = l.identityTexts row := by
  have hcolumns : (l.ofRecord row).columns = e.columns := congrArg Prod.snd h
  rw [identityOf, ← hcolumns, identityTexts, List.map_inj_left]
  intro c hc
  rw [get?_ofRecord hl.nodup, if_pos (hl.roleOf_identity hc)]

end Layout

namespace KindTable

variable {t : KindTable} {ids : List ElementId} {selections : List (List Clause)}

/-- The clauses of a selection do not tell rows of one element apart. -/
theorem satisfies_congr (hselections : t.planner.selections ids = .ok selections)
    {clauses : List Clause} (hclauses : clauses ∈ selections) {a b : Record}
    (h : t.layout.identityTexts a = t.layout.identityTexts b) :
    Table.satisfies clauses a = Table.satisfies clauses b := by
  rw [Table.satisfies, Table.satisfies, Clause.holdAll_eq_all, Clause.holdAll_eq_all,
    Bool.eq_iff_iff, List.all_eq_true, List.all_eq_true]
  refine forall₂_congr fun r hr => ?_
  obtain ⟨c, hc, hcolumn⟩ := Planner.column_of_mem_selections hselections hclauses r hr
  have hcell : a.get? c.text = b.get? c.text := List.map_inj_left.1 h c hc
  rw [Restriction.holds, Restriction.holds, hcolumn, hcell]

private theorem length_parts_of_fits (hseveral : t.layout.identity.length ≠ 1) {id : ElementId}
    (h : t.layout.idShape.Fits id) : id.parts.length = t.layout.identity.length :=
  h.resolve_left hseveral

private theorem satisfies_id_iff (hl : t.layout.PropertyRows) {id : ElementId}
    (hfits : t.layout.idShape.Fits id) {row : Record} :
    Table.satisfies (Clause.equalities (t.layout.identity.zip id.parts)) row = true ↔
      t.layout.identityTexts row = id.parts.map some :=
  Layout.satisfies_identity_iff (length_parts_of_fits hl.several hfits) fun _ => Iff.rfl

/-- The rows that some selection of a query takes are those of the elements asked for. -/
theorem exists_satisfies_iff (hl : t.layout.PropertyRows) {q : Query}
    (hfits : ∀ id ∈ q.ids, t.layout.idShape.Fits id)
    (hselections : t.planner.selections q.ids = .ok selections) {row : Record} :
    (∃ clauses ∈ selections, Table.satisfies clauses row = true) ↔
      q.AsksFor (t.layout.identityTexts row) := by
  by_cases hne : q.ids = []
  · rw [hne] at hselections
    cases hselections
    simp [Query.AsksFor, hne, Table.satisfies, Clause.holdAll]
  · rw [Planner.selections_of_fits (p := t.planner) hl.several hne hfits] at hselections
    cases hselections
    simp only [Query.AsksFor, or_iff_right hne, List.mem_map, exists_exists_and_eq_and]
    refine exists_congr fun id => and_congr_right fun hid => ?_
    exact satisfies_id_iff hl (hfits id hid)

/-- No element has rows in two selections for different identifiers. -/
theorem pairwise_selections (hl : t.layout.PropertyRows)
    (hfits : ∀ id ∈ ids, t.layout.idShape.Fits id) (hdistinct : (ids.map ElementId.parts).Nodup)
    (hselections : t.planner.selections ids = .ok selections) :
    selections.Pairwise fun c d => ∀ a b, Table.satisfies c a = true → Table.satisfies d b = true →
      t.layout.identityTexts a ≠ t.layout.identityTexts b := by
  by_cases hne : ids = []
  · rw [hne] at hselections
    cases hselections
    exact List.pairwise_singleton _ _
  · rw [Planner.selections_of_fits (p := t.planner) hl.several hne hfits] at hselections
    cases hselections
    rw [List.pairwise_map]
    rw [List.Nodup, List.pairwise_map] at hdistinct
    apply hdistinct.imp_of_mem
    intro i j hi hj hparts a b ha hb heq
    have ha := (satisfies_id_iff hl (hfits i hi)).1 ha
    have hb := (satisfies_id_iff hl (hfits j hj)).1 hb
    rw [ha, hb] at heq
    exact hparts ((List.map_inj_right fun _ _ => Option.some.inj).1 heq)

private theorem found_eq_foldRuns (hl : t.layout.PropertyRows) (q : Query) (table : Table)
    (clauses : List Clause) : t.found q table clauses = Layout.foldRuns
      ((table.selectRecords (t.planner.selectOf q clauses)).map t.layout.ofRecord) := by
  rw [found, Layout.fold, if_pos hl.spansRows]

section Intact

variable {rows : SortedMap (List String) Record} (hl : t.layout.PropertyRows)
  (hintact : Table.Intact ⟨t.schema, rows⟩)

include hl hintact

/-- Every row of the table is read as its property. -/
theorem cells_of_mem_values {row : Record} (hrow : row ∈ rows.values) :
    (t.layout.ofRecord row).cells = [row.property] := by
  obtain ⟨⟨key, row⟩, hentry, rfl⟩ := List.mem_map.1 hrow
  have hkeyed := keyed_of_intact hintact key row (SortedMap.get?_of_mem_entries hentry)
  obtain ⟨id, name, _, _, hname⟩ := Layout.identityTexts_of_keyed hl hkeyed
  rw [Layout.cells_ofRecord hl hname, Record.property, hname]
  rfl

/-- The properties of rows of one element ascend by their names. -/
theorem pairwise_name :
    rows.values.Pairwise fun a b => t.layout.identityTexts a = t.layout.identityTexts b →
      a.property.name < b.property.name := by
  apply (Layout.pairwise_keyed (t := ⟨t.schema, rows⟩) (keyed_of_intact hintact)).imp
  rintro a b ⟨keyA, keyB, ha, hb, hlt⟩ heq
  obtain ⟨id, name, rfl, hid, hname⟩ := Layout.identityTexts_of_keyed hl ha
  obtain ⟨id', name', rfl, hid', hname'⟩ := Layout.identityTexts_of_keyed hl hb
  obtain rfl : id = id' := (List.map_inj_right fun _ _ => Option.some.inj).1 (by rw [← hid, heq, hid'])
  have hself : compare id id = .eq := Std.ReflCmp.compare_self
  rw [compare_append_singleton rfl, hself] at hlt
  rw [Record.property, Record.property, hname, hname']
  exact (compare_text_eq_lt_iff _ _).1 hlt

private theorem pairwise_rowsOf (q : Query) (identity : List (Option String)) :
    ((t.rowsOf q ⟨t.schema, rows⟩ identity).map Record.property).Pairwise fun a b =>
      a.name < b.name := by
  rw [List.pairwise_map]
  apply ((pairwise_name hl hintact).filter _).imp_of_mem
  intro a b ha hb hlt
  change a ∈ t.rowsOf q ⟨t.schema, rows⟩ identity at ha
  change b ∈ t.rowsOf q ⟨t.schema, rows⟩ identity at hb
  exact hlt ((mem_rowsOf_iff.1 ha).2.2.trans (mem_rowsOf_iff.1 hb).2.2.symm)

section Ordered

variable {q : Query} {clauses : List Clause} {e : Element}
  (horders : ∀ o ∈ q.orders, o.1 ∈ t.layout.identity)

include horders

private theorem grouped_found (clauses : List Clause) :
    Grouped Element.identity ((Table.selectRecords ⟨t.schema, rows⟩
      (t.planner.selectOf q clauses)).map t.layout.ofRecord) := by
  apply grouped_ofRecord hintact hl.spansRows
  rw [Layout.elementColumns, if_pos hl.spansRows]
  exact orderings_of_orders horders clauses

private theorem exists_mem_found_iff {identity : Kind × SortedMap Column String} :
    (∃ e ∈ t.found q ⟨t.schema, rows⟩ clauses, e.identity = identity) ↔
      ∃ row ∈ Table.selectRecords ⟨t.schema, rows⟩ (t.planner.selectOf q clauses),
        (t.layout.ofRecord row).identity = identity := by
  rw [found_eq_foldRuns hl,
    Layout.exists_mem_foldRuns_iff (grouped_found hl hintact horders clauses)]
  simp only [List.mem_map, exists_exists_and_eq_and]

/-- An element that is found has a row that the select is about. -/
theorem exists_row_of_mem_found (he : e ∈ t.found q ⟨t.schema, rows⟩ clauses) :
    ∃ row ∈ rows.values, Table.satisfies clauses row = true ∧
      (t.layout.ofRecord row).identity = e.identity := by
  obtain ⟨row, hrow, hidentity⟩ := (exists_mem_found_iff hl hintact horders).1 ⟨e, he, rfl⟩
  obtain ⟨hstored, hsatisfies⟩ := Table.mem_of_mem_selectRecords hrow
  exact ⟨row, hstored, hsatisfies, hidentity⟩

/-- No select finds an element twice. -/
theorem pairwise_found (clauses : List Clause) :
    (t.found q ⟨t.schema, rows⟩ clauses).Pairwise fun e f =>
      t.layout.identityOf e ≠ t.layout.identityOf f := by
  have hdistinct := Layout.pairwise_foldRuns (grouped_found hl hintact horders clauses)
  rw [← found_eq_foldRuns hl] at hdistinct
  apply hdistinct.imp_of_mem
  intro e f he hf hne heq
  obtain ⟨a, _, _, ha⟩ := exists_row_of_mem_found hl hintact horders he
  obtain ⟨b, _, _, hb⟩ := exists_row_of_mem_found hl hintact horders hf
  rw [Layout.identityOf_eq hl ha, Layout.identityOf_eq hl hb,
    ← Layout.identity_ofRecord_eq_iff hl, ha, hb] at heq
  exact hne heq

omit hl hintact in
/-- The selected rows of one element are in key order: the orderings are of identity columns. -/
theorem filter_selectRecords_identity (hlimit : q.limit = none) (identity : List (Option String)) :
    (Table.selectRecords ⟨t.schema, rows⟩ (t.planner.selectOf q clauses)).filter
        (fun row => t.layout.identityTexts row = identity) =
      rows.values.filter fun row =>
        Table.satisfies clauses row && t.layout.identityTexts row = identity := by
  have hunlimited : (t.planner.selectOf q clauses).limit = none := congrArg (Option.map _) hlimit
  rw [Table.filter_selectRecords _ hunlimited, List.filter_filter]
  · simp only [Bool.and_comm]
    rfl
  · intro a b ha hb o ho
    obtain ⟨c, hc, hcolumn⟩ := orderings_of_orders horders clauses o ho
    have hsame := (of_decide_eq_true ha).trans (of_decide_eq_true hb).symm
    rw [hcolumn]
    exact List.map_inj_left.1 hsame c hc

/-- Without a limit an element is found with the properties of all its rows that satisfy the select. -/
theorem cells_of_mem_found (hlimit : q.limit = none) (he : e ∈ t.found q ⟨t.schema, rows⟩ clauses) :
    e.cells = (rows.values.filter fun row => Table.satisfies clauses row &&
      t.layout.identityTexts row = t.layout.identityOf e).map Record.property := by
  obtain ⟨row, _, _, hrow⟩ := exists_row_of_mem_found hl hintact horders he
  have hidentity := Layout.identityOf_eq hl hrow
  have hsame : (fun f => decide (f.identity = e.identity)) ∘ t.layout.ofRecord =
      fun row => decide (t.layout.identityTexts row = t.layout.identityOf e) := by
    funext other
    rw [Function.comp_apply, ← hrow, hidentity]
    exact decide_eq_decide.2 (Layout.identity_ofRecord_eq_iff hl)
  rw [found_eq_foldRuns hl] at he
  rw [Layout.cells_of_mem_foldRuns (grouped_found hl hintact horders clauses) he, List.filter_map,
    hsame, filter_selectRecords_identity horders hlimit, List.flatMap_map, List.map_eq_flatMap]
  apply List.flatMap_congr
  intro other hother
  exact cells_of_mem_values hl hintact (List.mem_filter.1 hother).1

section Selections

variable {condition : List Clause}
  (hexpressed : Condition.Expressed (q.conditions.flatMap Condition.leaves) condition)

include hexpressed

omit hl hintact horders in
theorem satisfies_select (clauses : List Clause) (row : Record) :
    Table.satisfies (clauses ++ condition) row = (Table.satisfies clauses row && q.accepts row) := by
  rw [Table.satisfies_append, Query.accepts, ← hexpressed.holds]
  rfl

/-- An element that is found has the properties of all its rows that the query accepts. -/
theorem cells_eq_rowsOf (hlimit : q.limit = none)
    (hselections : t.planner.selections q.ids = .ok selections) (hclauses : clauses ∈ selections)
    (he : e ∈ t.found q ⟨t.schema, rows⟩ (clauses ++ condition)) :
    e.cells = (t.rowsOf q ⟨t.schema, rows⟩ (t.layout.identityOf e)).map Record.property := by
  obtain ⟨row, _, hsatisfies, hrow⟩ := exists_row_of_mem_found hl hintact horders he
  rw [satisfies_select hexpressed, Bool.and_eq_true] at hsatisfies
  rw [cells_of_mem_found hl hintact horders hlimit he, rowsOf]
  congr 1
  apply List.filter_congr
  intro other _
  by_cases hother : t.layout.identityTexts other = t.layout.identityOf e
  · have hcongr := satisfies_congr hselections hclauses
      (hother.trans (Layout.identityOf_eq hl hrow))
    rw [satisfies_select hexpressed, hcongr, hsatisfies.1, Bool.true_and]
  · simp [hother]

/-- The selects of a query find no element twice. -/
theorem nodup_found (hdistinct : selections.Pairwise fun c d => ∀ a b,
      Table.satisfies c a = true → Table.satisfies d b = true →
        t.layout.identityTexts a ≠ t.layout.identityTexts b) :
    ((selections.flatMap fun clauses => t.found q ⟨t.schema, rows⟩ (clauses ++ condition)).map
      t.layout.identityOf).Nodup := by
  rw [List.Nodup, List.pairwise_map, List.pairwise_flatMap]
  refine ⟨fun clauses _ => pairwise_found hl hintact horders _, hdistinct.imp ?_⟩
  intro c d hcd e he f hf heq
  obtain ⟨a, _, ha, hrowA⟩ := exists_row_of_mem_found hl hintact horders he
  obtain ⟨b, _, hb, hrowB⟩ := exists_row_of_mem_found hl hintact horders hf
  rw [satisfies_select hexpressed, Bool.and_eq_true] at ha hb
  rw [Layout.identityOf_eq hl hrowA, Layout.identityOf_eq hl hrowB] at heq
  exact hcd a b ha.1 hb.1 heq

/-- Without a limit, the selects of a query find the elements that it asks for and accepts a row of. -/
theorem mem_identityOf_found_iff (hlimit : q.limit = none)
    (hfits : ∀ id ∈ q.ids, t.layout.idShape.Fits id)
    (hselections : t.planner.selections q.ids = .ok selections) {identity : List (Option String)} :
    identity ∈ (selections.flatMap fun clauses =>
        t.found q ⟨t.schema, rows⟩ (clauses ++ condition)).map t.layout.identityOf ↔
      q.AsksFor identity ∧ t.rowsOf q ⟨t.schema, rows⟩ identity ≠ [] := by
  rw [List.mem_map]
  constructor
  · rintro ⟨e, he, rfl⟩
    obtain ⟨clauses, hclauses, he⟩ := List.mem_flatMap.1 he
    obtain ⟨row, hrow, hsatisfies, hidentity⟩ := exists_row_of_mem_found hl hintact horders he
    rw [satisfies_select hexpressed, Bool.and_eq_true] at hsatisfies
    rw [Layout.identityOf_eq hl hidentity]
    constructor
    · exact (exists_satisfies_iff hl hfits hselections).1 ⟨clauses, hclauses, hsatisfies.1⟩
    · exact List.ne_nil_of_mem (mem_rowsOf_iff.2 ⟨hrow, hsatisfies.2, rfl⟩)
  · rintro ⟨hasked, hrows⟩
    obtain ⟨row, hrow⟩ := List.exists_mem_of_ne_nil _ hrows
    obtain ⟨hstored, haccepts, rfl⟩ := mem_rowsOf_iff.1 hrow
    obtain ⟨clauses, hclauses, hsatisfies⟩ := (exists_satisfies_iff hl hfits hselections).2 hasked
    have hunlimited : (t.planner.selectOf q (clauses ++ condition)).limit = none :=
      congrArg (Option.map _) hlimit
    have hselects : Table.satisfies (clauses ++ condition) row = true := by
      rw [satisfies_select hexpressed, hsatisfies, haccepts, Bool.and_self]
    have hselected := Table.mem_selectRecords ⟨t.schema, rows⟩ hunlimited hstored hselects
    obtain ⟨e, he, hidentity⟩ :=
      (exists_mem_found_iff hl hintact horders).2 ⟨row, hselected, rfl⟩
    exact ⟨e, List.mem_flatMap.2 ⟨clauses, hclauses, he⟩, Layout.identityOf_eq hl hidentity.symm⟩

end Selections

end Ordered

end Intact

/-- No vertex or edge is split or repeated by a query on a created table. The query is ordered by
    identity columns, and its identifiers have different parts. The elements it gives have different
    identities, with or without a limit. Without one, they are the elements asked for that have a row
    which the query accepts, each with exactly the properties in all such rows of it, in ascending order
    of their keys. On an open session a query without faults gives elements. -/
theorem query_distinct {t : KindTable} {session : Session}
    (hkind : t.kind = .vertex ∨ t.kind = .edge) (h : t.Created session) {q : Query}
    (hdistinct : (q.ids.map ElementId.parts).Nodup)
    (horders : ∀ o ∈ q.orders, o.1 ∈ t.layout.identity) :
    (session.closed = false → q.kind = t.kind → (∀ id ∈ q.ids, t.layout.idShape.Fits id) →
        (∀ c ∈ q.conditions, c.Supported) →
        (∀ leaf ∈ q.conditions.flatMap Condition.leaves, leaf.column ∈ t.layout.columns) →
        ∃ elements, t.query session q = .ok elements) ∧
      ∀ elements, t.query session q = .ok elements →
        (elements.map t.layout.identityOf).Nodup ∧
        (q.limit = none → ∃ table, session.store.table t.name = .ok table ∧
          (∀ e ∈ elements,
            e.cells = (t.rowsOf q table (t.layout.identityOf e)).map Record.property ∧
            e.cells.Pairwise fun a b => a.name < b.name) ∧
          ∀ identity, identity ∈ elements.map t.layout.identityOf ↔
            q.AsksFor identity ∧ t.rowsOf q table identity ≠ []) := by
  have hl : t.layout.PropertyRows := Kind.propertyRows_layout hkind
  constructor
  · intro hopen hqueried hfits hsupported hleaves
    have hcolumns : ∀ c ∈ q.columns, c ∈ t.layout.columns := by
      rw [Query.columns, List.forall_mem_append, List.forall_mem_map, List.forall_mem_map]
      exact ⟨hleaves, fun o ho => (hl.roleOf_identity (horders o ho)).1⟩
    exact (exists_query_iff h).2 (fault?_eq_none_iff.2 ⟨hqueried,
      Query.unsupported?_eq_none_iff.2 hsupported, IdShape.misfit?_eq_none_iff.2 hfits, hopen,
      Query.undefined?_eq_none_iff.2 hcolumns⟩)
  · intro elements helements
    have hfault := (exists_query_iff h).1 ⟨elements, helements⟩
    have hfits := IdShape.misfit?_eq_none_iff.1 (fault?_eq_none_iff.1 hfault).2.2.1
    obtain ⟨rows, condition, selections, htable, hintact, hexpressed, hselections, hfound⟩ :=
      query_of_no_fault h hfault
    obtain rfl := Except.ok.inj (helements.symm.trans hfound)
    refine ⟨nodup_found hl hintact horders hexpressed
      (pairwise_selections hl hfits hdistinct hselections), fun hlimit => ?_⟩
    refine ⟨⟨t.schema, rows⟩, htable, fun e he => ?_, fun identity =>
      mem_identityOf_found_iff hl hintact horders hexpressed hlimit hfits hselections⟩
    obtain ⟨clauses, hclauses, he⟩ := List.mem_flatMap.1 he
    have hcells := cells_eq_rowsOf hl hintact horders hexpressed hlimit hselections hclauses he
    rw [hcells]
    exact ⟨rfl, pairwise_rowsOf hl hintact q _⟩

/-- Of two people asked for, each is found once, with the one property that the condition leaves. -/
theorem query_distinct_people :
    let q : Query :=
      { kind := .vertex
        ids := [.composite ["person", "4"], .composite ["person", "29"]]
        conditions := [.relation .propertyKey .lt (.text "name")]
        orders := [(.primaryValues, .desc)] }
    let cell (name value : String) : Property := ⟨.propertyKey, name, .propertyValue, value⟩
    people.Created .people ∧ ∃ elements, people.query .people q = .ok elements ∧
      (elements.map people.layout.identityOf).Nodup ∧
      elements.map Element.cells = [[cell "city" "Bonn"], [cell "city" "Oslo"]] := by
  intro q cell
  obtain ⟨hgives, hdistinct⟩ :=
    query_distinct (.inl rfl) created_people (q := q) (by decide +kernel) (by decide)
  obtain ⟨elements, helements⟩ :=
    hgives rfl rfl (by decide +kernel) (by decide) (by decide)
  obtain ⟨hnodup, _⟩ := hdistinct elements helements
  have hcells : (people.query .people q).map (List.map Element.cells) =
      .ok [[cell "city" "Bonn"], [cell "city" "Oslo"]] := by decide +kernel
  rw [helements] at hcells
  exact ⟨created_people, elements, helements, hnodup, Except.ok.inj hcells⟩

end KindTable

end GraphTables
