import GraphTables.Proofs.Graph.Scan
import GraphTables.Proofs.Layout.Runs
import GraphTables.Proofs.Schema.Creation
import GraphTables.Proofs.Store.Selection

namespace GraphTables

/-- The columns of the elements of a table: those of their identities if the elements may take several
    rows, all columns if not. -/
def Layout.elementColumns (l : Layout) : List Column :=
  if l.spansRows then l.identity else l.columns

/-- The texts that identify the element of a row. -/
def Layout.identityTexts (l : Layout) (row : Record) : List (Option String) :=
  l.identity.map fun c => row.get? c.text

/-- Whatever their order, equalities with the texts of an identity hold of the rows that have these texts in
    their identity columns. -/
theorem Layout.satisfies_identity_iff {l : Layout} {values : List String}
    (hlength : values.length = l.identity.length) {pairs : List (Column × String)}
    (hpairs : ∀ e, e ∈ pairs ↔ e ∈ l.identity.zip values) {row : Record} :
    Table.satisfies (Clause.equalities pairs) row = true ↔ l.identityTexts row = values.map some := by
  rw [Table.satisfies_equalities_iff, identityTexts,
    ← SortedMap.forall_mem_zip_iff hlength fun c => row.get? c.text]
  simp only [hpairs]

namespace Kind

theorem nodup_columns (k : Kind) : k.layout.columns.Nodup := by cases k <;> decide

private theorem valueColumn_mem_columns (k : Kind) : ∀ p ∈ k.layout.cell, p.2 ∈ k.layout.columns := by
  cases k <;> decide

theorem roleOf_of_mem_elementColumns (k : Kind) :
    ∀ c ∈ k.layout.elementColumns, c ∈ k.layout.columns ∧ k.layout.roleOf c = .scalar := by
  cases k <;> decide

/-- The columns of an element are the columns of any of its rows. -/
theorem get?_ofRecord (k : Kind) (row : Record) {c : Column} (hc : c ∈ k.layout.elementColumns) :
    (k.layout.ofRecord row).columns.get? c = row.get? c.text := by
  rw [Layout.get?_ofRecord k.nodup_columns, if_pos (k.roleOf_of_mem_elementColumns c hc)]

end Kind

namespace Layout

variable {l : Layout}

/-- Rows are of one element exactly if they agree on the identity columns. -/
theorem identity_ofRecord_eq_iff (hl : l.PropertyRows) {a b : Record} :
    (l.ofRecord a).identity = (l.ofRecord b).identity ↔ l.identityTexts a = l.identityTexts b := by
  rw [identityTexts, identityTexts, List.map_inj_left]
  constructor
  · intro h c hc
    have hget := congrArg (fun identity => identity.2.get? c) h
    simp only [Element.identity, get?_ofRecord hl.nodup, if_pos (hl.roleOf_identity hc)] at hget
    exact hget
  · intro h
    have hcolumns : (l.ofRecord a).columns = (l.ofRecord b).columns := by
      apply SortedMap.ext_get?
      intro c
      rw [get?_ofRecord hl.nodup, get?_ofRecord hl.nodup]
      split
      next hscalar =>
        exact h c (hl.mem_identity hscalar.1 hscalar.2)
      next => rfl
    exact Prod.ext rfl hcolumns

/-- The key of a row is its identity and the name of its property. -/
theorem identityTexts_of_keyed (hl : l.PropertyRows) {row : Record} {key : List String}
    (h : (l.primaryKey.map fun c => row.get? c.text) = key.map some) :
    ∃ id name, key = id ++ [name] ∧ l.identityTexts row = id.map some ∧
      row.get? Column.propertyKey.text = some name := by
  rw [hl.primaryKey, List.map_append, eq_comm, List.map_eq_append_iff] at h
  obtain ⟨id, names, rfl, hid, hnames⟩ := h
  obtain ⟨name, rest, rfl, hname, hrest⟩ := List.map_eq_cons_iff.1 hnames
  obtain rfl := List.map_eq_nil_iff.1 hrest
  exact ⟨id, name, rfl, hid.symm, hname.symm⟩

/-- The rows of a table lie in the order of their keys. -/
theorem pairwise_keyed {t : Table} (hkeyed : ∀ key row, t.rows.get? key = some row →
    (l.primaryKey.map fun c => row.get? c.text) = key.map some) :
    t.rows.values.Pairwise fun a b => ∃ key key' : List String,
      (l.primaryKey.map fun c => a.get? c.text) = key.map some ∧
        (l.primaryKey.map fun c => b.get? c.text) = key'.map some ∧ compare key key' = .lt := by
  rw [SortedMap.values, List.pairwise_map]
  apply t.rows.ascending.imp_of_mem
  intro e f he hf hlt
  exact ⟨e.1, f.1, hkeyed _ _ (SortedMap.get?_of_mem_entries he),
    hkeyed _ _ (SortedMap.get?_of_mem_entries hf), hlt⟩

/-- Rows of a table of properties, sorted by identity columns, have those of an element next to each
    other. -/
theorem grouped_selectRecords (hl : l.PropertyRows) {t : Table}
    (hkeyed : ∀ key row, t.rows.get? key = some row →
      (l.primaryKey.map fun c => row.get? c.text) = key.map some) {s : Select}
    (horderings : ∀ o ∈ s.orderings, ∃ c ∈ l.identity, o.column = c.text) :
    Grouped l.identityTexts (t.selectRecords s) := by
  -- A row between two rows of an element that is sorted like them stands between them in the table too.
  intro a b c hsublist hac
  have hsorted := (t.pairwise_selectRecords s (pairwise_keyed hkeyed)).sublist hsublist
  simp only [List.pairwise_cons, List.forall_mem_cons, List.Pairwise.nil] at hsorted
  obtain ⟨⟨⟨hab, hkeyab⟩, _⟩, ⟨⟨hbc, hkeybc⟩, _⟩, _⟩ := hsorted
  have hsame : ∀ o ∈ s.orderings, a.get? o.column = c.get? o.column := by
    intro o ho
    obtain ⟨column, hcolumn, heq⟩ := horderings o ho
    rw [heq]
    exact List.map_inj_left.1 hac column hcolumn
  obtain ⟨hleft, hright⟩ := compareBy_congr hsame b
  obtain ⟨ka, kb, hka, hkb, hltab⟩ := hkeyab (hright ▸ hbc)
  obtain ⟨kb', kc, hkb', hkc, hltbc⟩ := hkeybc (hleft ▸ hab)
  obtain ⟨ia, na, rfl, hia, _⟩ := identityTexts_of_keyed hl hka
  obtain ⟨ib, nb, rfl, hib, _⟩ := identityTexts_of_keyed hl hkb
  obtain ⟨ib', nb', rfl, hib', _⟩ := identityTexts_of_keyed hl hkb'
  obtain ⟨ic, nc, rfl, hic, _⟩ := identityTexts_of_keyed hl hkc
  have some_inj {xs ys : List String} (h : xs.map some = ys.map some) : xs = ys :=
    (List.map_inj_right fun _ _ => Option.some.inj).1 h
  obtain rfl : ib = ib' := some_inj (hib.symm.trans hib')
  obtain rfl : ia = ic := some_inj (hia.symm.trans (hac.trans hic))
  have hlength : ia.length = ib.length := by
    have hlengths := congrArg List.length hia
    have hlengths' := congrArg List.length hib
    simp only [identityTexts, List.length_map] at hlengths hlengths'
    rw [← hlengths, ← hlengths']
  rw [hia, hib, eq_of_compare_append hlength hltab hltbc]

end Layout

/-- Only vertices and edges may take several rows. -/
theorem Kind.propertyRows_of_spansRows {k : Kind} (h : k.layout.spansRows = true) :
    k.layout.PropertyRows := by
  apply propertyRows_layout
  revert h
  cases k <;> decide

/-- Rows are read as their elements, one each before folding. -/
theorem Layout.decodeAll_present (k : Kind) {t : Table}
    (hcolumns : t.schema.columns = k.layout.columns.map Column.text) (rows : List Record) :
    k.layout.decodeAll (rows.map t.present) =
      .ok (k.layout.fold (rows.map k.layout.ofRecord)) := by
  have hdecode : ∀ row ∈ rows, (k.layout.decode ∘ t.present) row = .ok (k.layout.ofRecord row) := by
    intro row _
    exact decode_present_ofRecord hcolumns (fun _ _ => k.valueColumn_mem_columns _) row
  rw [decodeAll, List.mapM_map, mapM_eq_ok_map hdecode]
  rfl

/-- A list of identifiers in a column holds of the rows that have one of them there. -/
theorem Table.satisfies_oneOf_iff {c : Column} {ids : List ElementId} {row : Record} :
    satisfies [.leaf (.oneOf c.text (ids.map fun id => .text id.text))] row = true ↔
      ∃ id ∈ ids, row.get? c.text = some id.text := by
  rw [satisfies, Clause.holdAll_eq_all]
  simp only [Clause.restrictionsOf, Clause.restrictions, List.append_nil, List.all_cons, List.all_nil,
    Bool.and_true, Restriction.holds, Restriction.column]
  cases row.get? c.text with
  | none => simp
  | some text => simp [Restriction.acceptsCell, Literal.compareCell]

namespace Planner

variable {p : Planner}

/-- The select of a query with given clauses. -/
def selectOf (p : Planner) (q : Query) (clauses : List Clause) : Select where
  table := p.table
  clauses := clauses
  orderings := q.orders.map fun o => ⟨o.1.text, o.2⟩
  limit := q.limit.map (scaledLimit p.fanOut)

theorem plan_eq (p : Planner) {q : Query} {condition : Option Clause}
    (h : Condition.conjunction q.conditions = .ok condition) :
    p.plan q = ((p.selections q.ids).mapError .element).map
      (List.map fun clauses => p.selectOf q (clauses ++ condition.toList)) := by
  rw [plan, h]
  cases p.selections q.ids <;> rfl

/-- Identifiers in a single column make one select. -/
theorem selections_of_single {ids : List ElementId} {c : Column} (hshape : p.shape.columns = [c])
    (hne : ids ≠ []) : p.selections ids = .ok [[.leaf (.oneOf c.text (ids.map fun id => .text id.text))]] := by
  obtain ⟨id, rest, rfl⟩ := List.exists_cons_of_ne_nil hne
  unfold selections
  rw [hshape]

/-- Identifiers in several columns make a select each. -/
theorem selections_of_several {α : Type} {xs : List α} {id : α → ElementId}
    {pairs : α → List (Column × String)} (hshape : p.shape.columns.length ≠ 1) (hne : xs ≠ [])
    (hpairs : ∀ x ∈ xs, p.shape.pairs (id x) = .ok (pairs x)) :
    p.selections (xs.map id) = .ok (xs.map fun x => Clause.equalities (pairs x)) := by
  have hclauses : ∀ x ∈ xs, (p.idClauses ∘ id) x = .ok (Clause.equalities (pairs x)) := by
    intro x hx
    rw [Function.comp_apply, idClauses, hpairs x hx]
    rfl
  rw [← mapM_eq_ok_map hclauses, ← List.mapM_map]
  obtain ⟨x, rest, rfl⟩ := List.exists_cons_of_ne_nil hne
  unfold selections
  rcases hcolumns : p.shape.columns with _ | ⟨c, _ | ⟨d, others⟩⟩
  · rfl
  · exact absurd (congrArg List.length hcolumns) hshape
  · rfl

end Planner

namespace KindTable

variable {t : KindTable} {session : Session}

theorem read_of_closed (hclosed : session.closed = true) (s : Select) :
    t.read session s = .error (.store .closed) := by
  rw [read, Session.select, if_pos hclosed]
  rfl

/-- Reading from the table of the kind gives the elements of the rows selected. -/
theorem read_eq_ok (hopen : session.closed = false) {rows : SortedMap (List String) Record}
    (htable : session.store.tables.get? (Text.lowercase t.name) = some ⟨t.schema, rows⟩)
    {s : Select} (hs : s.table = t.name) (hclauses : ∀ r ∈ s.restrictions, r.column ∈ t.schema.columns)
    (horderings : ∀ o ∈ s.orderings, o.column ∈ t.schema.columns) :
    t.read session s =
      .ok (t.layout.fold ((Table.selectRecords ⟨t.schema, rows⟩ s).map t.layout.ofRecord)) := by
  have hfound : session.store.table s.table = .ok ⟨t.schema, rows⟩ := by
    rw [hs]
    exact Store.table_eq_ok_iff.2 htable
  have hselect := Table.select_eq_ok (t := ⟨t.schema, rows⟩) hclauses horderings
  have hdecode := Layout.decodeAll_present t.kind (t := ⟨t.schema, rows⟩) rfl
    (Table.selectRecords ⟨t.schema, rows⟩ s)
  rw [read, Session.select_of_table hopen hfound, hselect]
  simp only [bind, Except.bind, mapError_ok, layout, hdecode]

/-- A query reads one select after the other. -/
theorem query_eq_mapM (session : Session) {q : Query} (hkind : q.kind = t.kind)
    {condition : Option Clause} (hcondition : Condition.conjunction q.conditions = .ok condition)
    {selections : List (List Clause)} (hselections : t.planner.selections q.ids = .ok selections) :
    t.query session q = (selections.mapM fun clauses =>
      t.read session (t.planner.selectOf q (clauses ++ condition.toList))).map List.flatten := by
  rw [query, if_pos hkind, Planner.plan_eq _ hcondition, hselections]
  simp only [mapError_ok, Except.map, bind, Except.bind, List.mapM_map, Function.comp_def]

/-- A query without conditions, orders and limit gives the elements of one select after those of
    another. -/
theorem query_of_reads {ids : List ElementId} {offset : UInt64} {α : Type} {xs : List α}
    {clauses : α → List Clause} {found : α → List Element}
    (hselections : t.planner.selections ids = .ok (xs.map clauses))
    (hread : ∀ x ∈ xs, t.read session { table := t.name, clauses := clauses x } = .ok (found x)) :
    t.query session { kind := t.kind, ids, offset } = .ok (xs.flatMap found) := by
  have hnone : Condition.conjunction [] = .ok none := rfl
  have hall : (xs.map clauses).mapM (fun clauses => t.read session { table := t.name, clauses }) =
      .ok (xs.map found) := by
    rw [List.mapM_map]
    exact mapM_eq_ok_map hread
  have hquery := query_eq_mapM session (q := { kind := t.kind, ids, offset }) rfl hnone
    hselections
  simp only [Option.toList_none, List.append_nil] at hquery
  exact hquery.trans (congrArg (Except.map List.flatten) hall)

end KindTable

end GraphTables
