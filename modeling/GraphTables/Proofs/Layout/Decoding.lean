import GraphTables.Layout.Decoding
import GraphTables.Proofs.Except
import GraphTables.Proofs.SortedMap
import GraphTables.Store.Table

namespace GraphTables

/-- A returned row has the text of a column under its name, if no other column has that name in another
    case. -/
theorem ResultRow.get?_map {columns : List String} {column : String} (hcolumn : column ∈ columns)
    (hdistinct : ∀ d ∈ columns, Text.sameIgnoringCase d column = true → d = column)
    (cell? : String → Option String) :
    (ResultRow.mk (columns.map fun d => (d, cell? d))).get? column = cell? column := by
  unfold get?
  induction columns with
  | nil => cases hcolumn
  | cons d rest ih =>
    rw [List.forall_mem_cons] at hdistinct
    rw [List.map_cons, List.find?_cons]
    cases hsame : Text.sameIgnoringCase d column with
    | true =>
      rw [hdistinct.1 hsame]
      rfl
    | false =>
      refine ih ((List.mem_cons.1 hcolumn).resolve_left ?_) hdistinct.2
      rintro rfl
      rw [Text.sameIgnoringCase_self] at hsame
      cases hsame

private theorem ResultRow.get?_map_text {columns : List Column} {c : Column} (hc : c ∈ columns)
    (cell? : String → Option String) :
    (ResultRow.mk (columns.map fun d => (d.text, cell? d.text))).get? c.text = cell? c.text := by
  have hcolumns : (columns.map fun d => (d.text, cell? d.text)) =
      (columns.map Column.text).map fun name => (name, cell? name) := by
    rw [List.map_map]
    rfl
  rw [hcolumns]
  apply get?_map (List.mem_map_of_mem hc)
  rw [List.forall_mem_map]
  exact fun d _ hsame => congrArg Column.text (Column.eq_of_sameIgnoringCase hsame)

namespace Layout

/-- A column of the table has the name, in some case of letters. -/
def Knows (l : Layout) (name : String) : Prop :=
  ∃ c ∈ l.columns, Text.sameIgnoringCase c.text name = true

private theorem classify_eq_ok_iff {l : Layout} {name : String} {c : Column} {role : Role} :
    l.classify name = .ok (c, role) ↔
      Column.ofText? name = some c ∧ c ∈ l.columns ∧ l.roleOf c = role := by
  rw [classify, bind_eq_ok_iff]
  unfold Column.ofText
  cases Column.ofText? name with
  | none => simp
  | some d =>
    simp only [Except.ok.injEq, exists_eq_left', Option.some.injEq]
    split
    next hd =>
      rw [Except.ok.injEq, Prod.mk.injEq]
      constructor
      · rintro ⟨rfl, hrole⟩
        exact ⟨rfl, hd, hrole⟩
      · rintro ⟨rfl, _, hrole⟩
        exact ⟨rfl, hrole⟩
    next hd =>
      constructor
      · intro h
        cases h
      · rintro ⟨rfl, hmem, _⟩
        exact absurd hmem hd

private theorem knows_iff {l : Layout} {name : String} :
    l.Knows name ↔ ∃ c, l.classify name = .ok (c, l.roleOf c) := by
  simp only [Knows, classify_eq_ok_iff, Column.ofText?_eq_some_iff, and_true]
  simp only [and_comm]

theorem roleOf_eq_cellName_iff {l : Layout} {c valueColumn : Column} :
    l.roleOf c = .cellName valueColumn ↔ l.cell = some (c, valueColumn) := by
  unfold roleOf
  cases l.cell with
  | none => simp
  | some cell =>
    obtain ⟨nameColumn, value⟩ := cell
    dsimp only
    by_cases hname : c = nameColumn
    · simp [hname]
    · rw [if_neg hname]
      split <;> simp [Ne.symm hname]

/-- The cell of a row as a column of the element, if it is set and holds no property. -/
def scalarOfCell (l : Layout) (cell : String × Option String) : Option (Column × String) :=
  (Column.ofText? cell.1).bind fun c =>
    match l.roleOf c with
    | .scalar => cell.2.map (c, ·)
    | .cellName _ | .cellValue => none

/-- The property whose key is in a cell of a row, if it is set there. -/
def propertyOfCell (l : Layout) (row : ResultRow) (cell : String × Option String) : Option Property :=
  (Column.ofText? cell.1).bind fun c =>
    match l.roleOf c with
    | .cellName valueColumn => cell.2.map fun name =>
        ⟨c, name, valueColumn, (row.get? valueColumn.text).getD ""⟩
    | .scalar | .cellValue => none

/-- The element that a row is read as, if the table has all its columns. -/
def ofRow (l : Layout) (row : ResultRow) : Element where
  kind := l.kind
  columns := .ofList (row.cells.filterMap l.scalarOfCell)
  cells := row.cells.filterMap (l.propertyOfCell row)

/-- A cell adds to the element what it holds. -/
theorem addCell_of_classify {l : Layout} {cell : String × Option String} {c : Column}
    (h : l.classify cell.1 = .ok (c, l.roleOf c)) (row : ResultRow) (e : Element) :
    l.addCell row e cell =
      .ok { e with
        columns := e.columns.insertAll (l.scalarOfCell cell).toList
        cells := e.cells ++ (l.propertyOfCell row cell).toList } := by
  rw [addCell, h]
  simp only [bind, Except.bind, scalarOfCell, propertyOfCell, (classify_eq_ok_iff.1 h).1, Option.bind]
  cases l.roleOf c <;> cases cell.2 <;> simp [SortedMap.insertAll]

private theorem foldlM_addCell {l : Layout} {cells : List (String × Option String)}
    (hknown : ∀ cell ∈ cells, l.Knows cell.1) (row : ResultRow) (e : Element) :
    cells.foldlM (l.addCell row) e =
      .ok { e with
        columns := e.columns.insertAll (cells.filterMap l.scalarOfCell)
        cells := e.cells ++ cells.filterMap (l.propertyOfCell row) } := by
  induction cells generalizing e with
  | nil => simp [SortedMap.insertAll, pure, Except.pure]
  | cons cell rest ih =>
    rw [List.forall_mem_cons] at hknown
    obtain ⟨c, hc⟩ := knows_iff.1 hknown.1
    have hsplit : ∀ {β : Type} (f : String × Option String → Option β),
        (cell :: rest).filterMap f = (f cell).toList ++ rest.filterMap f := by
      intro β f
      rw [List.filterMap_cons]
      cases f cell <;> rfl
    rw [List.foldlM_cons, addCell_of_classify hc]
    simp only [bind, Except.bind, ih hknown.2]
    rw [hsplit, hsplit, List.append_assoc, SortedMap.insertAll, SortedMap.insertAll,
      SortedMap.insertAll, List.foldl_append]

/-- A row is read exactly if the table has all its columns, set or not. -/
theorem decode_eq_ok_iff {l : Layout} {row : ResultRow} {e : Element} :
    l.decode row = .ok e ↔ (∀ cell ∈ row.cells, l.Knows cell.1) ∧ l.ofRow row = e := by
  constructor
  · intro h
    have hknown : ∀ cell ∈ row.cells, l.Knows cell.1 := by
      intro cell hcell
      obtain ⟨before, after, hadd⟩ := exists_of_mem_foldlM h cell hcell
      obtain ⟨⟨c, role⟩, hclassify, _⟩ := bind_eq_ok_iff.1 hadd
      obtain ⟨hcolumn, hmem, _⟩ := classify_eq_ok_iff.1 hclassify
      exact ⟨c, hmem, Column.ofText?_eq_some_iff.1 hcolumn⟩
    rw [decode, foldlM_addCell hknown] at h
    exact ⟨hknown, Except.ok.inj h⟩
  · rintro ⟨hknown, rfl⟩
    rw [decode, foldlM_addCell hknown]
    rfl

/-- The cell of a column as a column of the element, if it is set and holds no property. -/
def scalarOf (l : Layout) (row : Record) (c : Column) : Option (Column × String) :=
  match l.roleOf c with
  | .scalar => (row.get? c.text).map (c, ·)
  | .cellName _ | .cellValue => none

/-- The property whose key is in a column, if it is set there. -/
def propertyOf (l : Layout) (row : Record) (c : Column) : Option Property :=
  match l.roleOf c with
  | .cellName valueColumn => (row.get? c.text).map fun name =>
      ⟨c, name, valueColumn, (row.get? valueColumn.text).getD ""⟩
  | .scalar | .cellValue => none

/-- The element that a stored row is read as. -/
def ofRecord (l : Layout) (row : Record) : Element where
  kind := l.kind
  columns := .ofList (l.columns.filterMap (l.scalarOf row))
  cells := l.columns.filterMap (l.propertyOf row)

/-- A stored row, as it is returned, is read as its element. -/
theorem decode_present_ofRecord {l : Layout} {t : Table}
    (hcolumns : t.schema.columns = l.columns.map Column.text)
    (hcell : ∀ nameColumn valueColumn, l.cell = some (nameColumn, valueColumn) →
      valueColumn ∈ l.columns) (row : Record) :
    l.decode (t.present row) = .ok (l.ofRecord row) := by
  have hpresent : t.present row = ⟨l.columns.map fun c => (c.text, row.get? c.text)⟩ := by
    rw [Table.present, hcolumns, List.map_map]
    rfl
  have hcells : (t.present row).cells = l.columns.map fun c => (c.text, row.get? c.text) :=
    congrArg ResultRow.cells hpresent
  have hscalar : l.scalarOfCell ∘ (fun c => (c.text, row.get? c.text)) = l.scalarOf row := by
    funext c
    simp only [Function.comp_apply, scalarOfCell, scalarOf, Column.ofText?_text, Option.bind]
  have hproperty : l.propertyOfCell (t.present row) ∘ (fun c => (c.text, row.get? c.text)) =
      l.propertyOf row := by
    funext c
    simp only [Function.comp_apply, propertyOfCell, propertyOf, Column.ofText?_text, Option.bind]
    cases hrole : l.roleOf c with
    | scalar => rfl
    | cellName valueColumn =>
      have hvalue := hcell c valueColumn (roleOf_eq_cellName_iff.1 hrole)
      dsimp only
      rw [hpresent, ResultRow.get?_map_text hvalue]
    | cellValue => rfl
  rw [decode_eq_ok_iff, hcells, List.forall_mem_map]
  refine ⟨fun c hc => ⟨c, hc, Text.sameIgnoringCase_self c.text⟩, ?_⟩
  rw [ofRow, ofRecord, hcells, List.filterMap_map, List.filterMap_map, hscalar, hproperty]

private theorem scalarOf_eq_some_iff {l : Layout} {row : Record} {c q : Column} {text : String} :
    l.scalarOf row c = some (q, text) ↔
      c = q ∧ l.roleOf q = .scalar ∧ row.get? q.text = some text := by
  unfold scalarOf
  constructor
  · intro h
    split at h
    next hrole =>
      obtain ⟨text', htext, heq⟩ := Option.map_eq_some_iff.1 h
      cases heq
      exact ⟨rfl, hrole, htext⟩
    · cases h
    · cases h
  · rintro ⟨rfl, hrole, htext⟩
    rw [hrole]
    simp [htext]

private theorem nodup_scalars {l : Layout} (row : Record) {columns : List Column} (h : columns.Nodup) :
    ((columns.filterMap (l.scalarOf row)).map (·.1)).Nodup := by
  have hsublist : ((columns.filterMap (l.scalarOf row)).map (·.1)).Sublist columns := by
    clear h
    induction columns with
    | nil => exact .slnil
    | cons c rest ih =>
      cases hc : l.scalarOf row c with
      | none =>
        rw [List.filterMap_cons_none hc]
        exact ih.cons c
      | some e =>
        obtain ⟨rfl, _⟩ := scalarOf_eq_some_iff.1 hc
        rw [List.filterMap_cons_some hc, List.map_cons]
        exact ih.cons_cons _
  exact hsublist.nodup h

/-- The columns of the element of a row are its cells in columns that hold no property. -/
theorem get?_ofRecord {l : Layout} (hnodup : l.columns.Nodup) (row : Record) (c : Column) :
    (l.ofRecord row).columns.get? c =
      if c ∈ l.columns ∧ l.roleOf c = .scalar then row.get? c.text else none := by
  apply Option.ext
  intro text
  have hmem : (c, text) ∈ l.columns.filterMap (l.scalarOf row) ↔
      (c ∈ l.columns ∧ l.roleOf c = .scalar) ∧ row.get? c.text = some text := by
    rw [List.mem_filterMap]
    constructor
    · rintro ⟨d, hd, hscalar⟩
      obtain ⟨rfl, hrole, htext⟩ := scalarOf_eq_some_iff.1 hscalar
      exact ⟨⟨hd, hrole⟩, htext⟩
    · rintro ⟨⟨hc, hrole⟩, htext⟩
      exact ⟨c, hc, scalarOf_eq_some_iff.2 ⟨rfl, hrole, htext⟩⟩
  rw [ofRecord, SortedMap.get?_eq_some_iff, SortedMap.mem_entries_ofList (nodup_scalars row hnodup),
    hmem]
  split
  next h => exact and_iff_right h
  next h => simp [h]

end Layout

end GraphTables
