import GraphTables.Proofs.ElementId
import GraphTables.Proofs.Graph.Writing

namespace GraphTables

namespace Request

/-- The keys of the request are all identity columns, with the texts of an identity. -/
structure Names (l : Layout) (r : Request) (id : List String) : Prop where
  length : id.length = l.identity.length
  keys : r.keys = l.identityCells id

/-- The columns of the cells are columns of the table. -/
def CellsIn (l : Layout) (r : Request) : Prop :=
  ∀ p ∈ r.cells, p.nameColumn ∈ l.columns ∧ p.valueColumn ∈ l.columns

/-- The cells of the request are properties of vertices and edges, the presence mark among them. -/
def OnProperties (r : Request) : Prop :=
  ∀ p ∈ r.cells, p.nameColumn = .propertyKey ∧ p.valueColumn = .propertyValue

private theorem OnProperties.cellsIn {l : Layout} (hl : l.PropertyRows) {r : Request}
    (h : r.OnProperties) : r.CellsIn l := by
  intro p hp
  obtain ⟨hname, hvalue⟩ := h p hp
  rw [hname, hvalue, hl.columns]
  simp

end Request

/-- The steps that a request stands for. A request that writes names an element by all its identity columns.
    One that deletes names it in the same way or by its identifier, and takes the whole element or single
    properties of it. -/
inductive GraphWrite.Means (l : Layout) : GraphWrite → List GraphStep → Prop where
  /-- An insert sets the properties of its cells, one after the other. -/
  | set {r : Request} {id : List String} : r.Names l id → r.OnProperties → r.cells ≠ [] →
      Means l (.insert r) (r.cells.map fun p => .setProperty id p.name p.value)
  /-- A deletion without keys removes the element of its identifier. -/
  | removeById {r : Request} {id : List String} : id.length = l.identity.length →
      r.id = .composite id → r.keys = .empty → r.cells ≠ [] →
      Means l (.delete r) [.removeElement id]
  /-- A deletion without cells, or with a presence mark, removes the element of its keys. -/
  | removeByKeys {r : Request} {id : List String} : r.Names l id → r.CellsIn l →
      r.cells = [] ∨ r.hasPresence = true → Means l (.delete r) [.removeElement id]
  /-- Any other deletion removes the properties of its cells. -/
  | removeProperties {r : Request} {id : List String} : r.Names l id → r.CellsIn l →
      (∀ p ∈ r.cells, p.nameColumn = .propertyKey) → r.cells ≠ [] → r.hasPresence = false →
      Means l (.delete r) (r.cells.map fun p => .removeProperty id p.name)

/-- The steps that requests one after the other stand for. -/
inductive GraphWrite.MeanAll (l : Layout) : List GraphWrite → List GraphStep → Prop where
  | nil : MeanAll l [] []
  | cons {w : GraphWrite} {writes : List GraphWrite} {steps later : List GraphStep} :
      w.Means l steps → MeanAll l writes later → MeanAll l (w :: writes) (steps ++ later)

namespace Layout

variable {l : Layout} {id : List String}

/-- A composite identifier of an identity stands for the identity columns. -/
theorem values_composite (hl : l.PropertyRows) (hid : id.length = l.identity.length) :
    l.idShape.values (.composite id) = .ok id := by
  have hcomposite := hl.composite
  have hne : id ≠ [] := by
    rintro rfl
    rw [← hid] at hcomposite
    cases hcomposite
  have hseveral : l.idShape.columns.length ≠ 1 := hl.several
  rw [IdShape.values_composite hseveral hne]
  exact if_pos hid

theorem pairs_composite (hl : l.PropertyRows) (hid : id.length = l.identity.length) :
    l.idShape.pairs (.composite id) = .ok (l.identity.zip id) := by
  rw [IdShape.pairs, values_composite hl hid]
  rfl

private theorem isEmpty_keys_of_names (hl : l.PropertyRows) {r : Request} (h : r.Names l id) :
    r.keys.isEmpty = false := by
  obtain ⟨e, he⟩ := List.exists_mem_of_ne_nil _ (hl.zip_identity_ne_nil h.length)
  have hmem := (mem_entries_identityCells hl h.length e).2 he
  rw [h.keys]
  exact List.isEmpty_eq_false_iff.2 (List.ne_nil_of_mem hmem)

/-- All columns that a request of an element names are columns of the table. -/
theorem namedColumns_of_names (hl : l.PropertyRows) {r : Request} (h : r.Names l id)
    (hcells : r.CellsIn l) : ∀ c ∈ namedColumns r, c ∈ l.columns := by
  intro c hc
  rw [namedColumns, List.mem_append] at hc
  rcases hc with hkey | hcell
  · rw [h.keys, SortedMap.keys] at hkey
    obtain ⟨e, he, rfl⟩ := List.mem_map.1 hkey
    have hzip := (mem_entries_identityCells hl h.length e).1 he
    exact (hl.roleOf_identity (List.of_mem_zip hzip).1).1
  · obtain ⟨p, hp, hc⟩ := List.mem_flatMap.1 hcell
    obtain ⟨hname, hvalue⟩ := hcells p hp
    rcases List.mem_cons.1 hc with rfl | hc
    · exact hname
    · obtain rfl := List.mem_singleton.1 hc
      exact hvalue

end Layout

namespace KindTable

variable {t : KindTable}

private theorem simulates_cellInsert (hl : t.layout.PropertyRows) {r : Request} {id : List String}
    (h : r.Names t.layout id) {p : Property}
    (hp : p.nameColumn = .propertyKey ∧ p.valueColumn = .propertyValue) :
    t.Simulates [.insert (Layout.cellInsert t.name r p)] [.setProperty id p.name p.value] := by
  have htable : (Layout.cellInsert t.name r p).table = t.name := by
    show ((Insert.into t.name).setAll _).table = t.name
    rw [Insert.table_setAll]
    rfl
  have hsets := Layout.sets_cellInsert t.name r p
  rw [hp.1, hp.2, h.keys, ← Layout.rowCells_eq_insert hl h.length p.name p.value] at hsets
  exact simulates_insert hl htable h.length hsets

theorem inserts_of_names (hl : t.layout.PropertyRows) {r : Request} {id : List String}
    (h : r.Names t.layout id) (hcells : r.OnProperties) (hne : r.cells ≠ []) :
    ∃ inserts, t.layout.inserts t.name r = .ok inserts ∧
      t.Simulates (inserts.map .insert) (r.cells.map fun p => .setProperty id p.name p.value) := by
  refine ⟨r.cells.map (Layout.cellInsert t.name r), ?_, ?_⟩
  · have hnotEmpty : ¬r.cells.isEmpty = true := by simpa using hne
    rw [Layout.inserts, Layout.requireContent_eq_ok (.inr hne),
      Layout.requireColumns_eq_ok_iff.2 (Layout.namedColumns_of_names hl h (hcells.cellsIn hl))]
    simp only [bind, Except.bind, if_neg hnotEmpty]
  · rw [List.map_map]
    apply simulates_map
    intro p hp
    exact simulates_cellInsert hl h (hcells p hp)

theorem deletes_of_id (hl : t.layout.PropertyRows) {r : Request} {id : List String}
    (hid : id.length = t.layout.identity.length) (hr : r.id = .composite id)
    (hkeys : r.keys = .empty) (hne : r.cells ≠ []) :
    ∃ deletes, t.layout.deletes t.name r = .ok deletes ∧
      t.Simulates (deletes.map .delete) [.removeElement id] := by
  have hvalues : t.layout.idShape.values r.id = .ok id := by
    rw [hr]
    exact Layout.values_composite hl hid
  exact ⟨_, Layout.deletes_id hkeys hne hvalues, simulates_deleteElement hl hid fun _ => Iff.rfl⟩

/-- The deletions of a request that names an element by its keys. -/
theorem deletes_of_names (hl : t.layout.PropertyRows) {r : Request} {id : List String}
    (h : r.Names t.layout id) (hcells : r.CellsIn t.layout) :
    t.layout.deletes t.name r =
      .ok (if r.cells.isEmpty || r.hasPresence then [⟨t.name, Clause.equalities r.keys.entries⟩]
        else r.cells.map fun p => ⟨t.name,
          Clause.equalities (r.keys.entries ++ [(p.nameColumn, p.name)])⟩) :=
  Layout.deletes_of_keys (Layout.isEmpty_keys_of_names hl h) (Layout.namedColumns_of_names hl h hcells)

theorem deletes_element (hl : t.layout.PropertyRows) {r : Request} {id : List String}
    (h : r.Names t.layout id) (hcells : r.CellsIn t.layout)
    (hwhole : r.cells = [] ∨ r.hasPresence = true) :
    ∃ deletes, t.layout.deletes t.name r = .ok deletes ∧
      t.Simulates (deletes.map .delete) [.removeElement id] := by
  rw [deletes_of_names hl h hcells, if_pos (by simpa using hwhole)]
  refine ⟨_, rfl, simulates_deleteElement hl h.length ?_⟩
  rw [h.keys]
  exact Layout.mem_entries_identityCells hl h.length

theorem deletes_properties (hl : t.layout.PropertyRows) {r : Request} {id : List String}
    (h : r.Names t.layout id) (hcells : r.CellsIn t.layout)
    (hproperties : ∀ p ∈ r.cells, p.nameColumn = .propertyKey) (hne : r.cells ≠ [])
    (hpresence : r.hasPresence = false) :
    ∃ deletes, t.layout.deletes t.name r = .ok deletes ∧
      t.Simulates (deletes.map .delete) (r.cells.map fun p => .removeProperty id p.name) := by
  rw [deletes_of_names hl h hcells, if_neg (by simpa [hpresence] using hne)]
  refine ⟨_, rfl, ?_⟩
  rw [List.map_map]
  apply simulates_map
  intro p hp
  rw [Function.comp_apply, hproperties p hp]
  apply simulates_deleteProperty hl h.length
  rw [h.keys]
  exact Layout.mem_entries_identityCells hl h.length

end KindTable

end GraphTables
