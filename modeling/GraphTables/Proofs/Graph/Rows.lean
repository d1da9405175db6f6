import GraphTables.Proofs.Graph.PropertyGraph
import GraphTables.Proofs.Layout.Row

namespace GraphTables

/-- Each row of the table is one property of an element: it is keyed by the identity columns and the
    key of the property, and has the value of the property beside them. -/
structure Layout.PropertyRows (l : Layout) : Prop where
  columns : l.columns = l.identity ++ [.propertyKey, .propertyValue]
  primaryKey : l.primaryKey = l.identity ++ [.propertyKey]
  cell : l.cell = some (.propertyKey, .propertyValue)
  nodup : l.columns.Nodup
  composite : 2 ≤ l.identity.length

theorem Kind.propertyRows_layout {k : Kind} (h : k = .vertex ∨ k = .edge) :
    k.layout.PropertyRows := by
  rcases h with rfl | rfl
  · exact ⟨rfl, rfl, rfl, by decide, by decide⟩
  · exact ⟨rfl, rfl, rfl, by decide, by decide⟩

namespace Layout

/-- The identity columns of an element with their texts. -/
def identityCells (l : Layout) (id : List String) : SortedMap Column String :=
  .ofList (l.identity.zip id)

/-- The cells of the row of a property. -/
def rowCells (l : Layout) (id : List String) (name value : String) : SortedMap Column String :=
  .ofList (l.columns.zip (id ++ [name, value]))

/-- The row of a property. -/
def rowOf (l : Layout) (id : List String) (name value : String) : Record :=
  .ofColumns (l.rowCells id name value)

variable {l : Layout} {id id' : List String} {name value : String}

theorem PropertyRows.several (hl : l.PropertyRows) : l.identity.length ≠ 1 := by
  have hcomposite := hl.composite
  omega

theorem PropertyRows.nodup_identity (hl : l.PropertyRows) : l.identity.Nodup := by
  have hnodup := hl.nodup
  rw [hl.columns] at hnodup
  exact (List.nodup_append.1 hnodup).1

private theorem PropertyRows.length_row (hl : l.PropertyRows) (hid : id.length = l.identity.length)
    (name value : String) : (id ++ [name, value]).length = l.columns.length := by
  rw [hl.columns, List.length_append, List.length_append, hid]
  rfl

theorem PropertyRows.zip_identity_ne_nil (hl : l.PropertyRows)
    (hid : id.length = l.identity.length) : l.identity.zip id ≠ [] := by
  intro hempty
  have hlength := congrArg List.length hempty
  have hcomposite := hl.composite
  rw [List.length_zip, hid, Nat.min_self, List.length_nil] at hlength
  omega

theorem map_get?_identityCells (hl : l.PropertyRows) (hid : id.length = l.identity.length) :
    l.identity.map (l.identityCells id).get? = id.map some :=
  SortedMap.map_get?_ofList_zip hl.nodup_identity hid

theorem identityCells_injective (hl : l.PropertyRows) (hid : id.length = l.identity.length)
    (hid' : id'.length = l.identity.length) (h : l.identityCells id = l.identityCells id') :
    id = id' := by
  have hmap := map_get?_identityCells hl hid
  rw [h, map_get?_identityCells hl hid'] at hmap
  exact ((List.map_inj_right fun _ _ heq => Option.some.inj heq).1 hmap).symm

theorem mem_entries_identityCells (hl : l.PropertyRows) (hid : id.length = l.identity.length)
    (e : Column × String) : e ∈ (l.identityCells id).entries ↔ e ∈ l.identity.zip id :=
  SortedMap.mem_entries_ofList (SortedMap.nodup_map_fst_zip hl.nodup_identity hid) e

/-- The cells of a row in the order of the columns. -/
theorem map_get?_rowCells (hl : l.PropertyRows) (hid : id.length = l.identity.length)
    (name value : String) :
    l.columns.map (l.rowCells id name value).get? = (id ++ [name, value]).map some :=
  SortedMap.map_get?_ofList_zip hl.nodup (hl.length_row hid name value)

theorem get?_rowCells_of_not_mem (hl : l.PropertyRows) (hid : id.length = l.identity.length)
    (name value : String) {c : Column} (hc : c ∉ l.columns) : (l.rowCells id name value).get? c = none :=
  SortedMap.get?_ofList_zip_of_not_mem hl.nodup (hl.length_row hid name value) hc

theorem get?_rowCells_of_mem (hl : l.PropertyRows) (hid : id.length = l.identity.length)
    (name value : String) {c : Column} (hc : c ∈ l.columns) :
    ∃ text, (l.rowCells id name value).get? c = some text := by
  have hmem : (l.rowCells id name value).get? c ∈ (id ++ [name, value]).map some := by
    rw [← map_get?_rowCells hl hid name value]
    exact List.mem_map_of_mem hc
  obtain ⟨text, _, htext⟩ := List.mem_map.1 hmem
  exact ⟨text, htext.symm⟩

/-- The identity columns, the key and the value of a property in its row. -/
theorem rowCells_parts (hl : l.PropertyRows) (hid : id.length = l.identity.length)
    (name value : String) :
    l.identity.map (l.rowCells id name value).get? = id.map some ∧
      (l.rowCells id name value).get? .propertyKey = some name ∧
      (l.rowCells id name value).get? .propertyValue = some value := by
  have hcells := map_get?_rowCells hl hid name value
  rw [hl.columns, List.map_append, List.map_append] at hcells
  obtain ⟨hidentity, hcell⟩ := List.append_inj hcells (by simp [hid])
  simpa [hidentity] using hcell

theorem rowCells_eq_insert (hl : l.PropertyRows) (hid : id.length = l.identity.length)
    (name value : String) :
    l.rowCells id name value =
      ((l.identityCells id).insert .propertyKey name).insert .propertyValue value := by
  have hzip : l.columns.zip (id ++ [name, value]) =
      l.identity.zip id ++ [(.propertyKey, name), (.propertyValue, value)] := by
    rw [hl.columns, List.zip_append hid.symm]
    rfl
  rw [rowCells, hzip, SortedMap.ofList, SortedMap.insertAll, List.foldl_append]
  rfl

/-- The key of the row of a property. -/
theorem map_primaryKey_rowCells (hl : l.PropertyRows) (hid : id.length = l.identity.length)
    (name value : String) :
    l.primaryKey.map (l.rowCells id name value).get? = (id ++ [name]).map some := by
  obtain ⟨hidentity, hname, _⟩ := rowCells_parts hl hid name value
  rw [hl.primaryKey, List.map_append, List.map_append, hidentity]
  simp [hname]

/-- The identity columns of a row have the texts of exactly one identity. -/
theorem forall_identity_rowCells_iff (hl : l.PropertyRows) (hid : id.length = l.identity.length)
    (hid' : id'.length = l.identity.length) (name value : String) :
    (∀ e ∈ l.identity.zip id, (l.rowCells id' name value).get? e.1 = some e.2) ↔ id' = id := by
  obtain ⟨hidentity, _, _⟩ := rowCells_parts hl hid' name value
  rw [SortedMap.forall_mem_zip_iff hid, hidentity]
  exact List.map_inj_right (fun _ _ h => Option.some.inj h)

/-- The rows are exactly the properties of the graph. -/
structure Represents (l : Layout) (rows : SortedMap (List String) Record) (g : PropertyGraph) :
    Prop where
  row : ∀ key row, rows.get? key = some row ↔ ∃ id name value,
    g.property? id name = some value ∧ key = id ++ [name] ∧ row = l.rowOf id name value
  arity : ∀ id name value, g.property? id name = some value → id.length = l.identity.length

variable {rows : SortedMap (List String) Record} {g : PropertyGraph}

theorem represents_empty (l : Layout) : l.Represents .empty {} := by
  refine ⟨fun key row => ⟨fun h => ?_, ?_⟩, ?_⟩
  · cases h
  · rintro ⟨id, name, value, h, _⟩
    cases h
  · intro id name value h
    cases h

/-- What stands under a key. -/
theorem Represents.get?_append (h : l.Represents rows g) (id : List String) (name : String) :
    rows.get? (id ++ [name]) = (g.property? id name).map (l.rowOf id name) := by
  cases hget : rows.get? (id ++ [name]) with
  | some row =>
    obtain ⟨id', name', value, hproperty, hkey, rfl⟩ := (h.row _ _).1 hget
    obtain ⟨rfl, hname⟩ := List.append_inj' hkey rfl
    obtain rfl : name = name' := by simpa using hname
    rw [hproperty]
    rfl
  | none =>
    cases hproperty : g.property? id name with
    | none => rfl
    | some value =>
      have hrow := (h.row (id ++ [name]) _).2 ⟨id, name, value, hproperty, rfl, rfl⟩
      rw [hget] at hrow
      cases hrow

/-- Keeping some of the rows keeps their properties. -/
theorem Represents.filter (h : l.Represents rows g) {keep : Record → Bool} {g' : PropertyGraph}
    (hg : ∀ id name, g'.property? id name =
      (g.property? id name).filter fun value => keep (l.rowOf id name value)) :
    l.Represents (rows.filter fun _ row => keep row) g' := by
  have hkept {id : List String} {name value : String} : g'.property? id name = some value ↔
      g.property? id name = some value ∧ keep (l.rowOf id name value) = true := by
    rw [hg, Option.filter_eq_some_iff]
  constructor
  · intro key row
    rw [SortedMap.get?_filter, Option.filter_eq_some_iff, h.row]
    constructor
    · rintro ⟨⟨id, name, value, hproperty, rfl, rfl⟩, hkeep⟩
      exact ⟨id, name, value, hkept.2 ⟨hproperty, hkeep⟩, rfl, rfl⟩
    · rintro ⟨id, name, value, hproperty, rfl, rfl⟩
      obtain ⟨hproperty, hkeep⟩ := hkept.1 hproperty
      exact ⟨⟨id, name, value, hproperty, rfl, rfl⟩, hkeep⟩
  · intro id name value hproperty
    exact h.arity id name value (hkept.1 hproperty).1

/-- Equalities that pick out some properties by their rows hold of the rows of these. -/
theorem Represents.satisfies_iff (h : l.Represents rows g) {pairs : List (Column × String)}
    {hit : List String → String → Prop}
    (hhit : ∀ id name value, id.length = l.identity.length →
      ((∀ e ∈ pairs, (l.rowCells id name value).get? e.1 = some e.2) ↔ hit id name))
    (hproperty : g.property? id name = some value) :
    Table.satisfies (Clause.equalities pairs) (l.rowOf id name value) = true ↔ hit id name := by
  rw [← hhit id name value (h.arity id name value hproperty)]
  exact Table.satisfies_equalities

/-- Writing the row of a property sets the property, whether it was there or not. -/
theorem Represents.setProperty (h : l.Represents rows g) (hid : id.length = l.identity.length) :
    l.Represents (rows.insert (id ++ [name]) (l.rowOf id name value))
      (g.setProperty id name value) := by
  constructor
  · intro key row
    rw [SortedMap.get?_insert]
    constructor
    · intro hrow
      split at hrow
      next heq =>
        refine ⟨id, name, value, ?_, heq, (Option.some.inj hrow).symm⟩
        rw [PropertyGraph.property?_setProperty, if_pos ⟨rfl, rfl⟩]
      next hne =>
        obtain ⟨id', name', value', hproperty, rfl, rfl⟩ := (h.row _ _).1 hrow
        refine ⟨id', name', value', ?_, rfl, rfl⟩
        rw [PropertyGraph.property?_setProperty, if_neg, hproperty]
        rintro ⟨rfl, rfl⟩
        exact hne rfl
    · rintro ⟨id', name', value', hproperty, rfl, rfl⟩
      rw [PropertyGraph.property?_setProperty] at hproperty
      split at hproperty
      next heq =>
        obtain ⟨rfl, rfl⟩ := heq
        cases hproperty
        rw [if_pos rfl]
      next hne =>
        rw [if_neg, h.get?_append, hproperty, Option.map_some]
        intro hkey
        obtain ⟨hid, hname⟩ := List.append_inj' hkey rfl
        exact hne ⟨hid, by simpa using hname⟩
  · intro id' name' value' hproperty
    rw [PropertyGraph.property?_setProperty] at hproperty
    split at hproperty
    next heq => rw [heq.1, hid]
    next => exact h.arity id' name' value' hproperty

end Layout

end GraphTables
