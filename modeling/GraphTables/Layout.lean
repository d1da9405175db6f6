import GraphTables.Element

namespace GraphTables

/-- What a column of a table holds. -/
inductive Role where
  /-- A text of the element itself. -/
  | scalar
  /-- The key of a property, whose value is in another column. -/
  | cellName (valueColumn : Column)
  /-- The value of a property. -/
  | cellValue
deriving DecidableEq

/-- The shape of the table of a kind. -/
structure Layout where
  kind : Kind
  /-- The name of the table, before any prefix. -/
  table : String
  /-- The columns in the order of the table. -/
  columns : List Column
  partitionKey : List Column
  clusteringKey : List Column := []
  /-- The columns that an identifier stands for. -/
  identity : List Column
  /-- The columns of a property's key and value, if properties take rows of their own. -/
  cell : Option (Column × Column) := none
  /-- The columns that have an index. -/
  indexed : List Column := []
deriving DecidableEq

/-- The shape of the table of a kind. Schema elements and index entries take one row each. Vertices and edges
take one row for each property: the key of a row ends in the column of the property's key. -/
def Kind.layout : Kind → Layout
  | vertexLabel =>
    { kind := vertexLabel
      table := "vertex_labels"
      columns := [.name, .idStrategy, .primaryKeys, .indexNames, .properties]
      partitionKey := [.name]
      identity := [.name] }
  | edgeLabel =>
    { kind := edgeLabel
      table := "edge_labels"
      columns := [.name, .frequency, .links, .sortKeys, .indexNames, .properties]
      partitionKey := [.name]
      identity := [.name] }
  | propertyKey =>
    { kind := propertyKey
      table := "property_keys"
      columns := [.name, .dataType, .cardinality, .properties]
      partitionKey := [.name]
      identity := [.name] }
  | indexLabel =>
    { kind := indexLabel
      table := "index_labels"
      columns := [.name, .baseType, .baseValue, .indexType, .fields]
      partitionKey := [.name]
      identity := [.name]
      indexed := [.baseValue] }
  | vertex =>
    { kind := vertex
      table := "vertices"
      columns := [.label, .primaryValues, .propertyKey, .propertyValue]
      partitionKey := [.label]
      clusteringKey := [.primaryValues, .propertyKey]
      identity := [.label, .primaryValues]
      cell := some (.propertyKey, .propertyValue) }
  | edge =>
    { kind := edge
      table := "edges"
      columns := [.sourceVertex, .direction, .label, .sortValues, .targetVertex, .propertyKey,
        .propertyValue]
      partitionKey := [.sourceVertex]
      clusteringKey := [.direction, .label, .sortValues, .targetVertex, .propertyKey]
      identity := [.sourceVertex, .direction, .label, .sortValues, .targetVertex]
      cell := some (.propertyKey, .propertyValue) }
  | secondaryIndex =>
    { kind := secondaryIndex
      table := "secondary_indexes"
      columns := [.propertyValues, .indexLabelName, .elementIds]
      partitionKey := [.propertyValues]
      clusteringKey := [.indexLabelName, .elementIds]
      identity := [.propertyValues, .indexLabelName] }
  | searchIndex =>
    { kind := searchIndex
      table := "search_indexes"
      columns := [.indexLabelName, .propertyValues, .elementIds]
      partitionKey := [.indexLabelName]
      clusteringKey := [.propertyValues, .elementIds]
      identity := [.indexLabelName, .propertyValues] }

namespace Layout

/-- The columns that key a row. -/
def primaryKey (l : Layout) : List Column := l.partitionKey ++ l.clusteringKey

/-- The identity columns of the table's elements. -/
def idShape (l : Layout) : IdShape := ⟨l.identity⟩

/-- An element may take several rows. -/
def spansRows (l : Layout) : Bool := l.cell.isSome

/-- What a column of the table holds. -/
def roleOf (l : Layout) (c : Column) : Role :=
  match l.cell with
  | none => .scalar
  | some (nameColumn, valueColumn) =>
    if c = nameColumn then .cellName valueColumn
    else if c = valueColumn then .cellValue
    else .scalar

/-- The column of a name in a row of the table, and what it holds. -/
def classify (l : Layout) (name : String) : Except ElementError (Column × Role) := do
  let c ← Column.ofText name
  if c ∈ l.columns then .ok (c, l.roleOf c)
  else .error (.unknownColumn (l.table ++ "." ++ name))

end Layout

namespace Kind

@[simp] theorem kind_layout (k : Kind) : k.layout.kind = k := by cases k <;> rfl

/-- The identity columns are columns of the table that hold no property. -/
theorem roleOf_of_mem_identity (k : Kind) :
    ∀ c ∈ k.layout.identity, c ∈ k.layout.columns ∧ k.layout.roleOf c = .scalar := by
  cases k <;> decide

end Kind

end GraphTables
