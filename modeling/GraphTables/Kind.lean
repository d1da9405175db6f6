import GraphTables.Text.Basic

namespace GraphTables

/-- What a table stores and a query returns. -/
inductive Kind where
  | vertexLabel
  | edgeLabel
  | propertyKey
  | indexLabel
  | vertex
  | edge
  | secondaryIndex
  | searchIndex
deriving DecidableEq

namespace Kind

def all : List Kind :=
  [vertexLabel, edgeLabel, propertyKey, indexLabel, vertex, edge, secondaryIndex, searchIndex]

theorem mem_all (k : Kind) : k ∈ all := by cases k <;> decide

/-- The name of the kind in messages. -/
def text : Kind → String
  | vertexLabel => "vertex_label"
  | edgeLabel => "edge_label"
  | propertyKey => "property_key"
  | indexLabel => "index_label"
  | vertex => "vertex"
  | edge => "edge"
  | secondaryIndex => "secondary_index"
  | searchIndex => "search_index"

/-- The kind of a name. -/
def ofText? (s : String) : Option Kind := all.find? (·.text == s)

/-- The name of the kind in serialized requests. -/
def camelName (k : Kind) : String := Text.camelCase k.text

/-- Definitions of labels, property keys and indexes. -/
def isSchema : Kind → Bool
  | vertexLabel | edgeLabel | propertyKey | indexLabel => true
  | vertex | edge | secondaryIndex | searchIndex => false

/-- Entries of an index. -/
def isIndex : Kind → Bool
  | secondaryIndex | searchIndex => true
  | vertexLabel | edgeLabel | propertyKey | indexLabel | vertex | edge => false

end Kind

end GraphTables
