import GraphTables.Schema.Settings

namespace GraphTables

/-- A table to create. -/
structure TableDefinition where
  table : String
  columns : List String := []
  /-- A type for each column, in order; without them all columns have the default type. -/
  columnTypes : Option (List ColumnType) := none
  partitionKey : List String := []
  clusteringKey : List String := []
deriving DecidableEq

/-- Why a definition is refused. -/
inductive DefinitionFault where
  | noColumns
  | noPartitionKey
  | typeCount (types columns : Nat)
  | duplicateColumn (column : String)
  | keyNotColumn (key : String)
deriving DecidableEq

def DefinitionFault.message : DefinitionFault → String
  | noColumns => "no columns"
  | noPartitionKey => "no partition key"
  | typeCount types columns => s!"{types} column type(s) for {columns} column(s)"
  | duplicateColumn column => s!"duplicate column {column}"
  | keyNotColumn key => s!"primary key {key} is not a column"

/-- The first text that occurred before, in the list or in those already seen. -/
def firstRepeated? (seen : List String) : List String → Option String
  | [] => none
  | s :: rest => if s ∈ seen then some s else firstRepeated? (s :: seen) rest

namespace TableDefinition

/-- Set the primary key: the first column is the partition key, the others cluster. -/
def withPrimaryKey (d : TableDefinition) (key : List String) : TableDefinition :=
  { d with partitionKey := key.take 1, clusteringKey := key.drop 1 }

/-- The definition of the table of a kind under a name. -/
def ofLayout (l : Layout) (table : String) : TableDefinition where
  table := table
  columns := l.columns.map Column.text
  partitionKey := l.partitionKey.map Column.text
  clusteringKey := l.clusteringKey.map Column.text

/-- A definition has columns, each once, a partition key, keys among its columns, and a type for
each column if it has types. -/
def validate (d : TableDefinition) : Except DefinitionFault Unit :=
  if d.columns.isEmpty then .error .noColumns
  else if d.partitionKey.isEmpty then .error .noPartitionKey
  else
    match d.columnTypes.filter (·.length != d.columns.length) with
    | some types => .error (.typeCount types.length d.columns.length)
    | none =>
      match firstRepeated? [] d.columns with
      | some column => .error (.duplicateColumn column)
      | none =>
        match (d.partitionKey ++ d.clusteringKey).find? fun k => !d.columns.contains k with
        | some key => .error (.keyNotColumn key)
        | none => .ok ()

/-- The columns with their types. -/
def typedColumns (d : TableDefinition) (defaultType : ColumnType) : List (String × ColumnType) :=
  match d.columnTypes with
  | some types => d.columns.zip types
  | none => d.columns.map (·, defaultType)

/-- The statement text that creates the table if there is none of its name. -/
def render (d : TableDefinition) (defaultType : ColumnType) : String :=
  let columns := (d.typedColumns defaultType).map fun c => c.1 ++ " " ++ c.2.name
  let key := ("(" ++ ", ".intercalate d.partitionKey ++ ")") :: d.clusteringKey
  "CREATE TABLE IF NOT EXISTS " ++ d.table ++ "(" ++ ", ".intercalate columns ++ ", PRIMARY KEY("
    ++ ", ".intercalate key ++ "));"

/-- The statement text of a valid definition. -/
def createStatement (d : TableDefinition) (defaultType : ColumnType) :
    Except DefinitionFault String :=
  d.validate.map fun _ => d.render defaultType

end TableDefinition

/-- The usual name of an index on a column of a table. -/
def indexName (table column : String) : String := table ++ "_" ++ column ++ "_index"

/-- The statement text that creates an index. -/
def createIndexStatement (name table column : String) : String :=
  "CREATE INDEX " ++ name ++ " ON " ++ table ++ "(" ++ column ++ ");"

/-- The statement text that removes a table if there is one of its name. -/
def dropStatement (table : String) : String := "DROP TABLE IF EXISTS " ++ table ++ ";"

/-- The definitions of the kinds' own tables are valid. -/
theorem validate_ofLayout (k : Kind) (table : String) :
    (TableDefinition.ofLayout k.layout table).validate = .ok () := by
  cases k <;> rfl

end GraphTables
