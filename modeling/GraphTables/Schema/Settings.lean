import GraphTables.Layout

namespace GraphTables

/-- The type of a column. -/
inductive ColumnType where
  | text
  | int
  | bigint
  | double
  | boolean
  | blob
deriving DecidableEq

namespace ColumnType

def all : List ColumnType := [text, int, bigint, double, boolean, blob]

/-- The name of the type in statements. -/
def name : ColumnType → String
  | text => "text"
  | int => "int"
  | bigint => "bigint"
  | double => "double"
  | boolean => "boolean"
  | blob => "blob"

/-- The type of a name. -/
def ofName? (s : String) : Option ColumnType := all.find? (·.name == s)

instance : Inhabited ColumnType := ⟨text⟩

end ColumnType

/-- The fan-out of settings that do not say. -/
def defaultFanOut : UInt64 := 100

/-- Settings shared by the tables of a graph. -/
structure Settings where
  /-- How many rows an element is taken to have when a limit on elements becomes one on rows. -/
  fanOut : UInt64 := defaultFanOut
  /-- The type of columns without a type of their own. -/
  columnType : ColumnType := default
  /-- What stands before the names of all tables, with a low line after it. -/
  tablePrefix : Option String := none
deriving DecidableEq

/-- The name of the table of a kind. -/
def Settings.tableName (s : Settings) (k : Kind) : String :=
  match s.tablePrefix with
  | some p => p ++ "_" ++ k.layout.table
  | none => k.layout.table

end GraphTables
