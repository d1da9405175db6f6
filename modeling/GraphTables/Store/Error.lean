import GraphTables.Store.SchemaChange

namespace GraphTables

/-- What is wrong with a statement on a store that has its tables in a certain state. -/
inductive Rejection where
  /-- A text is no schema change. -/
  | notSchemaChange (fault : SchemaFault) (text : String)
  | tableExists (table : String)
  /-- A key column is not among the columns of the table to create. -/
  | keyNotDefined (column table : String)
  | indexExists (name : String)
  | indexColumnNotDefined (column table : String)
  /-- The column to index is the whole partition key. -/
  | indexOnPartitionKey (column : String)
  | undefinedColumn (column table : String)
  /-- An insert does not set a key column. -/
  | missingKey (column table : String)
  /-- A deletion has no clauses. -/
  | unrestrictedDelete (table : String)
  /-- A member of a batch is neither an insert nor a deletion. -/
  | notBatchable (statement : String)
deriving DecidableEq

def Rejection.message : Rejection → String
  | notSchemaChange fault text => fault.message ++ ": " ++ text
  | tableExists table => s!"table {table} already exists"
  | keyNotDefined column table =>
    s!"primary key column {column} is not defined in table {table}"
  | indexExists name => s!"index {name} already exists"
  | indexColumnNotDefined column table =>
    s!"no column definition found for {column} in table {table}"
  | indexOnPartitionKey column =>
    s!"cannot create secondary index on partition key column {column}"
  | undefinedColumn column table => s!"undefined column name {column} in table {table}"
  | missingKey column table => s!"missing primary key column {column} for table {table}"
  | unrestrictedDelete table => s!"delete from {table} requires a where clause"
  | notBatchable statement => s!"only inserts and deletes may be batched: {statement}"

/-- Why a session did not execute a statement. -/
inductive StoreError where
  | closed
  | tableNotFound (name : String)
  | invalid (rejection : Rejection)
deriving DecidableEq

def StoreError.message : StoreError → String
  | closed => "session has been closed"
  | tableNotFound name => s!"table not found: {name}"
  | invalid rejection => s!"invalid query: {rejection.message}"

end GraphTables
