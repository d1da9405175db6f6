import GraphTables.Query.Condition
import GraphTables.Schema.Definition
import GraphTables.Store.Error

namespace GraphTables

/-- Why an operation on the tables of a graph fails. -/
inductive GraphError where
  /-- A condition that the store cannot express. -/
  | unsupported (u : Unsupported)
  /-- A batch of so many statements for a table met a closed session. -/
  | commitWhenClosed (count : Nat) (table : String)
  /-- A query for one kind was put to the table of another. -/
  | otherKind (asked table : Kind)
  /-- The store refused a batch; its statements are shown. -/
  | commitFailed (statements : List String) (cause : StoreError)
  | invalidDefinition (table : String) (fault : DefinitionFault)
  /-- A batch for one table was to take statements for another. -/
  | otherTable (batch table : String)
  | element (e : ElementError)
  /-- The store refused a statement outside a batch. -/
  | store (e : StoreError)
deriving DecidableEq

namespace GraphError

def message : GraphError → String
  | unsupported u => u.message
  | commitWhenClosed count table =>
    s!"precondition failed: session is closed, cannot commit {count} statement(s) for table {table}"
  | otherKind asked table =>
    s!"precondition failed: query for {asked.text} issued against the {table.text} table"
  | commitFailed statements cause =>
    s!"failed to commit {statements.length} statement(s): {cause.message}"
  | invalidDefinition table fault => s!"invalid schema: table {table}: {fault.message}"
  | otherTable batch table =>
    s!"batch for table '{batch}' cannot take statements for table '{table}'"
  | element e => e.message
  | store e => s!"storage error: {e.message}"

/-- The store is the cause of the failure. -/
def isStoreError : GraphError → Bool
  | commitFailed .. | store _ => true
  | unsupported _ | commitWhenClosed .. | otherKind .. | invalidDefinition .. | otherTable ..
  | element _ => false

def ofQueryError : QueryError → GraphError
  | .unsupported u => unsupported u
  | .element e => element e

end GraphError

end GraphTables
