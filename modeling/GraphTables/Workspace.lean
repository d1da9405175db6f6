import GraphTables.KindTable

namespace GraphTables

/-- A session with the batches that are filled for it, by name. -/
structure Workspace where
  session : Session := {}
  batches : SortedMap String PendingBatch := .empty

namespace Workspace

/-- The batch of a name. One that was not opened is an empty batch of no table. -/
def batch (w : Workspace) (name : String) : PendingBatch := (w.batches.get? name).getD ⟨"", []⟩

/-- Open an empty batch for a table, in place of an earlier one of the name. -/
def openBatch (w : Workspace) (name table : String) : Workspace :=
  { w with batches := w.batches.insert name ⟨table, []⟩ }

/-- Put statements into a batch. -/
def append (w : Workspace) (name : String) (statements : List Statement) : Workspace :=
  { w with batches := w.batches.insert name ((w.batch name).append statements) }

/-- Forget the statements of a batch. -/
def discard (w : Workspace) (name : String) : Workspace :=
  { w with batches := w.batches.insert name (w.batch name).discard }

/-- Change a batch, unless the change fails. -/
def updateBatch (w : Workspace) (name : String)
    (change : PendingBatch → Except GraphError PendingBatch) : Workspace × Except GraphError Unit :=
  match change (w.batch name) with
  | .ok b => ({ w with batches := w.batches.insert name b }, .ok ())
  | .error e => (w, .error e)

/-- Put the inserts of a request into a batch. -/
def insert (w : Workspace) (t : KindTable) (name : String) (r : Request) :
    Workspace × Except GraphError Unit :=
  w.updateBatch name fun b => t.insert b r

/-- Put the deletions of a request into a batch. -/
def delete (w : Workspace) (t : KindTable) (name : String) (r : Request) :
    Workspace × Except GraphError Unit :=
  w.updateBatch name fun b => t.delete b r

/-- Commit a batch. -/
def commit (w : Workspace) (name : String) : Workspace × Except GraphError Unit :=
  match (w.batch name).commit w.session with
  | .ok (b, session) => ({ session, batches := w.batches.insert name b }, .ok ())
  | .error e => (w, .error e)

/-- Execute a statement. -/
def execute (w : Workspace) (s : Statement) : Workspace × Except StoreError ResultSet :=
  match w.session.execute s with
  | .ok (session, rows) => ({ w with session }, .ok rows)
  | .error e => (w, .error e)

/-- Execute the text of a schema change. -/
def changeSchema (w : Workspace) (text : String) : Workspace × Except GraphError Unit :=
  let (w', result) := w.execute (.raw text)
  (w', (result.map fun _ => ()).mapError .store)

/-- Create a table, unless there is one of its name. -/
def createTable (w : Workspace) (d : TableDefinition) (defaultType : ColumnType) :
    Workspace × Except GraphError Unit :=
  match d.createStatement defaultType with
  | .ok text => w.changeSchema text
  | .error fault => (w, .error (.invalidDefinition d.table fault))

/-- Create an index. -/
def createIndex (w : Workspace) (name table column : String) :
    Workspace × Except GraphError Unit :=
  w.changeSchema (createIndexStatement name table column)

/-- Remove a table, if it is there. -/
def dropTable (w : Workspace) (table : String) : Workspace × Except GraphError Unit :=
  w.changeSchema (dropStatement table)

/-- Create the table of a kind and its indexes. -/
def init (w : Workspace) (t : KindTable) : Workspace × Except GraphError Unit :=
  let (session, result) := t.init w.session
  ({ w with session }, result)

/-- Remove the table of a kind. -/
def clear (w : Workspace) (t : KindTable) : Workspace × Except GraphError Unit :=
  let (session, result) := t.clear w.session
  ({ w with session }, result)

/-- Close the session. -/
def close (w : Workspace) : Workspace := { w with session := w.session.close }

end Workspace

end GraphTables
