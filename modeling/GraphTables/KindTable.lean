import GraphTables.Layout.Decoding
import GraphTables.Layout.Encoding
import GraphTables.PendingBatch
import GraphTables.Query.Plan

namespace GraphTables

/-- The table of a kind under given settings. -/
structure KindTable where
  kind : Kind
  settings : Settings := {}
deriving DecidableEq

namespace KindTable

/-- The name of the table in the store. -/
def name (t : KindTable) : String := t.settings.tableName t.kind

def layout (t : KindTable) : Layout := t.kind.layout

def planner (t : KindTable) : Planner := ⟨t.name, t.layout.idShape, t.settings.fanOut⟩

/-- The statements that create the table and its indexes. -/
def setup (t : KindTable) : List Statement :=
  .raw ((TableDefinition.ofLayout t.layout t.name).render t.settings.columnType) ::
    t.layout.indexed.map fun c =>
      .raw (createIndexStatement (indexName t.name c.text) t.name c.text)

/-- Create the table, unless it is there, and its indexes. -/
def init (t : KindTable) (session : Session) : Session × Except GraphError Unit :=
  let (session', result) := session.executeAll t.setup
  (session', result.mapError .store)

/-- Remove the table, if it is there. -/
def clear (t : KindTable) (session : Session) : Session × Except GraphError Unit :=
  let (session', result) := session.executeAll [.raw (dropStatement t.name)]
  (session', result.mapError .store)

/-- An empty batch for the table. -/
def newBatch (t : KindTable) : PendingBatch := ⟨t.name, []⟩

/-- A batch for another table is refused. -/
def requireOwn (t : KindTable) (b : PendingBatch) : Except GraphError Unit :=
  if b.table = t.name then .ok () else .error (.otherTable b.table t.name)

/-- Put the inserts of a request into a batch. -/
def insert (t : KindTable) (b : PendingBatch) (r : Request) : Except GraphError PendingBatch := do
  t.requireOwn b
  let inserts ← (t.layout.inserts t.name r).mapError .element
  .ok (b.append (inserts.map .insert))

/-- Put the deletions of a request into a batch. -/
def delete (t : KindTable) (b : PendingBatch) (r : Request) : Except GraphError PendingBatch := do
  t.requireOwn b
  let deletes ← (t.layout.deletes t.name r).mapError .element
  .ok (b.append (deletes.map .delete))

/-- The elements that one select gives. -/
def read (t : KindTable) (session : Session) (s : Select) : Except GraphError (List Element) := do
  let rows ← (session.select s).mapError .store
  (t.layout.decodeAll rows.rows).mapError .element

/-- The elements that a query asks for, those of one select after those of another. -/
def query (t : KindTable) (session : Session) (q : Query) : Except GraphError (List Element) := do
  if q.kind = t.kind then do
    let selects ← (t.planner.plan q).mapError .ofQueryError
    (selects.mapM (t.read session)).map List.flatten
  else .error (.otherKind q.kind t.kind)

end KindTable

end GraphTables
