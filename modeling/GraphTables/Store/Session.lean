import GraphTables.Store.Table

namespace GraphTables

/-- The column that an index is on. -/
structure IndexTarget where
  table : String
  column : String
deriving DecidableEq

/-- The tables and indexes of a store, by name: a table under the lower-cased form of any spelling of its
name. -/
structure Store where
  tables : SortedMap String Table := .empty
  indexes : SortedMap String IndexTarget := .empty
deriving DecidableEq

namespace Store

/-- The table of a name in any spelling. -/
def table (s : Store) (name : String) : Except StoreError Table :=
  match s.tables.get? (Text.lowercase name) with
  | some t => .ok t
  | none => .error (.tableNotFound name)

/-- Change the table of a name in any spelling, unless the change is refused. -/
def modifyTable (s : Store) (name : String) (change : Table → Except Rejection Table) :
    Except StoreError Store := do
  let t ← s.table name
  match change t with
  | .ok t' => .ok { s with tables := s.tables.insert (Text.lowercase name) t' }
  | .error r => .error (.invalid r)

def insert (s : Store) (i : Insert) : Except StoreError Store :=
  s.modifyTable i.table fun t => t.insert i

def delete (s : Store) (d : Delete) : Except StoreError Store :=
  s.modifyTable d.table fun t => t.delete d

/-- Apply a member of a batch. -/
def applyMember (s : Store) : Statement → Except StoreError Store
  | .insert i => s.insert i
  | .delete d => s.delete d
  | other => .error (.invalid (.notBatchable other.render))

/-- Apply the members of a batch one after the other to a copy, which takes the place of the store if none of
them is refused. -/
def applyMembers (s : Store) : List Statement → Except StoreError Store
  | [] => .ok s
  | member :: rest => do
    let s' ← s.applyMember member
    s'.applyMembers rest

/-- Create or drop a table, or create an index. A table that goes takes its indexes along. -/
def changeSchema (s : Store) : SchemaChange → Except StoreError Store
  | .createTable schema ifAbsent =>
    if s.tables.contains schema.name then
      if ifAbsent then .ok s else .error (.invalid (.tableExists schema.name))
    else
      match Table.create schema with
      | .ok t => .ok { s with tables := s.tables.insert schema.name t }
      | .error r => .error (.invalid r)
  | .createIndex name table column =>
    if s.indexes.contains name then .error (.invalid (.indexExists name))
    else do
      let t ← s.table table
      if !t.hasColumn column then .error (.invalid (.indexColumnNotDefined column table))
      else if t.schema.partitionKey = [column] then
        .error (.invalid (.indexOnPartitionKey column))
      else .ok { s with indexes := s.indexes.insert name ⟨table, column⟩ }
  | .dropTable name ifPresent =>
    if s.tables.contains name || ifPresent then
      .ok { tables := s.tables.erase name, indexes := s.indexes.filter fun _ i => i.table != name }
    else .error (.tableNotFound name)

end Store

/-- A store in use. A closed session executes nothing any more. -/
structure Session where
  store : Store := {}
  closed : Bool := false
deriving DecidableEq

namespace Session

/-- The session with a changed store, and no rows. -/
def withStore (session : Session) (changed : Except StoreError Store) :
    Except StoreError (Session × ResultSet) :=
  changed.map fun store => ({ session with store }, {})

/-- Read the rows of a select. -/
def select (session : Session) (s : Select) : Except StoreError ResultSet :=
  if session.closed then .error .closed
  else do
    let t ← session.store.table s.table
    (t.select s).mapError .invalid

/-- Execute a statement, entirely or not at all. -/
def execute (session : Session) (statement : Statement) :
    Except StoreError (Session × ResultSet) :=
  if session.closed then .error .closed
  else
    match statement with
    | .select s => (session.select s).map fun rows => (session, rows)
    | .insert i => session.withStore (session.store.insert i)
    | .delete d => session.withStore (session.store.delete d)
    | .batch members => session.withStore (session.store.applyMembers members)
    | .raw text =>
      match SchemaChange.read text with
      | .ok change => session.withStore (session.store.changeSchema change)
      | .error fault => .error (.invalid (.notSchemaChange fault text))

/-- Execute statements one after the other, up to the first that fails. What was done before it
stays done. -/
def executeAll (session : Session) : List Statement → Session × Except StoreError Unit
  | [] => (session, .ok ())
  | s :: rest =>
    match session.execute s with
    | .ok (session', _) => session'.executeAll rest
    | .error e => (session, .error e)

def close (session : Session) : Session := { session with closed := true }

/-- The number of rows of a table, on a closed session too. -/
def rowCount (session : Session) (table : String) : Except StoreError Nat :=
  (session.store.table table).map fun t => t.rows.size

end Session

end GraphTables
