import GraphTables.Cql.Statement
import GraphTables.Layout

namespace GraphTables

namespace Layout

/-- The columns that a request names: its keys, then those of its properties. -/
def namedColumns (r : Request) : List Column :=
  r.keys.keys ++ r.cells.flatMap fun p => [p.nameColumn, p.valueColumn]

/-- The first column that a request names and the table does not have is refused. -/
def requireColumns (l : Layout) (table : String) (r : Request) : Except ElementError Unit :=
  match (namedColumns r).find? fun c => !l.columns.contains c with
  | some c => .error (.unknownColumn (table ++ "." ++ c.text))
  | none => .ok ()

/-- The insert of the keys of a request. -/
def keyInsert (table : String) (r : Request) : Insert :=
  (Insert.into table).setAll (r.keys.entries.map fun e => (e.1.text, .text e.2))

/-- The insert of a property, over the keys. -/
def cellInsert (table : String) (r : Request) (p : Property) : Insert :=
  ((keyInsert table r).set p.nameColumn.text (.text p.name)).set p.valueColumn.text (.text p.value)

/-- The inserts of a request to write an element: one for each property, or one for the keys alone. -/
def inserts (l : Layout) (table : String) (r : Request) : Except ElementError (List Insert) := do
  r.requireContent
  l.requireColumns table r
  if r.cells.isEmpty then .ok [keyInsert table r]
  else .ok (r.cells.map (cellInsert table r))

/-- The deletions of a request to delete an element or properties of it. A request without keys goes by its
identifier. With keys it removes all rows that have them, if it has no properties or a presence mark among
them, and else the row of each property. -/
def deletes (l : Layout) (table : String) (r : Request) : Except ElementError (List Delete) := do
  r.requireContent
  if r.keys.isEmpty then do
    let pairs ← l.idShape.pairs r.id
    .ok [⟨table, Clause.equalities pairs⟩]
  else do
    l.requireColumns table r
    let keys := Clause.equalities r.keys.entries
    if r.cells.isEmpty || r.hasPresence then .ok [⟨table, keys⟩]
    else .ok (r.cells.map fun p => ⟨table, keys ++ [.equals p.nameColumn.text p.name]⟩)

end Layout

end GraphTables
