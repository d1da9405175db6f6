import GraphTables.Cql.Statement
import GraphTables.Layout

namespace GraphTables

namespace Layout

/-- Take one cell of a row into the element. An unset cell adds nothing, but its column has to be
known; a property whose value is unset has the empty text. -/
def addCell (l : Layout) (row : ResultRow) (e : Element) (cell : String × Option String) :
    Except ElementError Element := do
  let (column, role) ← l.classify cell.1
  match cell.2, role with
  | none, _ => .ok e
  | some text, .scalar => .ok { e with columns := e.columns.insert column text }
  | some text, .cellName valueColumn =>
    let value := (row.get? valueColumn.text).getD ""
    .ok { e with cells := e.cells ++ [⟨column, text, valueColumn, value⟩] }
  | some _, .cellValue => .ok e

/-- The element of one row of a table, with at most one property. -/
def decode (l : Layout) (row : ResultRow) : Except ElementError Element :=
  row.cells.foldlM (l.addCell row) ⟨l.kind, .empty, []⟩

/-- Put an element before others; if the first of them is the same element, their properties are
joined. -/
def foldInto (e : Element) : List Element → List Element
  | [] => [e]
  | f :: rest =>
    if e.sameIdentity f then { e with cells := e.cells ++ f.cells } :: rest else e :: f :: rest

/-- Join neighbours that are the same element, with the properties of all. -/
def foldRuns : List Element → List Element
  | [] => []
  | e :: rest => foldInto e (foldRuns rest)

/-- Fold the elements of single rows, if elements of the table may take several. -/
def fold (l : Layout) (elements : List Element) : List Element :=
  if l.spansRows then foldRuns elements else elements

/-- The elements of the rows of one select. -/
def decodeAll (l : Layout) (rows : List ResultRow) : Except ElementError (List Element) :=
  (rows.mapM l.decode).map l.fold

end Layout

end GraphTables
