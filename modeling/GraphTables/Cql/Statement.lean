import GraphTables.Cql.Clause

namespace GraphTables

/-- The direction of an ordering. -/
inductive SortDirection where
  | asc
  | desc
deriving DecidableEq

def SortDirection.keyword : SortDirection → String
  | asc => "ASC"
  | desc => "DESC"

/-- One entry of an `ORDER BY` list. -/
structure SortKey where
  column : String
  direction : SortDirection
deriving DecidableEq

/-- A read of one table. -/
structure Select where
  table : String
  /-- Clauses that all have to hold. -/
  clauses : List Clause := []
  orderings : List SortKey := []
  limit : Option UInt64 := none

/-- A write of one row. Setting a column again replaces its literal in place, so that no column is ever
set twice. -/
structure Insert where
  table : String
  /-- The columns set, each once, with their literals. -/
  values : List (String × Literal) := []
  nodup : (values.map (·.1)).Nodup := by simp
deriving DecidableEq

/-- A removal of all rows that satisfy the clauses. -/
structure Delete where
  table : String
  clauses : List Clause := []

/-- A statement. Members of a batch are applied as one unit; raw text carries schema changes. -/
inductive Statement where
  | select (s : Select)
  | insert (i : Insert)
  | delete (d : Delete)
  | batch (members : List Statement)
  | raw (text : String)

namespace Insert

/-- Set a column in a list of columns, in place if it is there and at the end if not. -/
def setIn (column : String) (l : Literal) : List (String × Literal) → List (String × Literal)
  | [] => [(column, l)]
  | (c, l') :: rest => if c = column then (c, l) :: rest else (c, l') :: setIn column l rest

private theorem map_fst_setIn (column : String) (l : Literal) (values : List (String × Literal)) :
    (setIn column l values).map (·.1) =
      if column ∈ values.map (·.1) then values.map (·.1) else values.map (·.1) ++ [column] := by
  fun_induction setIn column l values <;> grind

private theorem nodup_setIn (column : String) (l : Literal) {values : List (String × Literal)}
    (h : (values.map (·.1)).Nodup) : ((setIn column l values).map (·.1)).Nodup := by
  rw [map_fst_setIn]
  split
  · exact h
  · grind

/-- Set a column; an earlier literal of the column is replaced in place. -/
def set (i : Insert) (column : String) (l : Literal) : Insert where
  table := i.table
  values := setIn column l i.values
  nodup := nodup_setIn column l i.nodup

/-- The insert that sets no column of a table yet. -/
def into (table : String) : Insert where
  table := table

/-- Set the columns of a list one after the other. -/
def setAll (i : Insert) (values : List (String × Literal)) : Insert :=
  values.foldl (fun i v => i.set v.1 v.2) i

/-- The literal a column is set to. -/
def get? (i : Insert) (column : String) : Option Literal := i.values.lookup column

private theorem lookup_setIn (column q : String) (l : Literal) (values : List (String × Literal)) :
    (setIn column l values).lookup q = if q = column then some l else values.lookup q := by
  fun_induction setIn column l values <;> grind

theorem get?_set (i : Insert) (column q : String) (l : Literal) :
    (i.set column l).get? q = if q = column then some l else i.get? q :=
  lookup_setIn column q l i.values

/-- The insert as text. -/
def render (i : Insert) : String :=
  "INSERT INTO " ++ i.table ++ " (" ++ ", ".intercalate (i.values.map (·.1)) ++ ") VALUES ("
    ++ ", ".intercalate (i.values.map fun v => v.2.render) ++ ");"

end Insert

/-- The clauses of a statement as text, nothing if there are none. -/
def renderWhere (clauses : List Clause) : String :=
  if clauses.isEmpty then "" else " WHERE " ++ " AND ".intercalate (Clause.renderEach clauses)

namespace Select

/-- All restrictions of the select, from left to right. -/
def restrictions (s : Select) : List Restriction := Clause.restrictionsOf s.clauses

/-- The select as text. -/
def render (s : Select) : String :=
  let order :=
    if s.orderings.isEmpty then ""
    else
      " ORDER BY " ++
        ", ".intercalate (s.orderings.map fun o => o.column ++ " " ++ o.direction.keyword)
  let limit :=
    match s.limit with
    | some n => " LIMIT " ++ String.ofList (Numeral.digits n.toNat)
    | none => ""
  "SELECT * FROM " ++ s.table ++ renderWhere s.clauses ++ order ++ limit ++ ";"

end Select

namespace Delete

/-- All restrictions of the deletion, from left to right. -/
def restrictions (d : Delete) : List Restriction := Clause.restrictionsOf d.clauses

/-- The deletion as text. -/
def render (d : Delete) : String := "DELETE FROM " ++ d.table ++ renderWhere d.clauses ++ ";"

end Delete

namespace Statement

/-- The statement writes or removes rows of one table. -/
def isMutation : Statement → Bool
  | insert _ | delete _ => true
  | select _ | batch _ | raw _ => false

/-- The one table that the statement is about. -/
def table? : Statement → Option String
  | select s => some s.table
  | insert i => some i.table
  | delete d => some d.table
  | batch _ => none
  | raw _ => none

mutual

/-- The statement as text. -/
def render : Statement → String
  | select s => s.render
  | insert i => i.render
  | delete d => d.render
  | batch members => "BEGIN BATCH" ++ renderMembers members ++ " APPLY BATCH;"
  | raw text => text

/-- The members of a batch as text, each after a space. -/
def renderMembers : List Statement → String
  | [] => ""
  | s :: rest => " " ++ s.render ++ renderMembers rest

end

end Statement

/-- A returned row: the columns in order, each with its text if it is set. -/
structure ResultRow where
  cells : List (String × Option String)
deriving DecidableEq

/-- The text of a column, whatever the case of the ASCII letters in its name. Of several cells under
one name the first counts. -/
def ResultRow.get? (r : ResultRow) (column : String) : Option String :=
  (r.cells.find? fun c => Text.sameIgnoringCase c.1 column).bind (·.2)

/-- The columns of a table and the rows read from it; empty for any statement but a select. -/
structure ResultSet where
  columns : List String := []
  rows : List ResultRow := []
deriving DecidableEq

end GraphTables
