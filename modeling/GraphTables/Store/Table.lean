import GraphTables.Cql.Statement
import GraphTables.SortedMap
import GraphTables.StableSort
import GraphTables.Store.Error

namespace GraphTables

/-- A stored row: the columns it has set, with their texts. -/
abbrev Record := SortedMap String String

/-- The order of two rows by a list of orderings: the first that tells them apart decides. An unset
cell comes before every text; descending is the reverse. -/
def compareBy : List SortKey → Record → Record → Ordering
  | [], _, _ => .eq
  | o :: rest, a, b =>
    let first :=
      match o.direction with
      | .asc => compare (a.get? o.column) (b.get? o.column)
      | .desc => compare (b.get? o.column) (a.get? o.column)
    first.then (compareBy rest a b)

/-- A table with its rows. -/
structure Table where
  schema : TableSchema
  /-- The rows by the texts of their key columns. -/
  rows : SortedMap (List String) Record
deriving DecidableEq

namespace Table

/-- A table without rows. Its key columns have to be among its columns. -/
def create (schema : TableSchema) : Except Rejection Table :=
  match schema.primaryKey.find? fun k => !schema.columns.contains k with
  | some missing => .error (.keyNotDefined missing schema.name)
  | none => .ok ⟨schema, .empty⟩

def hasColumn (t : Table) (column : String) : Bool := t.schema.columns.contains column

/-- The first name that is no column of the table is refused. -/
def requireColumns (t : Table) (columns : List String) : Except Rejection Unit :=
  match columns.find? fun c => !t.hasColumn c with
  | some c => .error (.undefinedColumn c t.schema.name)
  | none => .ok ()

/-- The key under which an insert writes. -/
def keyOf (t : Table) (i : Insert) : List String :=
  t.schema.primaryKey.map fun k => ((i.get? k).map Literal.cell).getD ""

/-- Write one row over the cells that it already has. All columns have to be defined and all key
columns set. -/
def insert (t : Table) (i : Insert) : Except Rejection Table := do
  t.requireColumns (i.values.map (·.1))
  match t.schema.primaryKey.find? fun k => (i.get? k).isNone with
  | some missing => .error (.missingKey missing t.schema.name)
  | none =>
    let key := t.keyOf i
    let old := (t.rows.get? key).getD .empty
    .ok { t with rows := t.rows.insert key (old.insertAll (i.values.map fun v => (v.1, v.2.cell))) }

/-- All clauses hold of the row. -/
def satisfies (clauses : List Clause) (row : Record) : Bool := Clause.holdAll row.get? clauses

/-- Remove the rows that satisfy all clauses. There has to be a clause, and all columns have to be
defined. -/
def delete (t : Table) (d : Delete) : Except Rejection Table := do
  if d.clauses.isEmpty then .error (.unrestrictedDelete t.schema.name)
  else
    t.requireColumns (d.restrictions.map Restriction.column)
    .ok { t with rows := t.rows.filter fun _ row => !satisfies d.clauses row }

/-- The rows that a select is about: those that satisfy its clauses, in key order sorted stably by
the orderings, as many as the limit allows. -/
def selectRecords (t : Table) (s : Select) : List Record :=
  let matching := t.rows.values.filter (satisfies s.clauses)
  let sorted := stableSort (fun a b => (compareBy s.orderings a b).isLE) matching
  match s.limit with
  | some n => sorted.take n.toNat
  | none => sorted

/-- A stored row as it is returned: every column of the table, in order. -/
def present (t : Table) (row : Record) : ResultRow :=
  ⟨t.schema.columns.map fun c => (c, row.get? c)⟩

/-- Read the rows of a select. All columns have to be defined. -/
def select (t : Table) (s : Select) : Except Rejection ResultSet := do
  t.requireColumns (s.restrictions.map Restriction.column)
  t.requireColumns (s.orderings.map (·.column))
  .ok ⟨t.schema.columns, (t.selectRecords s).map t.present⟩

end Table

end GraphTables
