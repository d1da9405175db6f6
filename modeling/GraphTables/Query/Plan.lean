import GraphTables.Cql.Statement
import GraphTables.Query.Condition

namespace GraphTables

/-- A query for elements of one kind. -/
structure Query where
  kind : Kind
  /-- The identifiers asked for; none means all. -/
  ids : List ElementId := []
  /-- Conditions that all have to hold. -/
  conditions : List Condition := []
  orders : List (Column × SortDirection) := []
  limit : Option UInt64 := none
  /-- The store cannot skip rows, so the offset has no effect. -/
  offset : UInt64 := 0
deriving DecidableEq

namespace Query

/-- Order by a column in a list of orders: in place if the column is there, at the end if not. -/
def orderIn (column : Column) (direction : SortDirection) :
    List (Column × SortDirection) → List (Column × SortDirection)
  | [] => [(column, direction)]
  | (c, d) :: rest =>
    if c = column then (c, direction) :: rest else (c, d) :: orderIn column direction rest

/-- Order by a column; an earlier order of the column changes its direction and keeps its place. -/
def orderBy (q : Query) (column : Column) (direction : SortDirection) : Query :=
  { q with orders := orderIn column direction q.orders }

end Query

/-- What a plan depends on besides the query. -/
structure Planner where
  table : String
  shape : IdShape
  /-- How many rows an element is taken to have. -/
  fanOut : UInt64

/-- The limit on rows for a limit on elements, as far as 64 bits go. -/
def scaledLimit (fanOut limit : UInt64) : UInt64 :=
  .ofNat (min (limit.toNat * fanOut.toNat) (UInt64.size - 1))

theorem toNat_scaledLimit (fanOut limit : UInt64) :
    (scaledLimit fanOut limit).toNat = min (limit.toNat * fanOut.toNat) (UInt64.size - 1) := by
  rw [scaledLimit, UInt64.toNat_ofNat']
  have hsize : UInt64.size = 18446744073709551616 := rfl
  exact Nat.mod_eq_of_lt (by omega)

namespace Planner

/-- The clauses that pick one element, an equality for each identity column. -/
def idClauses (p : Planner) (id : ElementId) : Except ElementError (List Clause) :=
  (p.shape.pairs id).map Clause.equalities

/-- The where clauses of the selects for a list of identifiers, a list of clauses each: one select
without clauses for none, one for all over a single identity column, one for each otherwise. -/
def selections (p : Planner) (ids : List ElementId) : Except ElementError (List (List Clause)) :=
  match ids, p.shape.columns with
  | [], _ => .ok [[]]
  | _, [column] => .ok [[.leaf (.oneOf column.text (ids.map fun id => .text id.text))]]
  | _, _ => ids.mapM p.idClauses

/-- The selects for a query, in order. -/
def plan (p : Planner) (q : Query) : Except QueryError (List Select) := do
  let condition ← (Condition.conjunction q.conditions).mapError .unsupported
  let selections ← (p.selections q.ids).mapError .element
  .ok (selections.map fun clauses =>
    { table := p.table
      clauses := clauses ++ condition.toList
      orderings := q.orders.map fun o => ⟨o.1.text, o.2⟩
      limit := q.limit.map (scaledLimit p.fanOut) })

end Planner

end GraphTables
