import GraphTables.Cql.Clause
import GraphTables.Element

namespace GraphTables

/-- A comparison of a condition. -/
inductive Relation where
  | eq
  | gt
  | gte
  | lt
  | lte
  | neq
deriving DecidableEq

namespace Relation

def symbol : Relation → String
  | eq => "=="
  | gt => ">"
  | gte => ">="
  | lt => "<"
  | lte => "<="
  | neq => "!="

/-- The comparison in statements; there is none for inequality. -/
def comparison? : Relation → Option Comparison
  | eq => some .eq
  | gt => some .gt
  | gte => some .gte
  | lt => some .lt
  | lte => some .lte
  | neq => none

end Relation

/-- A tree of comparisons of columns with values. The store knows neither alternatives nor inequality, so a
condition that uses one of them has no clause. -/
inductive Condition where
  | relation (column : Column) (op : Relation) (value : Value)
  | and (left right : Condition)
  | or (left right : Condition)
deriving DecidableEq

/-- A condition that the store has no means to express. -/
inductive Unsupported where
  | inequality (column : Column) (value : Value)
  | disjunction (left right : Condition)
deriving DecidableEq

/-- Why there is no plan for a query. -/
inductive QueryError where
  | unsupported (u : Unsupported)
  /-- An identifier does not fit the identity columns. -/
  | element (e : ElementError)
deriving DecidableEq

/-- The literal that a value is compared by: identifiers and symbols by their text. -/
def Value.literal : Value → Literal
  | text s => .text s
  | int i => .int i
  | float x => .float x
  | bool b => .bool b
  | id i => .text i.text
  | symbol s => .text s

namespace Condition

/-- The condition for readers. -/
def display : Condition → String
  | relation column op value => column.text ++ " " ++ op.symbol ++ " " ++ value.display
  | and left right => "(" ++ left.display ++ " AND " ++ right.display ++ ")"
  | or left right => "(" ++ left.display ++ " OR " ++ right.display ++ ")"

/-- The clause of a condition, a lone comparison or one flat conjunction of comparisons. From left to right,
the first alternative or inequality is refused. -/
def toClause : Condition → Except Unsupported Clause
  | relation column op value =>
    match op.comparison? with
    | some comparison => .ok (.leaf (.compare column.text comparison value.literal))
    | none => .error (.inequality column value)
  | and left right => do
    let l ← left.toClause
    let r ← right.toClause
    .ok (l.and r)
  | or left right => .error (.disjunction left right)

/-- Join the clauses of conditions to the clause of the conditions before them. -/
def joinClauses (before : Option Clause) : List Condition → Except Unsupported (Option Clause)
  | [] => .ok before
  | c :: rest => do
    let clause ← c.toClause
    joinClauses (some (before.elim clause (·.and clause))) rest

/-- The clause of a list of conditions that all have to hold; none for the empty list. -/
def conjunction (conditions : List Condition) : Except Unsupported (Option Clause) :=
  joinClauses none conditions

end Condition

def Unsupported.message : Unsupported → String
  | inequality column value =>
    "unsupported predicate: inequality on " ++ column.text ++ ": "
      ++ (Condition.relation column .neq value).display
  | disjunction left right =>
    "unsupported predicate: disjunction: " ++ (Condition.or left right).display

def QueryError.message : QueryError → String
  | unsupported u => u.message
  | element e => e.message

end GraphTables
