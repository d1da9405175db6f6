import GraphTables.Column
import GraphTables.Cql.Literal

namespace GraphTables

/-- A comparison that statements know. -/
inductive Comparison where
  | eq
  | gt
  | gte
  | lt
  | lte
deriving DecidableEq

namespace Comparison

def symbol : Comparison → String
  | eq => "="
  | gt => ">"
  | gte => ">="
  | lt => "<"
  | lte => "<="

/-- The comparison holds between operands that stand in the given order. -/
def accepts : Comparison → Ordering → Bool
  | eq, o => o == .eq
  | gt, o => o == .gt
  | gte, o => o != .lt
  | lt, o => o == .lt
  | lte, o => o != .gt

end Comparison

/-- A restriction of the cell in one column. -/
inductive Restriction where
  | compare (column : String) (op : Comparison) (operand : Literal)
  | oneOf (column : String) (operands : List Literal)
deriving DecidableEq

namespace Restriction

def column : Restriction → String
  | compare column _ _ => column
  | oneOf column _ => column

/-- The restriction as a statement shows it. -/
def render : Restriction → String
  | compare column op operand => column ++ " " ++ op.symbol ++ " " ++ operand.render
  | oneOf column operands =>
    column ++ " IN (" ++ ", ".intercalate (operands.map Literal.render) ++ ")"

/-- The cell text satisfies the restriction. A cell without an order to the operand satisfies
nothing. -/
def acceptsCell (r : Restriction) (cell : String) : Bool :=
  match r with
  | compare _ op operand => (operand.compareCell cell).any op.accepts
  | oneOf _ operands => operands.any fun l => l.compareCell cell == some .eq

/-- The restriction holds of a row, given by the cells it has set. An unset cell satisfies
nothing. -/
def holds (r : Restriction) (cell? : String → Option String) : Bool :=
  (cell? r.column).any r.acceptsCell

/-- Equality of restrictions; doubles are compared as numbers. -/
def sameAs : Restriction → Restriction → Bool
  | compare c op l, compare c' op' l' => c == c' && op == op' && l.sameAs l'
  | oneOf c ls, oneOf c' ls' =>
    c == c' && ls.length == ls'.length && (ls.zip ls').all fun (l, l') => l.sameAs l'
  | _, _ => false

end Restriction

/-- A restriction, or a conjunction of clauses. -/
inductive Clause where
  | leaf (r : Restriction)
  | all (operands : List Clause)

namespace Clause

mutual

/-- The restrictions of the clause, from left to right. -/
def restrictions : Clause → List Restriction
  | leaf r => [r]
  | all operands => restrictionsOf operands

/-- The restrictions of a list of clauses, from left to right. -/
def restrictionsOf : List Clause → List Restriction
  | [] => []
  | c :: cs => c.restrictions ++ restrictionsOf cs

end

mutual

/-- The clause as a statement shows it. -/
def render : Clause → String
  | leaf r => r.render
  | all operands => " AND ".intercalate (renderEach operands)

/-- Each clause as a statement shows it. -/
def renderEach : List Clause → List String
  | [] => []
  | c :: cs => c.render :: renderEach cs

end

mutual

/-- The clause holds of a row, given by the cells it has set. -/
def holds (cell? : String → Option String) : Clause → Bool
  | leaf r => r.holds cell?
  | all operands => holdAll cell? operands

/-- All clauses hold of a row. -/
def holdAll (cell? : String → Option String) : List Clause → Bool
  | [] => true
  | c :: cs => c.holds cell? && holdAll cell? cs

end

mutual

/-- Equality of clauses as trees; doubles are compared as numbers. -/
def sameAs : Clause → Clause → Bool
  | leaf r, leaf r' => r.sameAs r'
  | all cs, all cs' => sameAll cs cs'
  | leaf _, all _ => false
  | all _, leaf _ => false

/-- Equality of lists of clauses, one by one. -/
def sameAll : List Clause → List Clause → Bool
  | [], [] => true
  | c :: cs, c' :: cs' => c.sameAs c' && sameAll cs cs'
  | [], _ :: _ => false
  | _ :: _, [] => false

end

/-- The columns of the restrictions, from left to right. -/
def columns (c : Clause) : List String := c.restrictions.map Restriction.column

/-- The conjunction of two clauses as one flat list of restrictions. -/
def and (a b : Clause) : Clause := all ((a.restrictions ++ b.restrictions).map leaf)

/-- The column has exactly the given text. -/
def equals (column text : String) : Clause := leaf (.compare column .eq (.text text))

/-- The columns have exactly the given texts. -/
def equalities (pairs : List (Column × String)) : List Clause :=
  pairs.map fun c => equals c.1.text c.2

@[simp] theorem restrictionsOf_append (cs ds : List Clause) :
    restrictionsOf (cs ++ ds) = restrictionsOf cs ++ restrictionsOf ds := by
  induction cs with
  | nil => simp [restrictionsOf]
  | cons c cs ih => simp [restrictionsOf, ih]

@[simp] theorem restrictionsOf_map_leaf (rs : List Restriction) :
    restrictionsOf (rs.map leaf) = rs := by
  induction rs with
  | nil => simp [restrictionsOf]
  | cons r rs ih => simp [restrictionsOf, restrictions, ih]

@[simp] theorem restrictions_and (a b : Clause) :
    (a.and b).restrictions = a.restrictions ++ b.restrictions := by
  rw [and, restrictions, restrictionsOf_map_leaf]

mutual

/-- A clause holds exactly if all its restrictions hold. -/
theorem holds_eq_all (cell? : String → Option String) (c : Clause) :
    c.holds cell? = c.restrictions.all (·.holds cell?) :=
  match c with
  | leaf r => by simp [holds, restrictions]
  | all operands => by rw [holds, restrictions, holdAll_eq_all]

/-- A list of clauses holds exactly if all its restrictions hold. -/
theorem holdAll_eq_all (cell? : String → Option String) (cs : List Clause) :
    holdAll cell? cs = (restrictionsOf cs).all (·.holds cell?) :=
  match cs with
  | [] => by simp [holdAll, restrictionsOf]
  | c :: cs => by rw [holdAll, restrictionsOf, List.all_append, holds_eq_all, holdAll_eq_all]

end

end Clause

end GraphTables
