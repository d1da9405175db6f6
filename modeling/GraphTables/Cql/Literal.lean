import GraphTables.Numeral.Notation
import GraphTables.Numeral.Reading
import GraphTables.Text.Basic
import GraphTables.Value

namespace GraphTables

/-- Doubles in statements: at least one decimal, and an exponent below `1e-4` and from `1e16` on. -/
def statementNotation : Numeral.Notation where
  positional := fun e => -5 < e && e < 16
  showsPoint := true
  tie := .up
  nan := "NaN"
  infinity := "inf"

/-- A literal of a statement. -/
inductive Literal where
  | text (s : String)
  | int (i : Int64)
  | float (x : Float)
  | bool (b : Bool)
deriving DecidableEq

namespace Literal

/-- The literal as a statement shows it. -/
def render : Literal → String
  | text s => Text.quote s
  | int i => Numeral.writeInt64 i
  | float x => statementNotation.write x
  | bool b => if b then "true" else "false"

/-- The text that a cell set to the literal holds. -/
def cell : Literal → String
  | text s => s
  | int i => Numeral.writeInt64 i
  | float x => plainNotation.write x
  | bool b => if b then "true" else "false"

/-- A truth value read from a cell. -/
def readBool? (s : String) : Option Bool :=
  if s = "true" then some true else if s = "false" then some false else none

/-- The order of a cell relative to the literal. Cells hold text alone: a number is compared by reading the
cell, and a cell that cannot be read stands in no order to it. -/
def compareCell (l : Literal) (cell : String) : Option Ordering :=
  match l with
  | text s => some (compare cell s)
  | int i => (Numeral.readInt64? cell).map fun c => compare c.toInt i.toInt
  | float x => (Numeral.readFloat? cell).bind fun c => Numeral.compareFloat? c x
  | bool b => (readBool? cell).map fun c => compare c b

/-- Equality of literals of one type; doubles are compared as numbers. -/
def sameAs : Literal → Literal → Bool
  | text a, text b => a == b
  | int a, int b => a == b
  | float a, float b => a == b
  | bool a, bool b => a == b
  | _, _ => false

end Literal

end GraphTables
