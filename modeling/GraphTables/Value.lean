import GraphTables.ElementId
import GraphTables.Numeral.Notation

namespace GraphTables

/-- Doubles in plain text: never an exponent, no decimal on whole numbers. -/
def plainNotation : Numeral.Notation where
  positional := fun _ => true
  showsPoint := false
  tie := .up
  nan := "NaN"
  infinity := "inf"

/-- An operand of a condition. -/
inductive Value where
  | text (s : String)
  | int (i : Int64)
  | float (x : Float)
  | bool (b : Bool)
  | id (id : ElementId)
  | symbol (s : String)
deriving DecidableEq

namespace Value

/-- The name of the operand's type. -/
def typeName : Value → String
  | text _ => "text"
  | int _ => "int"
  | float _ => "float"
  | bool _ => "bool"
  | id _ => "id"
  | symbol _ => "symbol"

/-- The operand for readers. -/
def display : Value → String
  | text s => s
  | int i => Numeral.writeInt64 i
  | float x => plainNotation.write x
  | bool b => if b then "true" else "false"
  | id i => i.display
  | symbol s => s

def text? : Value → Option String
  | text s => some s
  | _ => none

def int? : Value → Option Int64
  | int i => some i
  | _ => none

def id? : Value → Option ElementId
  | id i => some i
  | _ => none

/-- Equality of operands of one type; doubles are compared as numbers. -/
def sameAs : Value → Value → Bool
  | text a, text b => a == b
  | int a, int b => a == b
  | float a, float b => a == b
  | bool a, bool b => a == b
  | id a, id b => a == b
  | symbol a, symbol b => a == b
  | _, _ => false

end Value

/-- The direction of an edge, seen from the vertex that owns its row. -/
inductive Direction where
  | out
  | into
  | both
deriving DecidableEq

namespace Direction

/-- The symbol kept in the direction column. -/
def name : Direction → String
  | out => "OUT"
  | into => "IN"
  | both => "BOTH"

def opposite : Direction → Direction
  | out => into
  | into => out
  | both => both

def toValue (d : Direction) : Value := .symbol d.name

end Direction

end GraphTables
