import GraphTables.Numeral.Integer

namespace GraphTables.Numeral

/-- The double nearest to `m · 10 ^ e`; a power far outside the range gives an infinity or zero. -/
def nearestFloat (m : Nat) (e : Int) : Float :=
  let lead := e + (digits m).length
  if m = 0 ∨ lead < -330 then 0.0
  else if 310 < lead then Float.ofScientific 1 false 400
  else if e < 0 then Float.ofScientific m true e.natAbs
  else Float.ofScientific m false e.natAbs

/-- Split off the decimal digits that a text starts with. -/
def spanDigits (cs : List Char) : List Char × List Char := cs.span Char.isDigit

/-- An exponent after `e`, with at most one sign; no text means zero. -/
def readExponent? : List Char → Option Int
  | [] => some 0
  | c :: cs =>
    if c = 'e' ∨ c = 'E' then
      match cs with
      | '-' :: ds => (readDigits? ds).map fun n => -(n : Int)
      | '+' :: ds => (readDigits? ds).map fun n => (n : Int)
      | ds => (readDigits? ds).map fun n => (n : Int)
    else none

/-- Digits with at most one point among them, then an exponent. -/
def readDecimal? (cs : List Char) : Option Float :=
  let (whole, rest) := spanDigits cs
  let (fraction, rest) :=
    match rest with
    | '.' :: ds => spanDigits ds
    | ds => ([], ds)
  if whole.isEmpty && fraction.isEmpty then none
  else do
    let e ← readExponent? rest
    let m := Nat.ofDigitChars 10 (whole ++ fraction) 0
    some (nearestFloat m (e - fraction.length))

/-- A decimal, or the name of an infinity or of the value that is no number, in any case. -/
def readMagnitude? (cs : List Char) : Option Float :=
  let folded := cs.map Char.toLower
  if folded = "inf".toList ∨ folded = "infinity".toList then some (1.0 / 0.0)
  else if folded = "nan".toList then some (0.0 / 0.0)
  else readDecimal? cs

/-- Read a double with at most one sign before it. -/
def readFloat? (s : String) : Option Float :=
  match s.toList with
  | '-' :: cs => (readMagnitude? cs).map fun x => -x
  | '+' :: cs => readMagnitude? cs
  | cs => readMagnitude? cs

/-- The order of two doubles; the value that is no number stands in no order. -/
def compareFloat? (x y : Float) : Option Ordering :=
  if x < y then some .lt
  else if y < x then some .gt
  else if x == y then some .eq
  else none

end GraphTables.Numeral
