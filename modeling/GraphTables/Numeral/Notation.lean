import GraphTables.Numeral.Integer
import GraphTables.Numeral.Shortest

namespace GraphTables.Numeral

/-- The decisions of a format for doubles: where positional notation ends, whether a whole number shows a
decimal, and how the values that are no numbers are spelt. -/
structure Notation where
  /-- Written without an exponent, given the power of ten of the leading digit. -/
  positional : Int → Bool
  /-- A whole number in positional notation ends in `.0`. -/
  showsPoint : Bool
  /-- A positive power of ten has a plus sign. -/
  showsPlus : Bool := false
  tie : Tie
  nan : String
  infinity : String

/-- A spelling of a decimal without its sign. -/
structure Spelling where
  whole : List Char
  /-- The digits after the point; without digits there is no point. -/
  fraction : List Char := []
  /-- The power of ten after `e`, if there is one. -/
  exponent : Option Int := none
deriving DecidableEq

/-- The characters of a spelling; a positive power of ten may have a plus sign. -/
def Spelling.text (s : Spelling) (showsPlus : Bool) : List Char :=
  let fraction := if s.fraction.isEmpty then [] else '.' :: s.fraction
  let exponent := s.exponent.elim [] fun e =>
    'e' :: if showsPlus && 0 < e then '+' :: intText e else intText e
  s.whole ++ fraction ++ exponent

/-- Digits around a decimal point, filled up with zeros. -/
def Decimal.spellPositional (d : Decimal) (showsPoint : Bool) : Spelling :=
  if d.exponent < 0 then
    ⟨['0'], List.replicate ((-d.exponent).toNat - 1) '0' ++ d.digits, none⟩
  else
    let wholeLength := d.exponent.toNat + 1
    let whole := d.digits.take wholeLength ++ List.replicate (wholeLength - d.digits.length) '0'
    let fraction := d.digits.drop wholeLength
    ⟨whole, if fraction.isEmpty && showsPoint then ['0'] else fraction, none⟩

/-- One digit before the point, and a power of ten. -/
def Decimal.spellWithExponent (d : Decimal) : Spelling :=
  ⟨d.digits.take 1, d.digits.drop 1, some d.exponent⟩

/-- The spelling of the double `m · 2 ^ q`. -/
def Notation.spell (n : Notation) (m : Nat) (q : Int) : Spelling :=
  let d := Decimal.shortest n.tie m q
  if n.positional d.exponent then d.spellPositional n.showsPoint else d.spellWithExponent

/-- The text of a double. -/
def Notation.write (n : Notation) (x : Float) : String :=
  match Binary.ofFloat x with
  | .nan => n.nan
  | .infinite negative => if negative then "-" ++ n.infinity else n.infinity
  | .finite negative m q =>
    let body := (n.spell m q).text n.showsPlus
    String.ofList (if negative then '-' :: body else body)

end GraphTables.Numeral
