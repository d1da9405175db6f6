namespace GraphTables.Numeral

/-- The value of a double: `finite negative m q` is `± m · 2 ^ q`. -/
inductive Binary where
  | nan
  | infinite (negative : Bool)
  | finite (negative : Bool) (significand : Nat) (exponent : Int)
deriving DecidableEq

/-- The leading bit of the significand of a normal double; only the 52 bits below it are kept. -/
def leadingBit : Nat := 0x10000000000000

/-- Take a double apart into sign, significand and exponent. -/
def Binary.ofFloat (x : Float) : Binary :=
  let bits : Nat := x.toBits.toNat
  let negative := bits.testBit 63
  let exponent : Nat := bits / leadingBit % 2048
  let fraction : Nat := bits % leadingBit
  if exponent = 2047 then
    if fraction = 0 then .infinite negative else .nan
  else if exponent = 0 then .finite negative fraction (-1074)
  else .finite negative (leadingBit + fraction) ((exponent : Int) - 1075)

/-- Which of two equally near decimals is taken. -/
inductive Tie where
  | up
  | toEven
deriving DecidableEq

/-- A decimal `d.ddd… · 10 ^ exponent`: its digits, the first of which counts `10 ^ exponent`. -/
structure Decimal where
  digits : List Char
  exponent : Int
deriving DecidableEq

namespace Shortest

/-- The length `m · 2 ^ q` in units of `2 ^ -1076 · 10 ^ -345`. The unit divides every end of a rounding
interval and every point of a grid of at most seventeen digits. -/
def ofBinary (m : Nat) (q : Int) : Nat := m * Nat.pow 2 (q + 1076).toNat * Nat.pow 10 345

/-- The length `d · 10 ^ e` in units. -/
def ofDecimal (d : Nat) (e : Int) : Nat := d * Nat.pow 10 (e + 345).toNat * Nat.pow 2 1076

/-- The reals that round to a double, in units: its value, the two ends, and whether they belong. -/
structure Interval where
  value : Nat
  low : Nat
  high : Nat
  closed : Bool

/-- The rounding interval of `m · 2 ^ q`. Below a power of two the neighbour is half as far. -/
def Interval.of (m : Nat) (q : Int) : Interval where
  value := ofBinary m q
  low := ofBinary (4 * m - if m = leadingBit ∧ q ≠ -1074 then 1 else 2) (q - 2)
  high := ofBinary (4 * m + 2) (q - 2)
  closed := m % 2 = 0

def Interval.contains (i : Interval) (x : Nat) : Bool :=
  if i.closed then i.low ≤ x && x ≤ i.high else i.low < x && x < i.high

/-- The power of ten of the leading digit of a positive length. -/
def leadingExponent (x : Nat) : Int :=
  (Nat.toDigits 10 (x / Nat.pow 2 1076)).length - 346

/-- The nearer of the two neighbours of the value on the grid of step `10 ^ e`, if one of them
stands for the double. -/
def onGrid (tie : Tie) (i : Interval) (e : Int) : Option Nat :=
  let below := i.value / ofDecimal 1 e
  let above := below + 1
  let toBelow := i.value - ofDecimal below e
  let toAbove := ofDecimal above e - i.value
  match i.contains (ofDecimal below e), i.contains (ofDecimal above e) with
  | true, true =>
    if toBelow < toAbove then some below
    else if toAbove < toBelow then some above
    else
      match tie with
      | .up => some above
      | .toEven => some (if below % 2 = 0 then below else above)
  | true, false => some below
  | false, true => some above
  | false, false => none

/-- The coefficient and power of ten found on the coarsest grid, of one to seventeen digits. -/
def search (tie : Tie) (m : Nat) (q : Int) : Nat × Int :=
  let i := Interval.of m q
  let lead := leadingExponent i.value
  ((List.range 17).findSome? fun n : Nat =>
    (onGrid tie i (lead - n)).map (·, lead - n)).getD (0, 0)

end Shortest

/-- The digits of `d · 10 ^ e` without trailing zeros. -/
def Decimal.of (d : Nat) (e : Int) : Decimal :=
  let all := Nat.toDigits 10 d
  let kept := (all.reverse.dropWhile (· == '0')).reverse
  { digits := if kept.isEmpty then ['0'] else kept, exponent := e + all.length - 1 }

/-- The shortest decimal for `m · 2 ^ q`: of the decimals that round to it, those with the fewest digits, and
of these the nearest. -/
def Decimal.shortest (tie : Tie) (m : Nat) (q : Int) : Decimal :=
  if m = 0 then ⟨['0'], 0⟩
  else
    let found := Shortest.search tie m q
    Decimal.of found.1 found.2

end GraphTables.Numeral
