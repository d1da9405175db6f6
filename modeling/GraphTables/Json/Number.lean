import GraphTables.Numeral.Notation
import GraphTables.Numeral.Reading

namespace GraphTables.Json

open Numeral

/-- A number of a serialized request as it is spelt. -/
structure Number where
  negative : Bool
  spelling : Spelling
deriving DecidableEq

namespace Number

/-- Doubles in serialized requests: at least one decimal, an exponent with its sign below `1e-5` and
from `1e16` on, and ties to the even digit. -/
def jsonNotation : Notation where
  positional := fun e => -6 < e && e < 16
  showsPoint := true
  showsPlus := true
  tie := .toEven
  nan := "null"
  infinity := "null"

/-- The characters of a number. -/
def text (n : Number) : List Char :=
  let body := n.spelling.text jsonNotation.showsPlus
  if n.negative then '-' :: body else body

def ofInt (i : Int) : Number := ⟨i < 0, { whole := digits i.natAbs }⟩

/-- The number of a finite double. -/
def ofFloat? (x : Float) : Option Number :=
  match Binary.ofFloat x with
  | .finite negative m q => some ⟨negative, jsonNotation.spell m q⟩
  | .nan => none
  | .infinite _ => none

/-- Read the digits after a point, if there is one. -/
def readFraction? : List Char → Option (List Char × List Char)
  | '.' :: cs =>
    let (ds, rest) := spanDigits cs
    if ds.isEmpty then none else some (ds, rest)
  | cs => some ([], cs)

/-- Read a power of ten, if there is one. -/
def readPower? : List Char → Option (Option Int × List Char)
  | [] => some (none, [])
  | c :: cs =>
    if c = 'e' ∨ c = 'E' then
      let (negative, cs) :=
        match cs with
        | '-' :: ds => (true, ds)
        | '+' :: ds => (false, ds)
        | ds => (false, ds)
      let (ds, rest) := spanDigits cs
      (readDigits? ds).map fun (n : Nat) => (some (if negative then -(n : Int) else n), rest)
    else some (none, c :: cs)

/-- Read a number and leave the rest of the text. A zero is not followed by a digit. -/
def read? (cs : List Char) : Option (Number × List Char) := do
  let (negative, cs) :=
    match cs with
    | '-' :: ds => (true, ds)
    | ds => (false, ds)
  let (whole, cs) := spanDigits cs
  if whole.isEmpty || (whole.head? == some '0' && whole.length != 1) then none
  else
    let (fraction, cs) ← readFraction? cs
    let (exponent, cs) ← readPower? cs
    some (⟨negative, whole, fraction, exponent⟩, cs)

/-- The integer a number stands for. A number with a point or a power of ten stands for none, and
neither does a zero with a sign. -/
def int? (n : Number) : Option Int :=
  if n.spelling.fraction.isEmpty && n.spelling.exponent.isNone then
    let m := Nat.ofDigitChars 10 n.spelling.whole 0
    if n.negative then if m = 0 then none else some (-(m : Int)) else some m
  else none

/-- A number as a signed integer of 64 bits. -/
def int64? (n : Number) : Option Int64 := n.int?.bind Numeral.int64?

/-- A number as an unsigned integer of 64 bits. -/
def uint64? (n : Number) : Option UInt64 :=
  n.int?.bind fun i => if 0 ≤ i ∧ i < UInt64.size then some (.ofNat i.toNat) else none

/-- Take up digits as long as the integer fits 64 bits; the digits left over remain. -/
def takeDigits (m : Nat) : List Char → Nat × List Char
  | [] => (m, [])
  | c :: cs =>
    let next := 10 * m + (c.toNat - '0'.toNat)
    if next < UInt64.size then takeDigits next cs else (m, c :: cs)

/-- Divide by `10 ^ k`, in steps of at most `10 ^ 308`. -/
def divideByPower (x : Float) (k : Nat) : Float :=
  if k ≤ 308 then x / Float.ofScientific 1 false k
  else if x == 0 then x
  else divideByPower (x / Float.ofScientific 1 false 308) (k - 308)
termination_by k
decreasing_by omega

/-- The double for `m · 10 ^ e`, unless it is too large. -/
def scale? (m : Nat) (e : Int) : Option Float :=
  let x := Float.ofScientific m false 0
  if e < 0 then some (divideByPower x e.natAbs)
  else if m = 0 then some x
  else if 308 < e then none
  else
    let y := x * Float.ofScientific 1 false e.toNat
    if y.isInf then none else some y

/-- The double a number stands for, unless it is too large. The leading digits that fit 64 bits are taken as
an integer, which is then multiplied or divided by a power of ten. Each step is rounded, so the result can
miss the nearest double by a little. -/
def float? (n : Number) : Option Float := do
  let (m, left) := takeDigits 0 n.spelling.whole
  let (m, unread) := takeDigits m n.spelling.fraction
  let e := (left.length : Int) - (n.spelling.fraction.length - unread.length)
  let x ← scale? m (e + n.spelling.exponent.getD 0)
  some (if n.negative then -x else x)

end Number

end GraphTables.Json
