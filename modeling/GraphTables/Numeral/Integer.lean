namespace GraphTables.Numeral

/-- The decimal digits of a natural number, without leading zeros. -/
def digits (n : Nat) : List Char := Nat.toDigits 10 n

/-- The value of a non-empty list of decimal digits; any other character is refused. -/
def readDigits? (cs : List Char) : Option Nat :=
  if !cs.isEmpty && cs.all Char.isDigit then some (Nat.ofDigitChars 10 cs 0) else none

theorem isDigit_of_mem_digits {n : Nat} {c : Char} (h : c ∈ digits n) : c.isDigit = true :=
  Nat.isDigit_of_mem_toDigits (by decide) (by decide) h

theorem digits_ne_nil (n : Nat) : digits n ≠ [] := Nat.toDigits_ne_nil

theorem readDigits?_digits (n : Nat) : readDigits? (digits n) = some n := by
  have hall : (digits n).all Char.isDigit = true :=
    List.all_eq_true.2 fun _ => isDigit_of_mem_digits
  rw [readDigits?, hall, List.isEmpty_eq_false_iff.2 (digits_ne_nil n), digits,
    Nat.ofDigitChars_toDigits (by decide) (by decide)]
  rfl

/-- The digits of a number, after a minus sign if it is negative. -/
def intText : Int → List Char
  | .ofNat n => digits n
  | .negSucc n => '-' :: digits (n + 1)

/-- Read digits with at most one sign before them. -/
def readInt? : List Char → Option Int
  | '-' :: cs => (readDigits? cs).map fun n => -(n : Int)
  | '+' :: cs => (readDigits? cs).map fun n => (n : Int)
  | cs => (readDigits? cs).map fun n => (n : Int)

theorem readInt?_intText (i : Int) : readInt? (intText i) = some i := by
  cases i with
  | negSucc n => simp [intText, readInt?, readDigits?_digits, Int.negSucc_eq]
  | ofNat n =>
    have hhead : ∀ {c cs}, digits n = c :: cs → c.isDigit = true := fun h =>
      isDigit_of_mem_digits (n := n) (by simp [h])
    rw [intText, readInt?.eq_def]
    split
    next h => exact absurd (hhead h) (by decide)
    next h => exact absurd (hhead h) (by decide)
    next => simp [readDigits?_digits]

/-- A number as a signed 64-bit one, if it fits. -/
def int64? (i : Int) : Option Int64 :=
  if Int64.minValue.toInt ≤ i ∧ i ≤ Int64.maxValue.toInt then some (Int64.ofInt i) else none

theorem int64?_toInt (i : Int64) : int64? i.toInt = some i := by
  rw [int64?, if_pos ⟨Int64.minValue_le_toInt i, Int64.toInt_le i⟩, Int64.ofInt_toInt]

def writeInt64 (i : Int64) : String := String.ofList (intText i.toInt)

/-- Read a signed 64-bit number; a text whose value has more bits is refused. -/
def readInt64? (s : String) : Option Int64 := (readInt? s.toList).bind int64?

theorem readInt64?_writeInt64 (i : Int64) : readInt64? (writeInt64 i) = some i := by
  rw [readInt64?, writeInt64, String.toList_ofList, readInt?_intText, Option.bind_some,
    int64?_toInt]

end GraphTables.Numeral
