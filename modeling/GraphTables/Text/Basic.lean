namespace GraphTables.Text

/-- The characters with ASCII capitals made small; all others stay. -/
def foldAscii (cs : List Char) : List Char := cs.map Char.toLower

/-- The texts differ at most in the case of ASCII letters. -/
def sameIgnoringCase (a b : String) : Bool := foldAscii a.toList == foldAscii b.toList

@[simp] theorem sameIgnoringCase_self (a : String) : sameIgnoringCase a a = true := by
  simp [sameIgnoringCase]

theorem sameIgnoringCase_comm (a b : String) : sameIgnoringCase a b = sameIgnoringCase b a := by
  rw [sameIgnoringCase, sameIgnoringCase, Bool.beq_comm]

/-- The words run together, the first letter of each made a capital; `capital` says that a word
starts here. -/
def camelFrom (capital : Bool) : List Char → List Char
  | [] => []
  | '_' :: cs => camelFrom true cs
  | c :: cs => (if capital then c.toUpper else c) :: camelFrom false cs

/-- A name of words joined by low lines as one of words with capitals: `two_words` becomes `TwoWords`. -/
def camelCase (s : String) : String := String.ofList (camelFrom true s.toList)

/-- The single quote. -/
def singleQuote : Char := '\x27'

/-- The characters with every single quote written twice. -/
def doubleQuotes : List Char → List Char
  | [] => []
  | c :: cs =>
    if c = singleQuote then singleQuote :: singleQuote :: doubleQuotes cs else c :: doubleQuotes cs

/-- The text between single quotes, every quote in it written twice. -/
def quote (s : String) : String :=
  String.ofList (singleQuote :: (doubleQuotes s.toList ++ [singleQuote]))

/-- A character with the Unicode property White_Space. -/
def isBlank (c : Char) : Bool :=
  let n := c.toNat
  (9 ≤ n && n ≤ 13) || n == 0x20 || n == 0x85 || n == 0xA0 || n == 0x1680
    || (0x2000 ≤ n && n ≤ 0x200A) || n == 0x2028 || n == 0x2029 || n == 0x202F || n == 0x205F
    || n == 0x3000

/-- The text without the blanks it starts with. -/
def trimStart (cs : List Char) : List Char := cs.dropWhile isBlank

/-- The text without the blanks it ends with. -/
def trimEnd (cs : List Char) : List Char := (cs.reverse.dropWhile isBlank).reverse

/-- The text without the blanks around it. -/
def trim (cs : List Char) : List Char := trimEnd (trimStart cs)

/-- The characters up to the first blank, and the rest from that blank on. -/
def spanWord (cs : List Char) : List Char × List Char := cs.span fun c => !isBlank c

end GraphTables.Text
