import GraphTables.Text.CaseData

namespace GraphTables.Text

/-- The code point lies in one of the ranges. -/
def inRanges (ranges : List (Nat × Nat)) (c : Char) : Bool :=
  ranges.any fun r => r.1 ≤ c.toNat && c.toNat ≤ r.2

/-- A letter with case, and not a mark or modifier. -/
def isCased (c : Char) : Bool := inRanges casedRanges c

/-- A character that the search for a neighbouring cased letter passes over. -/
def isCaseIgnorable (c : Char) : Bool := inRanges caseIgnorableRanges c

/-- The small letters of one character, a capital sigma taken out of context. -/
def lowercaseChar (c : Char) : List Char :=
  if c = '\u0130' then ['i', '\u0307']
  else
    match capitalRuns.find? (·.contains c.toNat) with
    | some run => [Char.ofNat (run.target + (c.toNat - run.first))]
    | none => [c]

/-- The first character that is not case-ignorable is a cased letter. -/
def startsCased (cs : List Char) : Bool :=
  (cs.dropWhile isCaseIgnorable).head?.any isCased

/-- Lower-case a text, given the characters before it, last one first. -/
def lowercaseFrom (before : List Char) : List Char → List Char
  | [] => []
  | c :: rest =>
    (if c = 'Σ' then [if startsCased before && !startsCased rest then 'ς' else 'σ']
     else lowercaseChar c) ++ lowercaseFrom (c :: before) rest

/-- The text in small letters, by the Unicode default algorithm: the dotted capital I goes to two characters,
and a capital sigma to the final form at the end of a word. -/
def lowercase (s : String) : String := String.ofList (lowercaseFrom [] s.toList)

example : lowercase "ΟΔΟΣ Σ İX" = "οδος σ i̇x" := by decide +kernel

end GraphTables.Text
