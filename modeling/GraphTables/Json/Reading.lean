import GraphTables.Json.Tree

namespace GraphTables.Json

/-- Leave out the blanks that a text starts with: spaces, tabs and line ends. -/
def skipBlanks (cs : List Char) : List Char :=
  cs.dropWhile fun c => c == ' ' || c == '\t' || c == '\n' || c == '\r'

namespace Tree

/-- The name of a member and the text after the colon. -/
def readName? (cs : List Char) : Option (Option String × List Char) :=
  match skipBlanks cs with
  | '"' :: rest => do
    let (name, rest) ← Quoted.read? rest
    match skipBlanks rest with
    | ':' :: rest => some (name, rest)
    | _ => none
  | _ => none

mutual

/-- Read a value after blanks and leave the rest of the text. Every value is checked against the grammar,
whether or not anything reads it afterwards. The bound is on the values and separators read. -/
def readValue? : Nat → List Char → Option (Tree × List Char)
  | 0, _ => none
  | bound + 1, cs =>
    match skipBlanks cs with
    | 'n' :: 'u' :: 'l' :: 'l' :: rest => some (null, rest)
    | 't' :: 'r' :: 'u' :: 'e' :: rest => some (bool true, rest)
    | 'f' :: 'a' :: 'l' :: 's' :: 'e' :: rest => some (bool false, rest)
    | '"' :: rest => (Quoted.read? rest).map fun r => (text r.1, r.2)
    | '[' :: rest =>
      match skipBlanks rest with
      | ']' :: rest => some (array [], rest)
      | _ => (readItems? bound rest).map fun r => (array r.1, r.2)
    | '\x7b' :: rest =>
      match skipBlanks rest with
      | '\x7d' :: rest => some (object [], rest)
      | _ => (readMembers? bound rest).map fun r => (object r.1, r.2)
    | rest => (Number.read? rest).map fun r => (number r.1, r.2)

/-- Read the items of an array, one at least, and its closing bracket. -/
def readItems? : Nat → List Char → Option (List Tree × List Char)
  | 0, _ => none
  | bound + 1, cs => do
    let (t, rest) ← readValue? bound cs
    match skipBlanks rest with
    | ',' :: rest => (readItems? bound rest).map fun r => (t :: r.1, r.2)
    | ']' :: rest => some ([t], rest)
    | _ => none

/-- Read the members of an object, one at least, and its closing brace. -/
def readMembers? : Nat → List Char → Option (List (Option String × Tree) × List Char)
  | 0, _ => none
  | bound + 1, cs => do
    let (name, rest) ← readName? cs
    let (t, rest) ← readValue? bound rest
    match skipBlanks rest with
    | ',' :: rest => (readMembers? bound rest).map fun r => ((name, t) :: r.1, r.2)
    | '\x7d' :: rest => some ([(name, t)], rest)
    | _ => none

end

/-- Read a text that is one value and blanks. -/
def read? (s : String) : Option Tree :=
  let cs := s.toList
  match readValue? (2 * cs.length + 1) cs with
  | some (t, rest) => if (skipBlanks rest).isEmpty then some t else none
  | none => none

end Tree

end GraphTables.Json
