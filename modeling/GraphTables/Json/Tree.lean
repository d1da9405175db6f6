import GraphTables.Json.Number
import GraphTables.Json.Quoted

namespace GraphTables.Json

/-- A serialized value. A text with half a surrogate pair in it is no text, but it may stand where
nothing reads it. -/
inductive Tree where
  | null
  | bool (b : Bool)
  | number (n : Number)
  | text (s : Option String)
  | array (items : List Tree)
  | object (members : List (Option String × Tree))

namespace Tree

/-- The characters of a text. -/
def renderText (s : Option String) : List Char := Quoted.write (s.getD "")

mutual

/-- The text of a tree, without blanks. -/
def render : Tree → List Char
  | null => ['n', 'u', 'l', 'l']
  | bool b => if b then ['t', 'r', 'u', 'e'] else ['f', 'a', 'l', 's', 'e']
  | number n => n.text
  | text s => renderText s
  | array items => '[' :: renderItems items
  | object members => '\x7b' :: renderMembers members

/-- The items of an array and its closing bracket. -/
def renderItems : List Tree → List Char
  | [] => [']']
  | [t] => t.render ++ [']']
  | t :: rest => t.render ++ ',' :: renderItems rest

/-- The members of an object and its closing brace. -/
def renderMembers : List (Option String × Tree) → List Char
  | [] => ['\x7d']
  | [(k, t)] => renderText k ++ ':' :: t.render ++ ['\x7d']
  | (k, t) :: rest => renderText k ++ ':' :: t.render ++ ',' :: renderMembers rest

end

end Tree

end GraphTables.Json
