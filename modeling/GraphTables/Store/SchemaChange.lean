import GraphTables.Text.Basic
import GraphTables.Text.Lowercase

namespace GraphTables

/-- The shape of a table: its columns in order, and the columns that key its rows. -/
structure TableSchema where
  name : String
  columns : List String
  partitionKey : List String
  clusteringKey : List String
deriving DecidableEq

/-- The columns whose texts together key a row. -/
def TableSchema.primaryKey (s : TableSchema) : List String := s.partitionKey ++ s.clusteringKey

/-- A change of the tables or indexes of a store. -/
inductive SchemaChange where
  | createTable (schema : TableSchema) (ifAbsent : Bool)
  | createIndex (name table column : String)
  | dropTable (name : String) (ifPresent : Bool)
deriving DecidableEq

/-- Why a text is no schema change. -/
inductive SchemaFault where
  | unsupported
  | missingOpen
  | missingClose
  | unbalanced
  | missingTableName
  | emptyColumn
  | missingPrimaryKey
  | malformedPrimaryKey
  | emptyPrimaryKey
  | malformedPartitionKey
  | emptyPartitionKey
  | missingIndexName
  | missingOn
  | malformedTableName
deriving DecidableEq

def SchemaFault.message : SchemaFault → String
  | unsupported => "unsupported statement"
  | missingOpen => "missing '('"
  | missingClose => "missing ')'"
  | unbalanced => "unbalanced parentheses"
  | missingTableName => "missing table name"
  | emptyColumn => "empty column definition"
  | missingPrimaryKey => "missing PRIMARY KEY"
  | malformedPrimaryKey => "malformed PRIMARY KEY"
  | emptyPrimaryKey => "empty PRIMARY KEY"
  | malformedPartitionKey => "malformed partition key"
  | emptyPartitionKey => "empty partition key"
  | missingIndexName => "missing index name"
  | missingOn => "missing ON"
  | malformedTableName => "malformed table name"

namespace SchemaChange

open Text

/-- The rest of a text after a keyword it starts with, in any case of letters, and the blanks that
follow. The keyword need not end where a word does. -/
def stripKeyword? (keyword : String) (cs : List Char) : Option (List Char) :=
  let n := keyword.toList.length
  if foldAscii (cs.take n) = foldAscii keyword.toList then some (trimStart (cs.drop n)) else none

/-- The text up to the first comma outside parentheses, and the pieces after it. A closing
parenthesis without an open one changes nothing. -/
def splitCommas (depth : Nat) : List Char → List Char × List (List Char)
  | [] => ([], [])
  | c :: cs =>
    if c = ',' ∧ depth = 0 then
      let (piece, pieces) := splitCommas depth cs
      ([], piece :: pieces)
    else
      let depth := if c = '(' then depth + 1 else if c = ')' then depth - 1 else depth
      let (piece, pieces) := splitCommas depth cs
      (c :: piece, pieces)

/-- The pieces between commas outside parentheses, without the blanks around them. A last piece of
blanks alone is left out. -/
def topLevelPieces (cs : List Char) : List (List Char) :=
  let (piece, pieces) := splitCommas 0 cs
  let pieces := (piece :: pieces).map trim
  if pieces.getLast?.any List.isEmpty then pieces.dropLast else pieces

/-- The part of a text before its last closing parenthesis. -/
def beforeLastClose (cs : List Char) : List Char :=
  ((cs.reverse.dropWhile (· != ')')).drop 1).reverse

/-- Split `name(body)` at the first opening and the last closing parenthesis. -/
def splitParenthesized (cs : List Char) : Except SchemaFault (List Char × List Char) :=
  let (name, rest) := cs.span (· != '(')
  match rest with
  | [] => .error .missingOpen
  | _ :: body =>
    if ')' ∈ body then .ok (trim name, beforeLastClose body)
    else if ')' ∈ name then .error .unbalanced
    else .error .missingClose

/-- The text inside parentheses that stand at both its ends. -/
def unwrap? : List Char → Option (List Char)
  | '(' :: cs => if cs.getLast? = some ')' then some cs.dropLast else none
  | _ => none

/-- A name in small letters. -/
def readName (cs : List Char) : String := lowercase (String.ofList cs)

/-- The partition key and the clustering columns of `(first, rest…)`. The partition key is one
column, or several in parentheses of their own. -/
def readKey (cs : List Char) : Except SchemaFault (List String × List String) :=
  match unwrap? (trim cs) with
  | none => .error .malformedPrimaryKey
  | some inner =>
    match topLevelPieces inner with
    | [] => .error .emptyPrimaryKey
    | first :: rest =>
      if first.head? = some '(' then
        match unwrap? first with
        | none => .error .malformedPartitionKey
        | some group =>
          match topLevelPieces group with
          | [] => .error .emptyPartitionKey
          | columns => .ok (columns.map readName, rest.map readName)
      else .ok ([readName first], rest.map readName)

/-- The columns among the parts of a table's body, and its key if a part gives one. Of several keys
the last one counts. -/
def readParts : List (List Char) →
    Except SchemaFault (List String × Option (List String × List String))
  | [] => .ok ([], none)
  | part :: parts =>
    match stripKeyword? "PRIMARY KEY" part with
    | some spec => do
      let key ← readKey spec
      let (columns, later) ← readParts parts
      .ok (columns, later <|> some key)
    | none =>
      match (spanWord (trimStart part)).1 with
      | [] => .error .emptyColumn
      | word => do
        let (columns, key) ← readParts parts
        .ok (readName word :: columns, key)

/-- Read what follows `CREATE TABLE`. -/
def readCreateTable (cs : List Char) : Except SchemaFault SchemaChange := do
  let (ifAbsent, cs) :=
    match stripKeyword? "IF NOT EXISTS" cs with
    | some rest => (true, rest)
    | none => (false, cs)
  let (name, body) ← splitParenthesized cs
  if name.isEmpty then .error .missingTableName
  else
    match ← readParts (topLevelPieces body) with
    | (_, none) => .error .missingPrimaryKey
    | (columns, some (partitionKey, clusteringKey)) =>
      .ok (.createTable ⟨readName name, columns, partitionKey, clusteringKey⟩ ifAbsent)

/-- Read what follows `CREATE INDEX`. -/
def readCreateIndex (cs : List Char) : Except SchemaFault SchemaChange :=
  let (name, rest) := spanWord cs
  if name.isEmpty then .error .missingIndexName
  else
    match stripKeyword? "ON" (trimStart rest) with
    | none => .error .missingOn
    | some target => do
      let (table, column) ← splitParenthesized target
      .ok (.createIndex (readName name) (readName table) (readName (trim column)))

/-- Read what follows `DROP TABLE`. -/
def readDropTable (cs : List Char) : Except SchemaFault SchemaChange :=
  let (ifPresent, name) :=
    match stripKeyword? "IF EXISTS" cs with
    | some rest => (true, rest)
    | none => (false, cs)
  if name.isEmpty || name.any isBlank then .error .malformedTableName
  else .ok (.dropTable (readName name) ifPresent)

/-- The text without the blanks around it and the semicolons it ends with. -/
def statementBody (cs : List Char) : List Char :=
  trim ((trim cs).reverse.dropWhile (· == ';')).reverse

/-- Read a schema change. Three forms are understood, in any case of letters:

* `CREATE TABLE [IF NOT EXISTS] table(column type, …, PRIMARY KEY((column, …), column, …));`
* `CREATE INDEX name ON table(column);`
* `DROP TABLE [IF EXISTS] table;`

Names are lower-cased and types are passed over. -/
def read (text : String) : Except SchemaFault SchemaChange :=
  let cs := statementBody text.toList
  match stripKeyword? "CREATE TABLE" cs with
  | some rest => readCreateTable rest
  | none =>
    match stripKeyword? "CREATE INDEX" cs with
    | some rest => readCreateIndex rest
    | none =>
      match stripKeyword? "DROP TABLE" cs with
      | some rest => readDropTable rest
      | none => .error .unsupported

end SchemaChange

end GraphTables
