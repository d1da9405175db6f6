import GraphTables.Json.ElementForm
import GraphTables.Query.Plan
import GraphTables.Schema.Settings

namespace GraphTables.Json.Form

def relation : Form Relation :=
  .named [.eq, .gt, .gte, .lt, .lte, .neq] fun
    | .eq => "Eq"
    | .gt => "Gt"
    | .gte => "Gte"
    | .lt => "Lt"
    | .lte => "Lte"
    | .neq => "Neq"

def sortDirection : Form SortDirection :=
  .named [.asc, .desc] fun
    | .asc => "Asc"
    | .desc => "Desc"

/-- The tree of a condition. -/
def conditionTree : Condition → Tree
  | .relation column op value =>
    .tagged "Relation" (.record [("key", Form.column.toTree column),
      ("op", Form.relation.toTree op), ("value", Form.value.toTree value)])
  | .and left right => .tagged "And" (.array [conditionTree left, conditionTree right])
  | .or left right => .tagged "Or" (.array [conditionTree left, conditionTree right])

/-- The condition of a tree. A comparison is a record in an object, a combination is an array of two
conditions in an object. -/
def readCondition? : Nat → Tree → Option Condition
  | bound + 2, .object [(some "And", .array [left, right])] => do
    some (.and (← readCondition? bound left) (← readCondition? bound right))
  | bound + 2, .object [(some "Or", .array [left, right])] => do
    some (.or (← readCondition? bound left) (← readCondition? bound right))
  | bound + 1, .object [(some "Relation", t)] => do
    match ← t.fields? ["key", "op", "value"] false bound with
    | ([column, op, value], bound) =>
      some (.relation (← Form.column.required bound column) (← Form.relation.required bound op)
        (← Form.value.required bound value))
    | _ => none
  | _, _ => none

def condition : Form Condition := ⟨conditionTree, readCondition?⟩

def order : Form (Column × SortDirection) := pair column sortDirection

def query : Form Query where
  toTree q := .record [("result_type", kind.toTree q.kind), ("ids", (list elementId).toTree q.ids),
    ("conditions", (list condition).toTree q.conditions), ("orders", (list order).toTree q.orders),
    ("limit", (option uint64).toTree q.limit), ("offset", uint64.toTree q.offset)]
  ofTree? bound t := do
    let names := ["result_type", "ids", "conditions", "orders", "limit", "offset"]
    match ← t.fields? names false bound with
    | ([kind, ids, conditions, orders, limit, offset], bound) =>
      some { kind := ← Form.kind.required bound kind,
             ids := ← (list elementId).required bound ids,
             conditions := ← (list condition).required bound conditions,
             orders := ← (list order).required bound orders,
             limit := ← (option uint64).orElse bound none limit,
             offset := ← uint64.required bound offset }
    | _ => none

/-- The fan-out of a planner as a record of its own. -/
def fanOut : Form UInt64 where
  toTree n := .record [("fan_out_factor", uint64.toTree n)]
  ofTree? bound t := do
    match ← t.fields? ["fan_out_factor"] false bound with
    | ([n], bound) => uint64.required bound n
    | _ => none

def columnType : Form ColumnType := .named ColumnType.all ColumnType.name

/-- Settings; what is left out has its default. -/
def settings : Form Settings where
  toTree s := .record [("fan_out_factor", uint64.toTree s.fanOut),
    ("default_column_type", columnType.toTree s.columnType),
    ("table_prefix", (option text).toTree s.tablePrefix)]
  ofTree? bound t := do
    let names := ["fan_out_factor", "default_column_type", "table_prefix"]
    match ← t.fields? names true bound with
    | ([fanOut, columnType, tablePrefix], bound) =>
      let default : Settings := {}
      some { fanOut := ← uint64.orElse bound default.fanOut fanOut,
             columnType := ← Form.columnType.orElse bound default.columnType columnType,
             tablePrefix := ← (option text).orElse bound default.tablePrefix tablePrefix }
    | _ => none

end GraphTables.Json.Form
