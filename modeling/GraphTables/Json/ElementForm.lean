import GraphTables.Element
import GraphTables.Json.Form
import GraphTables.Value

namespace GraphTables

open Json

namespace Json.Form

/-- Columns by their names with capitals. -/
def column : Form Column := .named Column.all Column.camelName

/-- Kinds by their names with capitals. -/
def kind : Form Kind := .named Kind.all Kind.camelName

/-- Identifiers by their canonical text. -/
def elementId : Form ElementId where
  toTree id := .text (some id.text)
  ofTree? bound t := (text.ofTree? bound t).map ElementId.mk

def direction : Form Direction :=
  .named [.out, .into, .both] fun
    | .out => "Out"
    | .into => "In"
    | .both => "Both"

/-- Values under the name of their type. -/
def value : Form Value where
  toTree
    | .text s => .tagged "Text" (text.toTree s)
    | .int i => .tagged "Int" (int64.toTree i)
    | .float x => .tagged "Float" (float.toTree x)
    | .bool b => .tagged "Bool" (bool.toTree b)
    | .id id => .tagged "Id" (elementId.toTree id)
    | .symbol s => .tagged "Symbol" (text.toTree s)
  ofTree? bound t := do
    let (name, t, bound) ← t.tagged? bound
    match name with
    | "Text" => (text.ofTree? bound t).map .text
    | "Int" => (int64.ofTree? bound t).map .int
    | "Float" => (float.ofTree? bound t).map .float
    | "Bool" => (bool.ofTree? bound t).map .bool
    | "Id" => (elementId.ofTree? bound t).map .id
    | "Symbol" => (text.ofTree? bound t).map .symbol
    | _ => none

def property : Form Property where
  toTree p := .record [("name_key", column.toTree p.nameColumn), ("name_value", text.toTree p.name),
    ("value_key", column.toTree p.valueColumn), ("value_value", text.toTree p.value)]
  ofTree? bound t := do
    match ← t.fields? ["name_key", "name_value", "value_key", "value_value"] false bound with
    | ([nameColumn, name, valueColumn, value], bound) =>
      some { nameColumn := ← column.required bound nameColumn, name := ← text.required bound name,
             valueColumn := ← column.required bound valueColumn,
             value := ← text.required bound value }
    | _ => none

/-- Maps from columns to texts, by the columns' names with capitals. -/
def columnMap : Form (SortedMap Column String) := .map Column.all Column.camelName text

def request : Form Request where
  toTree r := .record [("id", elementId.toTree r.id), ("keys", columnMap.toTree r.keys),
    ("cells", (list property).toTree r.cells)]
  ofTree? bound t := do
    match ← t.fields? ["id", "keys", "cells"] false bound with
    | ([id, keys, cells], bound) =>
      some { id := ← elementId.required bound id, keys := ← columnMap.required bound keys,
             cells := ← (list property).required bound cells }
    | _ => none

def element : Form Element where
  toTree e := .record [("kind", kind.toTree e.kind), ("columns", columnMap.toTree e.columns),
    ("cells", (list property).toTree e.cells)]
  ofTree? bound t := do
    match ← t.fields? ["kind", "columns", "cells"] false bound with
    | ([kind, columns, cells], bound) =>
      some { kind := ← Form.kind.required bound kind,
             columns := ← columnMap.required bound columns,
             cells := ← (list property).required bound cells }
    | _ => none

end Json.Form

end GraphTables
