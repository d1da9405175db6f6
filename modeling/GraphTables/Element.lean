import GraphTables.Column
import GraphTables.ElementId
import GraphTables.Kind
import GraphTables.SortedMap

namespace GraphTables

/-- One property of an element: the columns of its key and of its value, and both texts. -/
structure Property where
  nameColumn : Column
  name : String
  valueColumn : Column
  value : String
deriving DecidableEq

namespace Property

/-- The reserved property key of the presence mark. -/
def presenceName : String := "~exist"

/-- The presence mark. Writing it makes an element without properties; a deletion that has it
removes the whole element. -/
def presence : Property := ⟨.propertyKey, presenceName, .propertyValue, ""⟩

/-- The property is a presence mark, whatever its value. -/
def isPresence (p : Property) : Bool := p.nameColumn == .propertyKey && p.name == presenceName

end Property

/-- A request to write or to delete an element. -/
structure Request where
  id : ElementId
  /-- Texts of key columns. -/
  keys : SortedMap Column String
  /-- The properties, in the order given. -/
  cells : List Property
deriving DecidableEq

namespace Request

/-- Some property of the request is a presence mark. -/
def hasPresence (r : Request) : Bool := r.cells.any Property.isPresence

/-- The request has neither keys nor properties. -/
def isEmpty (r : Request) : Bool := r.keys.isEmpty && r.cells.isEmpty

end Request

/-- An element read from its table. -/
structure Element where
  kind : Kind
  /-- Texts of the columns that hold no property. -/
  columns : SortedMap Column String
  cells : List Property
deriving DecidableEq

namespace Element

/-- The value of the first property of a name. -/
def property? (e : Element) (name : String) : Option String :=
  (e.cells.find? (·.name == name)).map (·.value)

/-- Both describe one element: kind and columns agree. -/
def sameIdentity (a b : Element) : Bool := a.kind == b.kind && a.columns == b.columns

end Element

/-- Faults of requests, identifiers and column names. -/
inductive ElementError where
  /-- A request has neither keys nor properties. -/
  | emptyRequest (id : ElementId)
  /-- A column is not known, or not known in its table. -/
  | unknownColumn (name : String)
  /-- An identifier has too few or too many parts. -/
  | invalidId (id : ElementId) (expected actual : Nat)
deriving DecidableEq

def ElementError.message : ElementError → String
  | emptyRequest id => s!"row {id.display} has no keys and no cells"
  | unknownColumn name => s!"unknown column: {name}"
  | invalidId id expected actual =>
    s!"id '{id.display}' has {actual} part(s), but the layout expects {expected}"

/-- A request that has a key or a property. -/
def Request.requireContent (r : Request) : Except ElementError Unit :=
  if r.isEmpty then .error (.emptyRequest r.id) else .ok ()

/-- The column of a name, whatever the case of its ASCII letters. -/
def Column.ofText (s : String) : Except ElementError Column :=
  match Column.ofText? s with
  | some c => .ok c
  | none => .error (.unknownColumn s)

/-- The columns that identify an element of a table. -/
structure IdShape where
  columns : List Column
deriving DecidableEq

namespace IdShape

/-- The texts of the identity columns. A single column takes the identifier whole, several columns
take one part each. -/
def values (shape : IdShape) (id : ElementId) : Except ElementError (List String) :=
  if shape.columns.length = 1 then .ok [id.text]
  else
    let parts := id.parts
    if parts.length = shape.columns.length then .ok parts
    else .error (.invalidId id shape.columns.length parts.length)

/-- The identity columns with their texts. -/
def pairs (shape : IdShape) (id : ElementId) : Except ElementError (List (Column × String)) :=
  (shape.values id).map shape.columns.zip

/-- There is one text for every identity column. -/
theorem length_values {shape : IdShape} {id : ElementId} {vs : List String}
    (h : shape.values id = .ok vs) : vs.length = shape.columns.length := by
  unfold values at h
  split at h
  · cases h; simp_all
  · simp only at h
    split at h
    · cases h; assumption
    · cases h

end IdShape

end GraphTables
