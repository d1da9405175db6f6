import GraphTables.Json.Reading
import GraphTables.SortedMap

namespace GraphTables.Json

/-- A serialized form of a type: how a value is written as a tree, and which trees are read back. -/
structure Form (α : Type) where
  toTree : α → Tree
  /-- Read a tree in which arrays and objects may stand in one another as deep as the bound says. What is
  not read, as the members of an object that its type does not know, may nest as deep as it likes. -/
  ofTree? : Nat → Tree → Option α

/-- How deep arrays and objects may stand in one another. -/
def nestingBound : Nat := 127

namespace Form

variable {α β κ ν : Type}

/-- The serialized text of a value. -/
def write (f : Form α) (a : α) : String := String.ofList (f.toTree a).render

/-- The value of a serialized text. -/
def read? (f : Form α) (s : String) : Option α := (Tree.read? s).bind (f.ofTree? nestingBound)

def text : Form String where
  toTree s := .text (some s)
  ofTree?
    | _, .text s => s
    | _, _ => none

def bool : Form Bool where
  toTree b := .bool b
  ofTree?
    | _, .bool b => some b
    | _, _ => none

def int64 : Form Int64 where
  toTree i := .number (.ofInt i.toInt)
  ofTree?
    | _, .number n => n.int64?
    | _, _ => none

def uint64 : Form UInt64 where
  toTree n := .number (.ofInt n.toNat)
  ofTree?
    | _, .number n => n.uint64?
    | _, _ => none

/-- Doubles; what is no finite number is written as null and cannot be read. -/
def float : Form Float where
  toTree x := ((Number.ofFloat? x).map .number).getD .null
  ofTree?
    | _, .number n => n.float?
    | _, _ => none

/-- A value or null. -/
def option (f : Form α) : Form (Option α) where
  toTree a := (a.map f.toTree).getD .null
  ofTree?
    | _, .null => some none
    | bound, t => (f.ofTree? bound t).map some

/-- An array. -/
def list (f : Form α) : Form (List α) where
  toTree l := .array (l.map f.toTree)
  ofTree?
    | bound + 1, .array items => items.mapM (f.ofTree? bound)
    | _, _ => none

/-- An array of two items. -/
def pair (f : Form α) (g : Form β) : Form (α × β) where
  toTree p := .array [f.toTree p.1, g.toTree p.2]
  ofTree?
    | bound + 1, .array [a, b] => do some (← f.ofTree? bound a, ← g.ofTree? bound b)
    | _, _ => none

/-- The name of one of several values; an object with null under the name is read too. -/
def named (all : List α) (name : α → String) : Form α where
  toTree a := .text (some (name a))
  ofTree?
    | _, .text (some s) => all.find? (name · == s)
    | _ + 1, .object [(some s, .null)] => all.find? (name · == s)
    | _, _ => none

/-- An object whose names are keys of a map. Of several members of one name the last one counts. -/
def map [Ord κ] [Std.TransOrd κ] (all : List κ) (name : κ → String) (f : Form ν) :
    Form (SortedMap κ ν) where
  toTree m := .object (m.entries.map fun e => (some (name e.1), f.toTree e.2))
  ofTree?
    | bound + 1, .object members =>
      (members.mapM fun (m : Option String × Tree) => do
        let k ← m.1.bind fun s => all.find? (name · == s)
        let v ← f.ofTree? bound m.2
        some (k, v)).map SortedMap.ofList
    | _, _ => none

end Form

namespace Tree

/-- An object with the given members. -/
def record (members : List (String × Tree)) : Tree :=
  .object (members.map fun m => (some m.1, m.2))

/-- An object with one member. -/
def tagged (name : String) (t : Tree) : Tree := record [(name, t)]

/-- The name and value of an object with one member, and the bound that is left for the value. -/
def tagged? : Nat → Tree → Option (String × Tree × Nat)
  | bound + 1, .object [(some name, t)] => some (name, t, bound)
  | _, _ => none

/-- The value of each field of a record, in order, and the bound that is left for them. The fields
are members of an object, which may have others, but not two for one field; or they are the items of
an array, all of them or, where fields can be left out, the first ones. -/
def fields? (names : List String) (openEnded : Bool) :
    Nat → Tree → Option (List (Option Tree) × Nat)
  | bound + 1, .object members => do
    let members ← members.mapM fun (m : Option String × Tree) => m.1.map (·, m.2)
    let known := members.filter fun m => names.contains m.1
    if (known.map (·.1)).Nodup then some (names.map fun name => known.lookup name, bound) else none
  | bound + 1, .array items =>
    if items.length = names.length ∨ (openEnded ∧ items.length < names.length) then
      some (names.mapIdx fun i _ => items[i]?, bound)
    else none
  | _, _ => none

end Tree

/-- Read a field that has to be there. -/
def Form.required {α : Type} (f : Form α) (bound : Nat) (field : Option Tree) : Option α :=
  field.bind (f.ofTree? bound)

/-- Read a field that has a value of its own if it is not there. -/
def Form.orElse {α : Type} (f : Form α) (bound : Nat) (default : α) (field : Option Tree) : Option α :=
  match field with
  | some t => f.ofTree? bound t
  | none => some default

end GraphTables.Json
