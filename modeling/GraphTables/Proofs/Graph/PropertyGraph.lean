import GraphTables.Layout
import GraphTables.Proofs.SortedMap

namespace GraphTables

/-- A property graph apart from any table: elements by the texts of their identity columns, each with its
    properties by their keys. An element without properties is no element. -/
structure PropertyGraph where
  elements : SortedMap (List String) (SortedMap String String) := .empty
  nonempty : ∀ id properties, elements.get? id = some properties → properties ≠ .empty := by
    intro id properties h
    cases h
deriving DecidableEq

/-- A change of a property graph. -/
inductive GraphStep where
  | setProperty (id : List String) (name value : String)
  | removeElement (id : List String)
  | removeProperty (id : List String) (name : String)
deriving DecidableEq

private theorem SortedMap.insert_ne_empty {κ ν : Type} [Ord κ] [Std.TransOrd κ] [Std.LawfulEqOrd κ]
    (m : SortedMap κ ν) (k : κ) (v : ν) : m.insert k v ≠ .empty := by
  classical
  intro hempty
  have hget : (m.insert k v).get? k = some v := by rw [get?_insert, if_pos rfl]
  rw [hempty] at hget
  cases hget

namespace PropertyGraph

/-- The value of a property of an element. -/
def property? (g : PropertyGraph) (id : List String) (name : String) : Option String :=
  (g.elements.get? id).bind (·.get? name)

/-- Set a property of an element, which is there afterwards. -/
def setProperty (g : PropertyGraph) (id : List String) (name value : String) : PropertyGraph where
  elements := g.elements.insert id (((g.elements.get? id).getD .empty).insert name value)
  nonempty := by
    intro query properties h
    rw [SortedMap.get?_insert] at h
    split at h
    · cases h
      exact SortedMap.insert_ne_empty _ _ _
    · exact g.nonempty query properties h

/-- Remove the elements that are not wanted. -/
def filter (g : PropertyGraph) (keep : List String → Bool) : PropertyGraph where
  elements := g.elements.filter fun id _ => keep id
  nonempty := by
    intro query properties h
    rw [SortedMap.get?_filter, Option.filter_eq_some_iff] at h
    exact g.nonempty query properties h.1

def removeElement (g : PropertyGraph) (id : List String) : PropertyGraph :=
  g.filter (· != id)

/-- Remove a property of an element, and the element with its last property. -/
def removeProperty (g : PropertyGraph) (id : List String) (name : String) : PropertyGraph :=
  let rest := ((g.elements.get? id).getD .empty).erase name
  if h : rest = .empty then g.removeElement id
  else
    { elements := g.elements.insert id rest
      nonempty := by
        intro query properties hget
        rw [SortedMap.get?_insert] at hget
        split at hget
        · cases hget
          exact h
        · exact g.nonempty query properties hget }

def apply (g : PropertyGraph) : GraphStep → PropertyGraph
  | .setProperty id name value => g.setProperty id name value
  | .removeElement id => g.removeElement id
  | .removeProperty id name => g.removeProperty id name

def applyAll (g : PropertyGraph) (steps : List GraphStep) : PropertyGraph := steps.foldl apply g

/-- The graph that changes one after the other lead to from the empty one. -/
def ofSteps (steps : List GraphStep) : PropertyGraph := ({} : PropertyGraph).applyAll steps

theorem applyAll_append (g : PropertyGraph) (steps later : List GraphStep) :
    g.applyAll (steps ++ later) = (g.applyAll steps).applyAll later := List.foldl_append

theorem property?_setProperty (g : PropertyGraph) (id query : List String) (name value key : String) :
    (g.setProperty id name value).property? query key =
      if query = id ∧ key = name then some value else g.property? query key := by
  unfold property? setProperty
  rw [SortedMap.get?_insert]
  by_cases hid : query = id
  · rw [if_pos hid, Option.bind_some, SortedMap.get?_insert]
    by_cases hname : key = name
    · rw [if_pos hname, if_pos ⟨hid, hname⟩]
    · rw [if_neg hname, if_neg fun h => hname h.2, hid]
      cases g.elements.get? id <;> rfl
  · rw [if_neg hid, if_neg fun h => hid h.1]

theorem property?_filter (g : PropertyGraph) (keep : List String → Bool) (query : List String)
    (key : String) :
    (g.filter keep).property? query key = if keep query then g.property? query key else none := by
  unfold property? filter
  rw [SortedMap.get?_filter]
  cases keep query <;> cases g.elements.get? query <;> simp [Option.filter]

theorem property?_removeElement (g : PropertyGraph) (id query : List String) (key : String) :
    (g.removeElement id).property? query key =
      if query = id then none else g.property? query key := by
  rw [removeElement, property?_filter]
  by_cases hid : query = id <;> simp [hid]

theorem property?_removeProperty (g : PropertyGraph) (id query : List String) (name key : String) :
    (g.removeProperty id name).property? query key =
      if query = id ∧ key = name then none else g.property? query key := by
  have hrest : (((g.elements.get? id).getD .empty).erase name).get? key =
      if key = name then none else g.property? id key := by
    rw [SortedMap.get?_erase, property?]
    cases g.elements.get? id <;> rfl
  unfold removeProperty
  dsimp only
  split
  next hempty =>
    rw [hempty, SortedMap.get?_empty] at hrest
    rw [property?_removeElement]
    by_cases hid : query = id
    · by_cases hname : key = name
      · rw [if_pos hid, if_pos ⟨hid, hname⟩]
      · rw [if_neg hname] at hrest
        rw [if_pos hid, if_neg fun h => hname h.2, hid, hrest]
    · rw [if_neg hid, if_neg fun h => hid h.1]
  next =>
    rw [property?, SortedMap.get?_insert]
    by_cases hid : query = id
    · rw [if_pos hid, Option.bind_some, hrest, hid]
      by_cases hname : key = name
      · rw [if_pos hname, if_pos ⟨rfl, hname⟩]
      · rw [if_neg hname, if_neg fun h => hname h.2]
    · rw [if_neg hid, if_neg fun h => hid h.1, property?]

end PropertyGraph

end GraphTables
