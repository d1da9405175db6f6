import GraphTables.Proofs.Layout.Row
import GraphTables.Proofs.Query.Rows

namespace GraphTables

/-- Elements that take one row each, apart from any table: the texts of their columns by the texts of their
    key columns. -/
abbrev ElementTable := SortedMap (List String) (SortedMap Column String)

/-- A change of the elements of a table. -/
inductive ElementStep where
  /-- Write columns over those of the element of a key. -/
  | merge (key : List String) (columns : SortedMap Column String)
  /-- Remove the elements that have all the columns with the same texts. -/
  | removeWith (columns : SortedMap Column String)
  /-- Remove the elements that an identifier stands for. -/
  | removeById (id : ElementId)
deriving DecidableEq

/-- The element has all the columns with the same texts. -/
def SortedMap.includes (element columns : SortedMap Column String) : Bool :=
  columns.entries.all fun e => element.get? e.1 == some e.2

/-- The texts of the identity columns of the element are those that the identifier stands for. -/
def Layout.identifiedBy (l : Layout) (id : ElementId) (element : SortedMap Column String) : Bool :=
  match l.idShape.values id with
  | .ok values => l.identity.map element.get? == values.map some
  | .error _ => false

namespace ElementTable

def apply (l : Layout) (m : ElementTable) : ElementStep → ElementTable
  | .merge key columns => m.insert key (((m.get? key).getD .empty).insertAll columns.entries)
  | .removeWith columns => m.filter fun _ element => !element.includes columns
  | .removeById id => m.filter fun _ element => !l.identifiedBy id element

/-- The elements that changes one after the other lead to from none. -/
def ofSteps (l : Layout) (steps : List ElementStep) : ElementTable := steps.foldl (apply l) .empty

/-- The elements as they are read, in ascending order of their keys. -/
def elements (m : ElementTable) (kind : Kind) : List Element :=
  m.entries.map fun e => ⟨kind, e.2, []⟩

/-- The elements that are read for identifiers: by a single identity column the elements of all of them in
    one list, by several the elements of one after those of another. -/
def elementsOfIds (m : ElementTable) (l : Layout) (ids : List ElementId) : List Element :=
  if l.identity.length = 1 then
    elements (m.filter fun _ element => ids.any (l.identifiedBy · element)) l.kind
  else ids.flatMap fun id => elements (m.filter fun _ element => l.identifiedBy id element) l.kind

/-- Each element has its key in the key columns. -/
def KeyedBy (m : ElementTable) (l : Layout) : Prop :=
  ∀ key element, m.get? key = some element → l.primaryKey.map element.get? = key.map some

variable {l : Layout} {m : ElementTable}

private theorem KeyedBy.merge (h : m.KeyedBy l) {key : List String} {columns : SortedMap Column String}
    (hkey : l.primaryKey.map columns.get? = key.map some) :
    KeyedBy (m.apply l (.merge key columns)) l := by
  intro query element helement
  rw [apply, SortedMap.get?_insert] at helement
  split at helement
  next hquery =>
    cases helement
    rw [hquery, ← hkey]
    apply List.map_congr_left
    intro c hc
    have hset : columns.get? c ∈ key.map some := by
      rw [← hkey]
      exact List.mem_map_of_mem hc
    obtain ⟨text, _, htext⟩ := List.mem_map.1 hset
    rw [SortedMap.get?_insertAll_entries, ← htext, Option.some_or]
  next => exact h query element helement

private theorem KeyedBy.filter (h : m.KeyedBy l) (keep : List String → SortedMap Column String → Bool) :
    KeyedBy (SortedMap.filter m keep) l := by
  intro key element helement
  rw [SortedMap.get?_filter, Option.filter_eq_some_iff] at helement
  exact h key element helement.1

end ElementTable

namespace Layout

variable {l : Layout} {rows : SortedMap (List String) Record} {m : ElementTable}

/-- The rows are exactly the elements, each under its key with the columns it has. -/
structure StoresElements (l : Layout) (rows : SortedMap (List String) Record) (m : ElementTable) :
    Prop where
  row : ∀ key, rows.get? key = (m.get? key).map Record.ofColumns
  columns : ∀ key element c, m.get? key = some element → (element.get? c).isSome → c ∈ l.columns
  keyed : m.KeyedBy l

theorem storesElements_empty (l : Layout) : l.StoresElements .empty .empty where
  row _ := rfl
  columns key element c h := by cases h
  keyed key element h := by cases h

/-- Writing columns over a row writes them over its element. -/
theorem StoresElements.merge (h : l.StoresElements rows m) {i : Insert}
    {columns : SortedMap Column String} (hi : i.Sets columns)
    (hcolumns : ∀ c, (columns.get? c).isSome → c ∈ l.columns) {key : List String}
    (hkey : l.primaryKey.map columns.get? = key.map some) :
    l.StoresElements (rows.insert key (i.overlay ((rows.get? key).getD .empty)))
      (m.apply l (.merge key columns)) := by
  have hoverlay : i.overlay ((rows.get? key).getD .empty) =
      Record.ofColumns (((m.get? key).getD .empty).insertAll columns.entries) := by
    rw [h.row, ← hi.overlay]
    cases m.get? key <;> rfl
  refine ⟨?_, ?_, h.keyed.merge hkey⟩
  · intro query
    rw [ElementTable.apply, SortedMap.get?_insert, SortedMap.get?_insert, hoverlay, h.row]
    split <;> rfl
  · intro query element c helement hc
    rw [ElementTable.apply, SortedMap.get?_insert] at helement
    split at helement
    · cases helement
      rw [SortedMap.get?_insertAll_entries] at hc
      cases hset : columns.get? c with
      | some text => exact hcolumns c (by simp [hset])
      | none =>
        rw [hset, Option.none_or] at hc
        cases hold : m.get? key with
        | none =>
          rw [hold] at hc
          cases hc
        | some old =>
          rw [hold] at hc
          exact h.columns key old c hold hc
    · exact h.columns query element c helement hc

/-- Keeping rows by what their elements are keeps those elements. -/
theorem StoresElements.filter (h : l.StoresElements rows m) {keep : Record → Bool}
    {keepElement : SortedMap Column String → Bool}
    (hkeep : ∀ element, keep (Record.ofColumns element) = keepElement element) :
    l.StoresElements (rows.filter fun _ row => keep row) (m.filter fun _ element => keepElement element) := by
  refine ⟨?_, ?_, h.keyed.filter _⟩
  · intro key
    rw [SortedMap.get?_filter, SortedMap.get?_filter, h.row]
    cases m.get? key with
    | none => rfl
    | some element =>
      rw [Option.map_some, Option.filter_some, Option.filter_some, hkeep]
      split <;> rfl
  · intro key element c helement hc
    rw [SortedMap.get?_filter, Option.filter_eq_some_iff] at helement
    exact h.columns key element c helement.1 hc

/-- The rows stand in the order of their elements. -/
theorem StoresElements.entries (h : l.StoresElements rows m) :
    rows.entries = m.entries.map fun e => (e.1, Record.ofColumns e.2) := by
  apply SortedMap.eq_of_ascending rows.ascending
  · rw [Ascending, List.pairwise_map]
    exact m.ascending
  · rintro ⟨key, row⟩
    rw [← SortedMap.get?_eq_some_iff, h.row, Option.map_eq_some_iff, List.mem_map]
    constructor
    · rintro ⟨element, helement, rfl⟩
      exact ⟨(key, element), SortedMap.get?_eq_some_iff.1 helement, rfl⟩
    · rintro ⟨⟨key', element⟩, helement, heq⟩
      cases heq
      exact ⟨element, SortedMap.get?_eq_some_iff.2 helement, rfl⟩

end Layout

/-- A row of columns of a table of one-row elements is read as an element with just these columns. -/
theorem Kind.ofRecord_ofColumns {k : Kind} (hsingle : k.layout.spansRows = false)
    {element : SortedMap Column String} (hcolumns : ∀ c, (element.get? c).isSome → c ∈ k.layout.columns) :
    k.layout.ofRecord (.ofColumns element) = ⟨k, element, []⟩ := by
  have hcell : k.layout.cell = none := by simpa [Layout.spansRows] using hsingle
  have hrole : ∀ c, k.layout.roleOf c = .scalar := by
    intro c
    rw [Layout.roleOf, hcell]
  have helement : (k.layout.ofRecord (.ofColumns element)).columns = element := by
    apply SortedMap.ext_get?
    intro c
    rw [Layout.get?_ofRecord k.nodup_columns, Record.get?_ofColumns_text]
    split
    next => rfl
    next hother =>
      cases hget : element.get? c with
      | none => rfl
      | some text => exact absurd ⟨hcolumns c (by simp [hget]), hrole c⟩ hother
  have hproperties : k.layout.columns.filterMap (k.layout.propertyOf (.ofColumns element)) = [] := by
    rw [List.filterMap_eq_nil_iff]
    intro c _
    rw [Layout.propertyOf, hrole]
  have hparts : k.layout.ofRecord (.ofColumns element) = ⟨k.layout.kind,
      (k.layout.ofRecord (.ofColumns element)).columns,
      k.layout.columns.filterMap (k.layout.propertyOf (.ofColumns element))⟩ := rfl
  rw [hparts, helement, hproperties, k.kind_layout]

/-- Rows that stand for elements are read as these elements, in the order of their keys. -/
theorem Layout.StoresElements.fold_ofRecord {k : Kind} (hsingle : k.layout.spansRows = false)
    {rows : SortedMap (List String) Record} {m : ElementTable} (h : k.layout.StoresElements rows m) :
    k.layout.fold (rows.values.map k.layout.ofRecord) = m.elements k := by
  have hnotSpanning : ¬k.layout.spansRows = true := by simp [hsingle]
  rw [fold, if_neg hnotSpanning, SortedMap.values, h.entries, List.map_map, List.map_map,
    ElementTable.elements]
  apply List.map_congr_left
  intro e he
  exact Kind.ofRecord_ofColumns hsingle fun c hc =>
    h.columns e.1 e.2 c (SortedMap.get?_of_mem_entries he) hc

end GraphTables
