import GraphTables.Text.Basic

namespace GraphTables

/-- A column of one of the graph's tables. Columns are ordered by their places in `Column.all`, and found by
their names in any case of letters. -/
inductive Column where
  | name
  | idStrategy
  | primaryKeys
  | indexNames
  | properties
  | frequency
  | links
  | sortKeys
  | dataType
  | cardinality
  | baseType
  | baseValue
  | indexType
  | fields
  | label
  | primaryValues
  | propertyKey
  | propertyValue
  | sourceVertex
  | direction
  | sortValues
  | targetVertex
  | indexLabelName
  | propertyValues
  | elementIds
deriving DecidableEq

namespace Column

/-- The columns in order: those of schema elements, of vertices, of edges, of index entries. -/
def all : List Column :=
  [name, idStrategy, primaryKeys, indexNames, properties, frequency, links, sortKeys, dataType,
    cardinality, baseType, baseValue, indexType, fields, label, primaryValues, propertyKey,
    propertyValue, sourceVertex, direction, sortValues, targetVertex, indexLabelName,
    propertyValues, elementIds]

/-- The place of the column in `all`. -/
def position (c : Column) : Nat := all.idxOf c

/-- The name of the column in statements and results. -/
def text : Column → String
  | name => "name"
  | idStrategy => "id_strategy"
  | primaryKeys => "primary_keys"
  | indexNames => "index_names"
  | properties => "properties"
  | frequency => "frequency"
  | links => "links"
  | sortKeys => "sort_keys"
  | dataType => "data_type"
  | cardinality => "cardinality"
  | baseType => "base_type"
  | baseValue => "base_value"
  | indexType => "index_type"
  | fields => "fields"
  | label => "label"
  | primaryValues => "primary_values"
  | propertyKey => "property_key"
  | propertyValue => "property_value"
  | sourceVertex => "source_vertex"
  | direction => "direction"
  | sortValues => "sort_values"
  | targetVertex => "target_vertex"
  | indexLabelName => "index_label_name"
  | propertyValues => "property_values"
  | elementIds => "element_ids"

/-- The name of the column as a key of serialized objects. -/
def camelName (c : Column) : String := Text.camelCase c.text

theorem mem_all (c : Column) : c ∈ all := by cases c <;> decide

private theorem position_injective {a b : Column} (h : a.position = b.position) : a = b := by
  revert a b
  have hall : ∀ a ∈ all, ∀ b ∈ all, a.position = b.position → a = b := by decide +kernel
  exact fun {a b} => hall a (mem_all a) b (mem_all b)

instance : Ord Column := ⟨compareOn position⟩

instance : Std.TransOrd Column := inferInstanceAs (Std.TransCmp (compareOn position))

instance : Std.LawfulEqOrd Column where
  compare_self := Std.ReflCmp.compare_self
  eq_of_compare {a b} h :=
    position_injective (Std.compare_eq_iff_eq.1 (show compare a.position b.position = .eq from h))

/-- The column of a name, whatever the case of its ASCII letters. -/
def ofText? (s : String) : Option Column := all.find? fun c => Text.sameIgnoringCase c.text s

/-- No two columns have names that differ in the case of letters alone. -/
theorem eq_of_sameIgnoringCase {a b : Column}
    (h : Text.sameIgnoringCase a.text b.text = true) : a = b := by
  have hdistinct : all.Pairwise fun a b =>
      Text.foldAscii a.text.toList ≠ Text.foldAscii b.text.toList := by
    decide +kernel
  have hfold : Text.foldAscii a.text.toList = Text.foldAscii b.text.toList := eq_of_beq h
  obtain ⟨i, hi, rfl⟩ := List.mem_iff_getElem.1 (mem_all a)
  obtain ⟨j, hj, rfl⟩ := List.mem_iff_getElem.1 (mem_all b)
  rcases Nat.lt_trichotomy i j with hij | rfl | hij
  · exact absurd hfold (List.pairwise_iff_getElem.1 hdistinct i j hi hj hij)
  · rfl
  · exact absurd hfold.symm (List.pairwise_iff_getElem.1 hdistinct j i hj hi hij)

theorem ofText?_text (c : Column) : ofText? c.text = some c := by
  obtain ⟨d, hd⟩ : ∃ d, ofText? c.text = some d := Option.isSome_iff_exists.1 <|
    List.find?_isSome.2 ⟨c, mem_all c, Text.sameIgnoringCase_self c.text⟩
  have hsame : Text.sameIgnoringCase d.text c.text = true := by
    have := List.find?_some hd
    exact this
  rw [hd, eq_of_sameIgnoringCase hsame]

/-- A column is found under exactly the spellings of its name. -/
theorem ofText?_eq_some_iff {s : String} {c : Column} :
    ofText? s = some c ↔ Text.sameIgnoringCase c.text s = true := by
  refine ⟨fun h => by have := List.find?_some h; exact this, fun h => ?_⟩
  have hfold : Text.foldAscii c.text.toList = Text.foldAscii s.toList := eq_of_beq h
  rw [← ofText?_text c, ofText?, ofText?]
  unfold Text.sameIgnoringCase
  rw [hfold]

end Column

end GraphTables
