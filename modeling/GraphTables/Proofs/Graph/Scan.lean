import GraphTables.Proofs.Graph.Rows
import GraphTables.Proofs.Layout.Decoding
import GraphTables.Proofs.Layout.Runs
import Mathlib.Data.List.Basic

namespace GraphTables

theorem compare_append_singleton {xs ys : List String} (hlen : xs.length = ys.length)
    (x y : String) : compare (xs ++ [x]) (ys ++ [y]) = (compare xs ys).then (compare x y) := by
  induction xs generalizing ys with
  | nil =>
    obtain rfl : ys = [] := List.eq_nil_of_length_eq_zero hlen.symm
    rw [List.nil_append, List.nil_append, List.compare_eq_compareLex, List.compareLex_cons_cons,
      List.compareLex_nil_nil]
    cases compare x y <;> rfl
  | cons x' xs ih =>
    cases ys with
    | nil => cases hlen
    | cons y' ys =>
      have hrest := ih (Nat.succ.inj hlen)
      rw [List.compare_eq_compareLex] at hrest ⊢
      rw [List.cons_append, List.cons_append, List.compareLex_cons_cons, List.compareLex_cons_cons,
        hrest, Ordering.then_assoc]

/-- What stands between keys of one identity has that identity. -/
theorem eq_of_compare_append {xs ys : List String} (hlen : xs.length = ys.length) {x y y' x' : String}
    (hafter : compare (xs ++ [x]) (ys ++ [y]) = .lt)
    (hbefore : compare (ys ++ [y']) (xs ++ [x']) = .lt) : xs = ys := by
  rw [compare_append_singleton hlen] at hafter
  have hswap : compare ys xs = (compare xs ys).swap := Std.OrientedCmp.eq_swap
  rw [compare_append_singleton hlen.symm, hswap] at hbefore
  cases hcompare : compare xs ys with
  | eq => exact Std.compare_eq_iff_eq.1 hcompare
  | gt =>
    rw [hcompare] at hafter
    cases hafter
  | lt =>
    rw [hcompare] at hbefore
    cases hbefore

namespace PropertyGraph

private theorem property?_eq_some_iff {g : PropertyGraph} {id : List String} {name value : String} :
    g.property? id name = some value ↔
      ∃ properties, (id, properties) ∈ g.elements.entries ∧ (name, value) ∈ properties.entries := by
  unfold property?
  rw [Option.bind_eq_some_iff]
  constructor
  · rintro ⟨properties, helement, hvalue⟩
    exact ⟨properties, SortedMap.get?_eq_some_iff.1 helement, SortedMap.get?_eq_some_iff.1 hvalue⟩
  · rintro ⟨properties, helement, hvalue⟩
    exact ⟨properties, SortedMap.get?_eq_some_iff.2 helement, SortedMap.get?_eq_some_iff.2 hvalue⟩

private theorem entries_ne_nil {g : PropertyGraph} {e : List String × SortedMap String String}
    (he : e ∈ g.elements.entries) : e.2.entries ≠ [] := by
  intro hempty
  apply g.nonempty e.1 e.2 (SortedMap.get?_of_mem_entries he)
  apply SortedMap.ext_get?
  intro name
  rw [SortedMap.get?, hempty]
  rfl

end PropertyGraph

namespace Layout

/-- An element as it is read: its identity columns, and its properties in ascending order of their
    keys. -/
def elementOf (l : Layout) (id : List String) (properties : SortedMap String String) : Element where
  kind := l.kind
  columns := l.identityCells id
  cells := properties.entries.map fun p => ⟨.propertyKey, p.1, .propertyValue, p.2⟩

/-- The elements of a graph in ascending order of their identities. -/
def elementsOf (l : Layout) (g : PropertyGraph) : List Element :=
  g.elements.entries.map fun e => l.elementOf e.1 e.2

variable {l : Layout} {rows : SortedMap (List String) Record} {g : PropertyGraph}

private theorem Represents.length_of_mem (h : l.Represents rows g)
    {e : List String × SortedMap String String} (he : e ∈ g.elements.entries) :
    e.1.length = l.identity.length := by
  obtain ⟨p, hp⟩ := List.exists_mem_of_ne_nil _ (PropertyGraph.entries_ne_nil he)
  exact h.arity e.1 p.1 p.2 (PropertyGraph.property?_eq_some_iff.2 ⟨e.2, he, hp⟩)

/-- The rows lie in the order of the elements, those of an element in the order of its properties. -/
theorem Represents.entries (h : l.Represents rows g) :
    rows.entries = g.elements.entries.flatMap fun e =>
      e.2.entries.map fun p => (e.1 ++ [p.1], l.rowOf e.1 p.1 p.2) := by
  apply SortedMap.eq_of_ascending rows.ascending
  · rw [Ascending, List.pairwise_flatMap]
    constructor
    · intro e he
      rw [List.pairwise_map]
      apply e.2.ascending.imp
      intro p q hlt
      have hself : compare e.1 e.1 = .eq := Std.ReflCmp.compare_self
      rw [compare_append_singleton rfl, hself]
      exact hlt
    · apply g.elements.ascending.imp_of_mem
      intro a b ha hb hlt x hx y hy
      obtain ⟨p, _, rfl⟩ := List.mem_map.1 hx
      obtain ⟨q, _, rfl⟩ := List.mem_map.1 hy
      have hlen : a.1.length = b.1.length := by rw [h.length_of_mem ha, h.length_of_mem hb]
      rw [compare_append_singleton hlen, hlt]
      rfl
  · rintro ⟨key, row⟩
    rw [← SortedMap.get?_eq_some_iff, h.row, List.mem_flatMap]
    constructor
    · rintro ⟨id, name, value, hproperty, rfl, rfl⟩
      obtain ⟨properties, helement, hvalue⟩ := PropertyGraph.property?_eq_some_iff.1 hproperty
      exact ⟨(id, properties), helement, List.mem_map.2 ⟨(name, value), hvalue, rfl⟩⟩
    · rintro ⟨e, helement, hrow⟩
      obtain ⟨p, hvalue, heq⟩ := List.mem_map.1 hrow
      cases heq
      exact ⟨e.1, p.1, p.2, PropertyGraph.property?_eq_some_iff.2 ⟨e.2, helement, hvalue⟩, rfl, rfl⟩

theorem PropertyRows.roleOf_identity (hl : l.PropertyRows) {c : Column} (hc : c ∈ l.identity) :
    c ∈ l.columns ∧ l.roleOf c = .scalar := by
  have hnodup := hl.nodup
  rw [hl.columns, List.nodup_append] at hnodup
  obtain ⟨_, _, hdisjoint⟩ := hnodup
  have hname : c ≠ .propertyKey := hdisjoint c hc _ (by simp)
  have hvalue : c ≠ .propertyValue := hdisjoint c hc _ (by simp)
  refine ⟨by simp [hl.columns, hc], ?_⟩
  rw [roleOf, hl.cell]
  simp only [if_neg hname, if_neg hvalue]

theorem PropertyRows.spansRows (hl : l.PropertyRows) : l.spansRows = true := by
  rw [Layout.spansRows, hl.cell]
  rfl

/-- The columns that hold no property are the identity columns. -/
theorem PropertyRows.mem_identity (hl : l.PropertyRows) {c : Column} (hc : c ∈ l.columns)
    (hrole : l.roleOf c = .scalar) : c ∈ l.identity := by
  rw [hl.columns, List.mem_append] at hc
  rcases hc with hidentity | hcell
  · exact hidentity
  · rw [roleOf, hl.cell] at hrole
    rcases List.mem_pair.1 hcell with rfl | rfl <;> cases hrole

/-- The element of a row has the property in the row; an unset value is the empty text. -/
theorem cells_ofRecord (hl : l.PropertyRows) {row : Record} {name : String}
    (hname : row.get? Column.propertyKey.text = some name) :
    (l.ofRecord row).cells =
      [⟨.propertyKey, name, .propertyValue, (row.get? Column.propertyValue.text).getD ""⟩] := by
  have hnone : l.identity.filterMap (l.propertyOf row) = [] := by
    rw [List.filterMap_eq_nil_iff]
    intro c hc
    rw [propertyOf, (hl.roleOf_identity hc).2]
  have hkeyRole : l.roleOf .propertyKey = .cellName .propertyValue := by
    rw [roleOf, hl.cell]
    rfl
  have hvalueRole : l.roleOf .propertyValue = .cellValue := by
    rw [roleOf, hl.cell]
    rfl
  have hcells : (l.ofRecord row).cells = l.columns.filterMap (l.propertyOf row) := rfl
  rw [hcells, hl.columns, List.filterMap_append, hnone]
  simp [propertyOf, hkeyRole, hvalueRole, hname]

/-- The row of a property is read as its element with this one property. -/
theorem ofRecord_rowOf (hl : l.PropertyRows) {id : List String} (hid : id.length = l.identity.length)
    (name value : String) :
    l.ofRecord (l.rowOf id name value) =
      ⟨l.kind, l.identityCells id, [⟨.propertyKey, name, .propertyValue, value⟩]⟩ := by
  obtain ⟨hidentity, hname, hvalue⟩ := rowCells_parts hl hid name value
  have hcolumns : (l.ofRecord (l.rowOf id name value)).columns = l.identityCells id := by
    apply SortedMap.ext_get?
    intro c
    rw [get?_ofRecord hl.nodup, rowOf, Record.get?_ofColumns_text]
    by_cases hc : c ∈ l.identity
    · rw [if_pos (hl.roleOf_identity hc)]
      exact List.map_inj_left.1 (hidentity.trans (map_get?_identityCells hl hid).symm) c hc
    · rw [if_neg fun hscalar => hc (hl.mem_identity hscalar.1 hscalar.2), identityCells,
        SortedMap.get?_ofList_zip_of_not_mem hl.nodup_identity hid hc]
  have hcells : (l.ofRecord (l.rowOf id name value)).cells =
      [⟨.propertyKey, name, .propertyValue, value⟩] := by
    have htext : (l.rowOf id name value).get? Column.propertyKey.text = some name := by
      rw [rowOf, Record.get?_ofColumns_text, hname]
    rw [cells_ofRecord hl htext, rowOf, Record.get?_ofColumns_text, hvalue]
    rfl
  have hparts : l.ofRecord (l.rowOf id name value) =
      ⟨l.kind, (l.ofRecord (l.rowOf id name value)).columns,
        (l.ofRecord (l.rowOf id name value)).cells⟩ := rfl
  rw [hparts, hcolumns, hcells]

/-- Rows that stand for a graph are read as its elements. -/
theorem Represents.fold_ofRecord (hl : l.PropertyRows) (h : l.Represents rows g) :
    l.fold (rows.values.map l.ofRecord) = l.elementsOf g := by
  let runs := g.elements.entries.map fun e =>
    (l.identityCells e.1, e.2.entries.map fun p => Property.mk .propertyKey p.1 .propertyValue p.2)
  have hruns : rows.values.map l.ofRecord =
      runs.flatMap fun r => r.2.map fun p => ⟨l.kind, r.1, [p]⟩ := by
    rw [SortedMap.values, h.entries, List.map_map, List.map_flatMap, List.flatMap_map]
    apply List.flatMap_congr
    intro e he
    rw [List.map_map, List.map_map]
    apply List.map_congr_left
    intro p _
    exact ofRecord_rowOf hl (h.length_of_mem he) p.1 p.2
  have hne : ∀ r ∈ runs, r.2 ≠ [] := by
    intro r hr
    obtain ⟨e, he, rfl⟩ := List.mem_map.1 hr
    simpa using PropertyGraph.entries_ne_nil he
  have hdistinct : runs.Pairwise fun a b => a.1 ≠ b.1 := by
    rw [List.pairwise_map]
    apply g.elements.ascending.imp_of_mem
    intro a b ha hb hlt heq
    have hid := identityCells_injective hl (h.length_of_mem ha) (h.length_of_mem hb) heq
    have hself : compare b.1 b.1 = .eq := Std.ReflCmp.compare_self
    rw [hid, hself] at hlt
    cases hlt
  rw [fold, if_pos hl.spansRows, hruns, foldRuns_flatMap l.kind hne hdistinct, List.map_map]
  rfl

end Layout

end GraphTables
