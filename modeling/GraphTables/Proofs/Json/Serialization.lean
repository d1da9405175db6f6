import GraphTables.Json.QueryForm
import GraphTables.Proofs.Json.Form

namespace GraphTables

/-- The operand is no double. -/
def Value.FloatFree (v : Value) : Prop := ∀ x, v ≠ .float x

/-- No operand of the condition is a double. -/
def Condition.FloatFree : Condition → Prop
  | relation _ _ v => v.FloatFree
  | and left right => left.FloatFree ∧ right.FloatFree
  | or left right => left.FloatFree ∧ right.FloatFree

/-- No operand of the query's conditions is a double. -/
def Query.FloatFree (q : Query) : Prop := ∀ c ∈ q.conditions, c.FloatFree

namespace Json.Form

private theorem nodup_camelName : (Column.all.map Column.camelName).Nodup := by decide +kernel

private theorem readsBack_column (c : Column) : column.ReadsBack c :=
  readsBack_named nodup_camelName c.mem_all

private theorem readsBack_kind (k : Kind) : kind.ReadsBack k :=
  readsBack_named (by decide +kernel) k.mem_all

private theorem readsBack_relation (op : Relation) : relation.ReadsBack op :=
  readsBack_named (by decide) (by cases op <;> decide)

private theorem readsBack_sortDirection (d : SortDirection) : sortDirection.ReadsBack d :=
  readsBack_named (by decide) (by cases d <;> decide)

private theorem readsBack_elementId (id : ElementId) : elementId.ReadsBack id :=
  ⟨.text id.text, fun _ _ => rfl⟩

private theorem readsBack_columnMap (m : SortedMap Column String) : columnMap.ReadsBack m :=
  readsBack_map nodup_camelName Column.mem_all fun e _ => readsBack_text e.2

private theorem readsBack_property (p : Property) : property.ReadsBack p := by
  have hnameColumn := readsBack_column p.nameColumn
  have hname := readsBack_text p.name
  have hvalueColumn := readsBack_column p.valueColumn
  have hvalue := readsBack_text p.value
  refine readsBack_of_record rfl ?_ (by simp) fun bound hbound hfields => ?_
  · simpa using ⟨hnameColumn.plain, hname.plain, hvalueColumn.plain, hvalue.plain⟩
  · simp only [List.forall_mem_cons] at hbound
    simp only [List.map_cons, List.map_nil, Function.comp_apply] at hfields
    simp only [property, hfields, Option.bind_eq_bind, Option.bind_some, hnameColumn.required hbound.1,
      hname.required hbound.2.1, hvalueColumn.required hbound.2.2.1, hvalue.required hbound.2.2.2.1]

private theorem readsBack_request (r : Request) : request.ReadsBack r := by
  have hid := readsBack_elementId r.id
  have hkeys := readsBack_columnMap r.keys
  have hcells := readsBack_list (l := r.cells) fun p _ => readsBack_property p
  refine readsBack_of_record rfl ?_ (by simp) fun bound hbound hfields => ?_
  · simpa using ⟨hid.plain, hkeys.plain, hcells.plain⟩
  · simp only [List.forall_mem_cons] at hbound
    simp only [List.map_cons, List.map_nil, Function.comp_apply] at hfields
    simp only [request, hfields, Option.bind_eq_bind, Option.bind_some, hid.required hbound.1,
      hkeys.required hbound.2.1, hcells.required hbound.2.2.1]

private theorem readsBack_element (e : Element) : element.ReadsBack e := by
  have hkind := readsBack_kind e.kind
  have hcolumns := readsBack_columnMap e.columns
  have hcells := readsBack_list (l := e.cells) fun p _ => readsBack_property p
  refine readsBack_of_record rfl ?_ (by simp) fun bound hbound hfields => ?_
  · simpa using ⟨hkind.plain, hcolumns.plain, hcells.plain⟩
  · simp only [List.forall_mem_cons] at hbound
    simp only [List.map_cons, List.map_nil, Function.comp_apply] at hfields
    simp only [element, hfields, Option.bind_eq_bind, Option.bind_some, hkind.required hbound.1,
      hcolumns.required hbound.2.1, hcells.required hbound.2.2.1]

private theorem readsBack_value {v : Value} (h : v.FloatFree) : value.ReadsBack v := by
  cases v with
  | text s => exact readsBack_of_tagged Value.text (readsBack_text s) rfl fun _ => rfl
  | int i => exact readsBack_of_tagged Value.int (readsBack_int64 i) rfl fun _ => rfl
  | float x => exact absurd rfl (h x)
  | bool b => exact readsBack_of_tagged Value.bool (readsBack_bool b) rfl fun _ => rfl
  | id i => exact readsBack_of_tagged Value.id (readsBack_elementId i) rfl fun _ => rfl
  | symbol s => exact readsBack_of_tagged Value.symbol (readsBack_text s) rfl fun _ => rfl

private theorem readsBack_comparison (c : Column) (op : Relation) {v : Value} (h : v.FloatFree) :
    condition.ReadsBack (.relation c op v) := by
  have hcolumn := readsBack_column c
  have hop := readsBack_relation op
  have hvalue := readsBack_value h
  refine readsBack_of_record rfl ?_ (List.nodup_singleton _) fun n hn _ => ?_
  · rw [List.forall_mem_singleton]
    exact .record (by simpa using ⟨hcolumn.plain, hop.plain, hvalue.plain⟩)
  · -- The record stands in the object that names the variant, so its fields have two levels less.
    rw [List.forall_mem_singleton] at hn
    obtain ⟨bound, rfl, hbound⟩ := Tree.exists_of_depth_object_le hn
    have hfields := Tree.fields?_record [("key", column.toTree c), ("op", relation.toTree op),
      ("value", value.toTree v)] (by simp) false bound
    simp only [List.forall_mem_map, List.forall_mem_cons] at hbound
    simp only [List.map_cons, List.map_nil, Function.comp_apply] at hfields
    simp only [condition, Tree.record, List.map_cons, List.map_nil, readCondition?] at hfields ⊢
    simp only [hfields, Option.bind_eq_bind, Option.bind_some, hcolumn.required hbound.1,
      hop.required hbound.2.1, hvalue.required hbound.2.2.1]

/-- A combination is read if both of its sides are. -/
theorem readsBack_combination {make : Condition → Condition → Condition} {name : String}
    (htree : ∀ left right, conditionTree (make left right) =
      .tagged name (.array [conditionTree left, conditionTree right]))
    (hread : ∀ bound left right,
      readCondition? (bound + 2) (.tagged name (.array [left, right])) = do
        some (make (← readCondition? bound left) (← readCondition? bound right)))
    {left right : Condition} (hleft : condition.ReadsBack left) (hright : condition.ReadsBack right) :
    condition.ReadsBack (make left right) := by
  refine readsBack_of_record (htree left right) ?_ (List.nodup_singleton _) fun n hn _ => ?_
  · rw [List.forall_mem_singleton]
    exact .array (by simpa using ⟨hleft.plain, hright.plain⟩)
  · rw [List.forall_mem_singleton] at hn
    obtain ⟨bound, rfl, hbound⟩ := Tree.exists_of_depth_array_le hn
    simp only [List.forall_mem_cons] at hbound
    have hl : readCondition? bound (conditionTree left) = some left := hleft.ofTree? bound hbound.1
    have hr : readCondition? bound (conditionTree right) = some right :=
      hright.ofTree? bound hbound.2.1
    exact (hread bound _ _).trans (by rw [hl, hr]; rfl)

private theorem readsBack_condition {c : Condition} (h : c.FloatFree) : condition.ReadsBack c := by
  induction c with
  | relation c op v => exact readsBack_comparison c op h
  | and left right ihl ihr =>
    exact readsBack_combination (fun _ _ => rfl) (fun _ _ _ => rfl) (ihl h.1) (ihr h.2)
  | or left right ihl ihr =>
    exact readsBack_combination (fun _ _ => rfl) (fun _ _ _ => rfl) (ihl h.1) (ihr h.2)

private theorem readsBack_order (o : Column × SortDirection) : order.ReadsBack o :=
  readsBack_pair (readsBack_column o.1) (readsBack_sortDirection o.2)

private theorem readsBack_query {q : Query} (h : q.FloatFree) : query.ReadsBack q := by
  have hkind := readsBack_kind q.kind
  have hids := readsBack_list (l := q.ids) fun id _ => readsBack_elementId id
  have hconditions := readsBack_list fun c hc => readsBack_condition (h c hc)
  have horders := readsBack_list (l := q.orders) fun o _ => readsBack_order o
  have hlimit := readsBack_option (a := q.limit) fun n _ =>
    ⟨readsBack_uint64 n, by simp [uint64]⟩
  have hoffset := readsBack_uint64 q.offset
  refine readsBack_of_record rfl ?_ (by simp) fun bound hbound hfields => ?_
  · simpa using ⟨hkind.plain, hids.plain, hconditions.plain, horders.plain, hlimit.plain,
      hoffset.plain⟩
  · simp only [List.forall_mem_cons] at hbound
    simp only [List.map_cons, List.map_nil, Function.comp_apply] at hfields
    simp only [query, hfields, Option.bind_eq_bind, Option.bind_some, hkind.required hbound.1,
      hids.required hbound.2.1, hconditions.required hbound.2.2.1, horders.required hbound.2.2.2.1,
      hlimit.orElse none hbound.2.2.2.2.1, hoffset.required hbound.2.2.2.2.2.1]

private theorem depth_columnMap_le (m : SortedMap Column String) : (columnMap.toTree m).depth ≤ 1 :=
  Tree.depth_object_le_iff.2 (List.forall_mem_map.2 fun _ _ => Nat.le_refl 0)

private theorem depth_property_le (p : Property) : (property.toTree p).depth ≤ 1 := Nat.le_refl 1

private theorem depth_cells_le (cells : List Property) : ((list property).toTree cells).depth ≤ 2 :=
  Tree.depth_array_le_iff.2 (List.forall_mem_map.2 fun p _ => depth_property_le p)

private theorem depth_request_le (r : Request) : (request.toTree r).depth ≤ 3 := by
  have hkeys := depth_columnMap_le r.keys
  have hcells := depth_cells_le r.cells
  refine Tree.depth_record_le_iff.2 ?_
  simp only [List.forall_mem_cons]
  exact ⟨Nat.zero_le 2, by omega, hcells, by simp⟩

private theorem depth_element_le (e : Element) : (element.toTree e).depth ≤ 3 := by
  have hcolumns := depth_columnMap_le e.columns
  have hcells := depth_cells_le e.cells
  refine Tree.depth_record_le_iff.2 ?_
  simp only [List.forall_mem_cons]
  exact ⟨Nat.zero_le 2, by omega, hcells, by simp⟩

private theorem depth_value_le {v : Value} (h : v.FloatFree) : (value.toTree v).depth ≤ 1 := by
  cases v with
  | float x => exact absurd rfl (h x)
  | _ => exact Nat.le_refl 1

/-- Serialized requests come back unchanged: reading the text written for a value gives the value.

    This holds of every identifier, property, request and element, with whatever texts and column maps. It
    holds of operands without doubles, and of conditions and queries without doubles if arrays and objects
    stand in one another less than 128 deep. -/
theorem read?_write_of_nesting :
    (∀ id, elementId.read? (elementId.write id) = some id) ∧
    (∀ p, property.read? (property.write p) = some p) ∧
    (∀ r, request.read? (request.write r) = some r) ∧
    (∀ e, element.read? (element.write e) = some e) ∧
    (∀ v, v.FloatFree → value.read? (value.write v) = some v) ∧
    (∀ c, c.FloatFree → (condition.toTree c).depth < 128 →
      condition.read? (condition.write c) = some c) ∧
    (∀ q, q.FloatFree → (query.toTree q).depth < 128 →
      query.read? (query.write q) = some q) := by
  refine ⟨fun id => ?_, fun p => ?_, fun r => ?_, fun e => ?_, fun v hv => ?_, fun c hc hdepth => ?_,
    fun q hq hdepth => ?_⟩
  · exact (readsBack_elementId id).read?_write (Nat.zero_le _)
  · exact (readsBack_property p).read?_write (Nat.le_trans (depth_property_le p) (by decide))
  · exact (readsBack_request r).read?_write (Nat.le_trans (depth_request_le r) (by decide))
  · exact (readsBack_element e).read?_write (Nat.le_trans (depth_element_le e) (by decide))
  · exact (readsBack_value hv).read?_write (Nat.le_trans (depth_value_le hv) (by decide))
  · exact (readsBack_condition hc).read?_write (Nat.le_of_lt_succ hdepth)
  · exact (readsBack_query hq).read?_write (Nat.le_of_lt_succ hdepth)

/-- A query with identifiers that need escapes, the smallest and the largest number, and conditions in one
    another. -/
theorem read?_write_of_nesting_escapes :
    let v : Value := .text "\"\\\n\x00\x1f/\u2028é😀"
    let c : Condition := .or (.and (.relation .name .neq v) (.relation .frequency .gte (.int Int64.minValue)))
      (.and (.relation .label .eq (.bool true)) (.relation .elementIds .lt (.id ⟨"\t"⟩)))
    let q : Query := { kind := .searchIndex, ids := [⟨"\""⟩, ⟨""⟩], conditions := [c, c],
                       orders := [(.sortValues, .desc)], limit := some 18446744073709551615 }
    (v.FloatFree ∧ value.read? (value.write v) = some v) ∧
    (c.FloatFree ∧ (condition.toTree c).depth < 128 ∧ condition.read? (condition.write c) = some c) ∧
    (q.FloatFree ∧ (query.toTree q).depth < 128 ∧ query.read? (query.write q) = some q) := by
  intro v c q
  obtain ⟨_, _, _, _, hvalue, hcondition, hquery⟩ := read?_write_of_nesting
  have hv : v.FloatFree := nofun
  have hc : c.FloatFree := ⟨⟨hv, nofun⟩, nofun, nofun⟩
  have hq : q.FloatFree := by
    simp only [Query.FloatFree, q, List.forall_mem_cons]
    exact ⟨hc, hc, nofun⟩
  have hdepthc : (condition.toTree c).depth < 128 := by decide
  have hdepthq : (query.toTree q).depth < 128 := by decide
  exact ⟨⟨hv, hvalue v hv⟩, ⟨hc, hdepthc, hcondition c hc hdepthc⟩, ⟨hq, hdepthq, hquery q hq hdepthq⟩⟩

/-- What the text of a comparison looks like. -/
example : condition.write (.relation .dataType .gte (.text "a\"\n")) =
    "\x7b\"Relation\":\x7b\"key\":\"DataType\",\"op\":\"Gte\"," ++
      "\"value\":\x7b\"Text\":\"a\\\"\\n\"\x7d\x7d\x7d" := by
  decide +kernel

end Json.Form

end GraphTables
