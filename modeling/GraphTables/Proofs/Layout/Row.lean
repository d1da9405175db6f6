import GraphTables.Layout.Encoding
import GraphTables.Proofs.Store.Mutation

namespace GraphTables

namespace Column

theorem text_injective {a b : Column} (h : a.text = b.text) : a = b := by
  have hfound := ofText?_text a
  rw [h, ofText?_text] at hfound
  exact (Option.some.inj hfound).symm

end Column

/-- The row that has the given texts in columns of the graph. -/
def Record.ofColumns (m : SortedMap Column String) : Record :=
  SortedMap.ofList (m.entries.map fun e => (e.1.text, e.2))

namespace Record

private theorem nodup_texts (m : SortedMap Column String) :
    ((m.entries.map fun e => (e.1.text, e.2)).map (·.1)).Nodup := by
  have hkeys := m.nodup_keys
  rw [List.Nodup, List.pairwise_map] at hkeys
  rw [List.map_map, List.Nodup, List.pairwise_map]
  apply hkeys.imp
  intro a b hne heq
  exact hne (Column.text_injective heq)

theorem get?_ofColumns_text (m : SortedMap Column String) (c : Column) :
    (ofColumns m).get? c.text = m.get? c := by
  have hlookup (entries : List (Column × String)) :
      (entries.map fun e => (e.1.text, e.2)).lookup c.text = entries.lookup c := by
    induction entries with
    | nil => rfl
    | cons e rest ih =>
      have hsame : (c.text == e.1.text) = (c == e.1) := by
        by_cases hc : c = e.1
        · rw [hc, beq_self_eq_true, beq_self_eq_true]
        · have htext : c.text ≠ e.1.text := fun heq => hc (Column.text_injective heq)
          rw [beq_eq_false_iff_ne.2 hc, beq_eq_false_iff_ne.2 htext]
      rw [List.map_cons, List.lookup_cons, List.lookup_cons, ih, hsame]
  rw [ofColumns, SortedMap.get?_ofList (nodup_texts m), hlookup, SortedMap.lookup_entries]

private theorem eq_text_of_get?_ofColumns {m : SortedMap Column String} {column text : String}
    (h : (ofColumns m).get? column = some text) : ∃ c : Column, column = c.text := by
  rw [ofColumns, SortedMap.get?_ofList (nodup_texts m)] at h
  obtain ⟨before, after, hentries, _⟩ := List.lookup_eq_some_iff.1 h
  have hmem : (column, text) ∈ m.entries.map fun e => (e.1.text, e.2) := by simp [hentries]
  obtain ⟨e, _, heq⟩ := List.mem_map.1 hmem
  exact ⟨e.1, (congrArg Prod.fst heq).symm⟩

/-- A row of columns of the graph is known by their texts. -/
theorem eq_ofColumns {row : Record} {m : SortedMap Column String}
    (htext : ∀ c : Column, row.get? c.text = m.get? c)
    (hcolumn : ∀ column text, row.get? column = some text → ∃ c : Column, column = c.text) :
    row = ofColumns m := by
  have hrow (column : String) (hmissing : ∀ c : Column, column ≠ c.text) {r : Record}
      (hr : ∀ column text, r.get? column = some text → ∃ c : Column, column = c.text) :
      r.get? column = none := by
    cases hget : r.get? column with
    | none => rfl
    | some text =>
      obtain ⟨c, hc⟩ := hr column text hget
      exact absurd hc (hmissing c)
  apply SortedMap.ext_get?
  intro column
  by_cases hc : ∃ c : Column, column = c.text
  · obtain ⟨c, rfl⟩ := hc
    rw [htext, get?_ofColumns_text]
  · have hmissing : ∀ c : Column, column ≠ c.text := fun c h => hc ⟨c, h⟩
    rw [hrow column hmissing hcolumn,
      hrow column hmissing fun _ _ h => eq_text_of_get?_ofColumns h]

end Record

namespace Insert

/-- The insert sets exactly the columns of a map, to their texts. -/
structure Sets (i : Insert) (m : SortedMap Column String) : Prop where
  text : ∀ c : Column, i.get? c.text = (m.get? c).map .text
  column : ∀ name, (i.get? name).isSome → ∃ c : Column, name = c.text

private theorem sets_into (table : String) : (into table).Sets .empty := by
  refine ⟨fun c => rfl, fun name h => ?_⟩
  cases h

private theorem Sets.set {i : Insert} {m : SortedMap Column String} (h : i.Sets m) (c : Column)
    (text : String) : (i.set c.text (.text text)).Sets (m.insert c text) := by
  constructor
  · intro d
    rw [get?_set, SortedMap.get?_insert]
    by_cases hd : d = c
    · rw [if_pos hd, if_pos (congrArg Column.text hd), Option.map_some]
    · rw [if_neg hd, if_neg fun heq => hd (Column.text_injective heq)]
      exact h.text d
  · intro name hname
    rw [get?_set] at hname
    split at hname
    next heq => exact ⟨c, heq⟩
    next => exact h.column name hname

private theorem Sets.setAll {i : Insert} {m : SortedMap Column String} (h : i.Sets m)
    (pairs : List (Column × String)) :
    (i.setAll (pairs.map fun e => (e.1.text, .text e.2))).Sets (m.insertAll pairs) := by
  induction pairs generalizing i m with
  | nil => exact h
  | cons e rest ih => exact ih (h.set e.1 e.2)

@[simp] theorem table_setAll (i : Insert) (values : List (String × Literal)) :
    (i.setAll values).table = i.table := by
  unfold setAll
  induction values generalizing i with
  | nil => rfl
  | cons v rest ih => exact ih (i.set v.1 v.2)

theorem isSome_get?_of_mem {i : Insert} {name : String} (h : name ∈ i.values.map (·.1)) :
    (i.get? name).isSome := by
  rw [get?, Option.isSome_iff_ne_none, Ne, List.lookup_eq_none_iff]
  intro hnone
  obtain ⟨v, hv, rfl⟩ := List.mem_map.1 h
  have hne := hnone v hv
  simp at hne

/-- The columns an insert sets are the columns of the map. -/
theorem Sets.mem_columns {i : Insert} {m : SortedMap Column String} (h : i.Sets m) {name : String}
    (hname : name ∈ i.values.map (·.1)) : ∃ c : Column, name = c.text ∧ (m.get? c).isSome := by
  have hsome := isSome_get?_of_mem hname
  obtain ⟨c, rfl⟩ := h.column name hsome
  rw [h.text, Option.isSome_map] at hsome
  exact ⟨c, rfl, hsome⟩

/-- Over a row of columns of the graph, an insert leaves such a row. -/
theorem Sets.overlay {i : Insert} {m : SortedMap Column String} (h : i.Sets m)
    (old : SortedMap Column String) :
    i.overlay (Record.ofColumns old) = Record.ofColumns (old.insertAll m.entries) := by
  apply Record.eq_ofColumns
  · intro c
    rw [get?_overlay, h.text, Record.get?_ofColumns_text, SortedMap.get?_insertAll_entries,
      Option.map_map]
    cases m.get? c <;> rfl
  · intro name text hget
    rw [get?_overlay] at hget
    cases hset : i.get? name with
    | some l => exact h.column name (by simp [hset])
    | none =>
      rw [hset] at hget
      exact Record.eq_text_of_get?_ofColumns hget

end Insert

namespace Layout

theorem sets_keyInsert (table : String) (r : Request) : (keyInsert table r).Sets r.keys := by
  have hsets := (Insert.sets_into table).setAll r.keys.entries
  have hkeys : SortedMap.empty.insertAll r.keys.entries = r.keys := r.keys.ofList_entries
  rw [hkeys] at hsets
  exact hsets

theorem sets_cellInsert (table : String) (r : Request) (p : Property) :
    (cellInsert table r p).Sets
      ((r.keys.insert p.nameColumn p.name).insert p.valueColumn p.value) :=
  ((sets_keyInsert table r).set p.nameColumn p.name).set p.valueColumn p.value

theorem requireContent_eq_ok {r : Request} (h : r.keys.isEmpty = false ∨ r.cells ≠ []) :
    r.requireContent = .ok () := by
  have hnotEmpty : ¬r.isEmpty = true := by
    rcases h with hkeys | hcells
    · simp [Request.isEmpty, hkeys]
    · simp [Request.isEmpty, hcells]
  rw [Request.requireContent, if_neg hnotEmpty]

/-- Exactly the requests that name columns of the table alone are let through. -/
theorem requireColumns_eq_ok_iff {l : Layout} {table : String} {r : Request} :
    l.requireColumns table r = .ok () ↔ ∀ c ∈ namedColumns r, c ∈ l.columns := by
  unfold requireColumns
  cases hfind : (namedColumns r).find? fun c => !l.columns.contains c with
  | none => simpa [List.find?_eq_none] using hfind
  | some c =>
    have hmem := List.mem_of_find?_eq_some hfind
    have hmissing := List.find?_some hfind
    simp only [reduceCtorEq, false_iff]
    intro hall
    simp [hall c hmem] at hmissing

/-- A request that names columns of the table alone is one insert of its keys, or one for each property. -/
theorem inserts_eq_ok {l : Layout} {table : String} {r : Request}
    {inserts : List Insert} (h : l.inserts table r = .ok inserts) :
    (∀ c ∈ namedColumns r, c ∈ l.columns) ∧
      inserts = if r.cells.isEmpty then [keyInsert table r] else r.cells.map (cellInsert table r) := by
  obtain ⟨_, _, h⟩ := bind_eq_ok_iff.1 h
  obtain ⟨_, hnamed, h⟩ := bind_eq_ok_iff.1 h
  refine ⟨requireColumns_eq_ok_iff.1 hnamed, ?_⟩
  split at h
  next hempty =>
    cases h
    rw [if_pos hempty]
  next hcells =>
    cases h
    rw [if_neg hcells]

/-- A request to delete by an identifier is one deletion. -/
theorem deletes_id {l : Layout} {table : String} {r : Request} (hkeys : r.keys = .empty)
    (hcells : r.cells ≠ []) {values : List String} (hvalues : l.idShape.values r.id = .ok values) :
    l.deletes table r = .ok [⟨table, Clause.equalities (l.identity.zip values)⟩] := by
  have hempty : r.keys.isEmpty = true := by
    rw [hkeys]
    rfl
  rw [deletes, requireContent_eq_ok (.inr hcells), hempty, IdShape.pairs, hvalues]
  rfl

/-- A request to delete by keys is one deletion by these alone, or one for each property. -/
theorem deletes_of_keys {l : Layout} {table : String} {r : Request} (hkeys : r.keys.isEmpty = false)
    (hnamed : ∀ c ∈ namedColumns r, c ∈ l.columns) :
    l.deletes table r =
      .ok (if r.cells.isEmpty || r.hasPresence then [⟨table, Clause.equalities r.keys.entries⟩]
        else r.cells.map fun p => ⟨table,
          Clause.equalities (r.keys.entries ++ [(p.nameColumn, p.name)])⟩) := by
  rw [deletes, requireContent_eq_ok (.inl hkeys), requireColumns_eq_ok_iff.2 hnamed]
  simp only [bind, Except.bind, hkeys, Bool.false_eq_true, ↓reduceIte, Clause.equalities,
    List.map_append, List.map_cons, List.map_nil]
  split <;> rfl

end Layout

/-- Equalities hold of a row exactly if it has all their texts. -/
theorem Table.satisfies_equalities_iff {pairs : List (Column × String)} {row : Record} :
    satisfies (Clause.equalities pairs) row = true ↔
      ∀ e ∈ pairs, row.get? e.1.text = some e.2 := by
  unfold satisfies Clause.equalities
  induction pairs with
  | nil => simp [Clause.holdAll]
  | cons e rest ih =>
    have hequal : (Clause.equals e.1.text e.2).holds row.get? = true ↔
        row.get? e.1.text = some e.2 := by
      rw [Clause.equals, Clause.holds, Restriction.holds, Restriction.column]
      cases row.get? e.1.text with
      | none => simp
      | some s => simp [Restriction.acceptsCell, Literal.compareCell, Comparison.accepts]
    rw [List.map_cons, Clause.holdAll, Bool.and_eq_true, hequal, ih, List.forall_mem_cons]

theorem Table.satisfies_equalities {pairs : List (Column × String)} {m : SortedMap Column String} :
    satisfies (Clause.equalities pairs) (Record.ofColumns m) = true ↔
      ∀ e ∈ pairs, m.get? e.1 = some e.2 := by
  simp only [satisfies_equalities_iff, Record.get?_ofColumns_text]

theorem Clause.restrictionsOf_equalities (pairs : List (Column × String)) :
    restrictionsOf (equalities pairs) =
      pairs.map fun e => .compare e.1.text .eq (.text e.2) := by
  have hleaves : equalities pairs =
      (pairs.map fun e => Restriction.compare e.1.text .eq (.text e.2)).map leaf := by
    rw [equalities, List.map_map]
    rfl
  rw [hleaves, restrictionsOf_map_leaf]

theorem Clause.columns_equalities (pairs : List (Column × String)) :
    (restrictionsOf (equalities pairs)).map Restriction.column = pairs.map fun e => e.1.text := by
  rw [restrictionsOf_equalities, List.map_map]
  rfl

namespace Kind

theorem zip_identity_ne_nil (k : Kind) {id : ElementId} {values : List String}
    (h : k.layout.idShape.values id = .ok values) : k.layout.identity.zip values ≠ [] := by
  have hlength : values.length = k.layout.identity.length := IdShape.length_values h
  have hidentity : k.layout.identity ≠ [] := by cases k <;> decide
  intro hempty
  rw [List.zip_eq_nil_iff] at hempty
  rcases hempty with hnone | rfl
  · exact hidentity hnone
  · exact hidentity (List.eq_nil_of_length_eq_zero hlength.symm)

theorem mem_columns_of_mem_zip (k : Kind) {values : List String} :
    ∀ e ∈ k.layout.identity.zip values, e.1 ∈ k.layout.columns := fun e he =>
  (k.roleOf_of_mem_identity e.1 (List.of_mem_zip he).1).1

end Kind

end GraphTables
