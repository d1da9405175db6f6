import GraphTables.Proofs.Batch.Commit
import GraphTables.Proofs.Batch.Carrying
import GraphTables.Proofs.Query.Rows

namespace GraphTables

open Text

private theorem Kind.nodup_identity (k : Kind) : k.layout.identity.Nodup := by cases k <;> decide

namespace KindTable

variable {t : KindTable} {session : Session}

/-- The session with other rows in the table of the kind. -/
def withRows (t : KindTable) (session : Session) (rows : SortedMap (List String) Record) : Session :=
  { session with store := { session.store with
      tables := session.store.tables.insert (lowercase t.name) ⟨t.schema, rows⟩ } }

/-- A request that is one deletion by texts in columns of the table removes the rows that have them. -/
theorem commitWrites_delete {rows : SortedMap (List String) Record}
    (hrows : session.store.tables.get? (lowercase t.name) = some ⟨t.schema, rows⟩)
    (hopen : session.closed = false) {r : Request} {pairs : List (Column × String)} (hne : pairs ≠ [])
    (hcolumns : ∀ e ∈ pairs, e.1 ∈ t.layout.columns)
    (hdeletes : t.layout.deletes t.name r = .ok [⟨t.name, Clause.equalities pairs⟩]) :
    t.commitWrites session [.delete r] = .ok (t.withRows session
      (rows.filter fun _ row => !Table.satisfies (Clause.equalities pairs) row)) := by
  have hput : t.put t.newBatch (.delete r) =
      .ok (t.newBatch.append [.delete ⟨t.name, Clause.equalities pairs⟩]) := put_delete rfl hdeletes
  have hdelete : session.store.delete ⟨t.name, Clause.equalities pairs⟩ = .ok (t.withRows session
      (rows.filter fun _ row => !Table.satisfies (Clause.equalities pairs) row)).store :=
    Store.modifyTable_eq_ok_iff.2 ⟨_, _, hrows, delete_of_equalities hne hcolumns rows, rfl⟩
  have happly : session.store.applyMembers [.delete ⟨t.name, Clause.equalities pairs⟩] =
      session.store.delete ⟨t.name, Clause.equalities pairs⟩ := bind_pure _
  rw [hdelete] at happly
  rw [commitWrites, List.foldlM_cons, hput]
  exact congrArg (Except.map Prod.snd) (PendingBatch.commit_of_applyMembers hopen happly)

/-- The session without the rows that have the values in their identity columns. -/
def withoutElement (t : KindTable) (session : Session) (rows : SortedMap (List String) Record)
    (values : List String) : Session :=
  t.withRows session (rows.filter fun _ row => t.layout.identityTexts row != values.map some)

section Whole

variable {rows : SortedMap (List String) Record} {id : ElementId} {values : List String}
  (hrows : session.store.tables.get? (lowercase t.name) = some ⟨t.schema, rows⟩)
  (hopen : session.closed = false) (hvalues : t.layout.idShape.values id = .ok values)

include hrows hopen hvalues

/-- A deletion by the values of an identifier, in whatever order, removes the rows of the element. -/
theorem commitWrites_delete_element {r : Request} {pairs : List (Column × String)}
    (hpairs : ∀ e, e ∈ pairs ↔ e ∈ t.layout.identity.zip values)
    (hdeletes : t.layout.deletes t.name r = .ok [⟨t.name, Clause.equalities pairs⟩]) :
    t.commitWrites session [.delete r] = .ok (t.withoutElement session rows values) := by
  have hlength : values.length = t.layout.identity.length := IdShape.length_values hvalues
  have hne : pairs ≠ [] := by
    obtain ⟨e, he⟩ := List.exists_mem_of_ne_nil _ (t.kind.zip_identity_ne_nil hvalues)
    exact List.ne_nil_of_mem ((hpairs e).2 he)
  have hcolumns : ∀ e ∈ pairs, e.1 ∈ t.layout.columns := fun e he =>
    t.kind.mem_columns_of_mem_zip e ((hpairs e).1 he)
  have hsatisfies : ∀ row, Table.satisfies (Clause.equalities pairs) row =
      (t.layout.identityTexts row == values.map some) := by
    intro row
    rw [Bool.eq_iff_iff, Layout.satisfies_identity_iff hlength hpairs, beq_iff_eq]
  rw [commitWrites_delete hrows hopen hne hcolumns hdeletes, withoutElement]
  simp only [hsatisfies]
  rfl

private theorem commitWrites_delete_id {cells : List Property} (hcells : cells ≠ []) :
    t.commitWrites session [.delete ⟨id, .empty, cells⟩] =
      .ok (t.withoutElement session rows values) := by
  have hdeletes : t.layout.deletes t.name ⟨id, .empty, cells⟩ =
      .ok [⟨t.name, Clause.equalities (t.layout.identity.zip values)⟩] :=
    Layout.deletes_id rfl hcells hvalues
  exact commitWrites_delete_element hrows hopen hvalues (fun _ => Iff.rfl) hdeletes

private theorem commitWrites_delete_keys (other : ElementId) {cells : List Property}
    (hcells : ∀ p ∈ cells, p.nameColumn ∈ t.layout.columns ∧ p.valueColumn ∈ t.layout.columns)
    (hwhole : cells = [] ∨ ∃ p ∈ cells, p.isPresence = true) :
    t.commitWrites session [.delete ⟨other, .ofList (t.layout.identity.zip values), cells⟩] =
      .ok (t.withoutElement session rows values) := by
  let keys : SortedMap Column String := .ofList (t.layout.identity.zip values)
  have hlength : values.length = t.layout.identity.length := IdShape.length_values hvalues
  have hmem : ∀ e, e ∈ keys.entries ↔ e ∈ t.layout.identity.zip values :=
    SortedMap.mem_entries_ofList (SortedMap.nodup_map_fst_zip t.kind.nodup_identity hlength)
  have hkeys : keys.isEmpty = false := by
    obtain ⟨e, he⟩ := List.exists_mem_of_ne_nil _ (t.kind.zip_identity_ne_nil hvalues)
    exact List.isEmpty_eq_false_iff.2 (List.ne_nil_of_mem ((hmem e).2 he))
  have hnamed : ∀ c ∈ Layout.namedColumns ⟨other, keys, cells⟩, c ∈ t.layout.columns := by
    intro c hc
    rcases List.mem_append.1 hc with hkey | hcell
    · obtain ⟨e, he, rfl⟩ := List.mem_map.1 hkey
      exact t.kind.mem_columns_of_mem_zip e ((hmem e).1 he)
    · obtain ⟨p, hp, hc⟩ := List.mem_flatMap.1 hcell
      rcases List.mem_pair.1 hc with rfl | rfl
      · exact (hcells p hp).1
      · exact (hcells p hp).2
  have hone : (cells.isEmpty || Request.hasPresence ⟨other, keys, cells⟩) = true := by
    rw [Bool.or_eq_true, List.isEmpty_iff, Request.hasPresence, List.any_eq_true]
    exact hwhole
  have hdeletes : t.layout.deletes t.name ⟨other, keys, cells⟩ =
      .ok [⟨t.name, Clause.equalities keys.entries⟩] := by
    rw [Layout.deletes_of_keys hkeys hnamed]
    exact congrArg Except.ok (if_pos hone)
  exact commitWrites_delete_element hrows hopen hvalues hmem hdeletes

end Whole

/-- The deletion of an element by its identifier and that by the texts of its identity columns agree. On an
    open session with the table of the kind, for every identifier that fits the identity columns, both are
    committed and leave the same session. Its table has lost the rows that have the values of the identifier
    in their identity columns, and no others, and nothing else has changed.

    * By the identifier: the request has no keys, and any properties.
    * By the keys: the identity columns have the values of the identifier, and the request has any
      identifier. It has no properties, or some in columns of the table with a presence mark among them. -/
theorem commit_delete_whole (h : t.Created session) (hopen : session.closed = false) {id : ElementId}
    {values : List String} (hvalues : t.layout.idShape.values id = .ok values) :
    ∃ rows, session.store.tables.get? (lowercase t.name) = some ⟨t.schema, rows⟩ ∧
      (∀ cells, cells ≠ [] → t.commitWrites session [.delete ⟨id, .empty, cells⟩] =
        .ok (t.withoutElement session rows values)) ∧
      ∀ other cells,
        (∀ p ∈ cells, p.nameColumn ∈ t.layout.columns ∧ p.valueColumn ∈ t.layout.columns) →
        (cells = [] ∨ ∃ p ∈ cells, p.isPresence = true) →
        t.commitWrites session [.delete ⟨other, .ofList (t.layout.identity.zip values), cells⟩] =
          .ok (t.withoutElement session rows values) := by
  obtain ⟨rows, hrows, _⟩ := h.exists_rows
  exact ⟨rows, hrows, fun _ hcells => commitWrites_delete_id hrows hopen hvalues hcells,
    fun other _ hcells hwhole => commitWrites_delete_keys hrows hopen hvalues other hcells hwhole⟩

/-- A person is deleted with both properties, by the identifier and by the keys. The others keep theirs. -/
theorem commit_delete_whole_people :
    let person : ElementId := .composite ["person", "29"]
    let keys : SortedMap Column String := .ofList [(.label, "person"), (.primaryValues, "29")]
    let age : Property := ⟨.propertyKey, "age", .propertyValue, "27"⟩
    ∃ after, people.commitWrites .people [.delete ⟨person, .empty, [age]⟩] = .ok after ∧
      people.commitWrites .people [.delete ⟨⟨""⟩, keys, []⟩] = .ok after ∧
      people.commitWrites .people [.delete ⟨⟨"x"⟩, keys, [age, .presence]⟩] = .ok after ∧
      (after.store.tables.get? (lowercase people.name)).map (·.rows.keys) =
        some [["person", "4", "city"], ["person", "4", "name"], ["person", "x", "city"],
          ["person", "x", "name"]] := by
  intro person keys age
  have hvalues : people.layout.idShape.values person = .ok ["person", "29"] := by decide +kernel
  obtain ⟨rows, hrows, hid, hkeys⟩ := commit_delete_whole created_people rfl hvalues
  refine ⟨_, hid [age] (by simp), hkeys _ [] (by simp) (.inl rfl),
    hkeys _ [age, .presence] (by decide) (.inr (by decide)), ?_⟩
  rw [lowercase_name_people] at hrows
  cases hrows
  rw [withoutElement, withRows, SortedMap.get?_insert, if_pos rfl]
  decide +kernel

end KindTable

end GraphTables
