import GraphTables.Proofs.Store.Integrity

namespace GraphTables

namespace Table

private theorem satisfies_iff {clauses : List Clause} {row : Record} :
    satisfies clauses row = true ↔ ∀ r ∈ Clause.restrictionsOf clauses, r.holds row.get? = true := by
  rw [satisfies, Clause.holdAll_eq_all, List.all_eq_true]

/-- A row is removed exactly if all restrictions hold of it. -/
theorem get?_remove_eq_none_iff {t : Table} {key : List String} {row : Record}
    (hrow : t.rows.get? key = some row) (clauses : List Clause) :
    (t.remove clauses).rows.get? key = none ↔
      ∀ r ∈ Clause.restrictionsOf clauses, r.holds row.get? = true := by
  rw [get?_remove, hrow, ← satisfies_iff]
  cases hsatisfies : satisfies clauses row with
  | false => simp [Option.filter, hsatisfies]
  | true => simp [Option.filter, hsatisfies]

/-- A deletion without restrictions is refused for want of clauses only. -/
theorem delete_eq_error_iff {t : Table} {d : Delete} (h : d.restrictions = []) {r : Rejection} :
    t.delete d = .error r ↔ d.clauses = [] ∧ r = .unrestrictedDelete t.schema.name := by
  unfold delete
  split
  next hempty => simp [List.isEmpty_iff.1 hempty, eq_comm]
  next hclauses =>
    have hne : d.clauses ≠ [] := by simpa using hclauses
    rw [h, List.map_nil]
    simp [requireColumns, bind, Except.bind, hne]

end Table

namespace Session

variable {session : Session}

/-- Exactly the deletions from a table of the store that have clauses, on columns of the table, are
    applied. -/
theorem execute_delete_eq_ok_iff (hopen : session.closed = false) {d : Delete} {session' : Session}
    {rows : ResultSet} :
    session.execute (.delete d) = .ok (session', rows) ↔
      ∃ t, session.store.table d.table = .ok t ∧ d.clauses ≠ [] ∧
        (∀ r ∈ d.restrictions, r.column ∈ t.schema.columns) ∧
        session'.store = { session.store with
          tables := session.store.tables.insert (Text.lowercase d.table) (t.remove d.clauses) } ∧
        session'.closed = false ∧ rows = {} := by
  rw [execute_eq_applyMember hopen rfl, withStore_eq_ok_iff]
  simp only [Store.applyMember, Store.delete, Store.modifyTable_eq_ok_iff, Store.table_eq_ok_iff,
    Table.delete_eq_ok_iff]
  constructor
  · rintro ⟨_, ⟨t, _, htable, ⟨hclauses, hcolumns, rfl⟩, rfl⟩, rfl, rfl⟩
    exact ⟨t, htable, hclauses, hcolumns, rfl, hopen, rfl⟩
  · rintro ⟨t, htable, hclauses, hcolumns, hstore, hclosed, rfl⟩
    refine ⟨_, ⟨t, _, htable, ⟨hclauses, hcolumns, rfl⟩, rfl⟩, ?_, rfl⟩
    obtain ⟨store, closed⟩ := session'
    dsimp only at hstore hclosed
    rw [hstore, hclosed, hopen]

/-- A deletion without restrictions is refused exactly if it has no clauses, or no table. -/
theorem execute_delete_unrestricted (hopen : session.closed = false) {d : Delete}
    (hrestrictions : d.restrictions = []) :
    (∃ e, session.execute (.delete d) = .error e) ↔
      d.clauses = [] ∨ session.store.schema? d.table = none := by
  rw [execute_eq_applyMember hopen rfl]
  simp only [withStore_eq_error_iff, Store.applyMember, Store.delete, Store.modifyTable_eq_error_iff,
    Table.delete_eq_error_iff hrestrictions, Store.schema?]
  cases session.store.tables.get? (Text.lowercase d.table) with
  | none => simp
  | some t =>
    constructor
    · rintro ⟨e, ⟨hmissing, _⟩ | ⟨_, _, _, ⟨hclauses, _⟩, _⟩⟩
      · cases hmissing
      · exact .inl hclauses
    · rintro (hclauses | hmissing)
      · exact ⟨_, .inr ⟨t, _, rfl, ⟨hclauses, rfl⟩, rfl⟩⟩
      · cases hmissing

/-- A batch is refused if the session refuses a member of it alone. -/
theorem execute_batch_of_refused (hopen : session.closed = false) {member : Statement} {e : StoreError}
    (h : session.execute member = .error e) {members : List Statement} (hmember : member ∈ members) :
    ∃ e', session.execute (.batch members) = .error e' := by
  cases hresult : session.execute (.batch members) with
  | error e' => exact ⟨e', rfl⟩
  | ok result =>
    obtain ⟨haccept, _⟩ := (execute_batch_eq_ok_iff hopen).1 hresult
    obtain ⟨_, _, hok⟩ := haccept member hmember
    rw [h] at hok
    cases hok

end Session

/-- What a deletion does on an open session. One that has no restrictions is refused if it has no clauses
    or its table is missing, and only then. A refused deletion leaves the workspace as it was, and so does
    any batch that it is a member of. An applied one has at least one clause, and removes from its table
    the rows of which all its restrictions hold: if it has restrictions, each of these holds of every row
    removed, and if it has none, all rows go. -/
theorem Workspace.execute_delete {w : Workspace} (hopen : w.session.closed = false) (d : Delete) :
    (d.restrictions = [] → ((∃ e, w.execute (.delete d) = (w, .error e)) ↔
        d.clauses = [] ∨ w.session.store.schema? d.table = none)) ∧
      (∀ w' e, w.execute (.delete d) = (w', .error e) → w' = w ∧
        ∀ members, .delete d ∈ members → ∃ e', w.execute (.batch members) = (w, .error e')) ∧
      ∀ w' rows, w.execute (.delete d) = (w', .ok rows) → d.clauses ≠ [] ∧
        ∃ t, w.session.store.table d.table = .ok t ∧
          w'.session.store = { w.session.store with
            tables := w.session.store.tables.insert (Text.lowercase d.table) (t.remove d.clauses) } ∧
          ∀ key row, t.rows.get? key = some row → ((t.remove d.clauses).rows.get? key = none ↔
            ∀ r ∈ d.restrictions, r.holds row.get? = true) := by
  have herror {s : Statement} {w' : Workspace} {e : StoreError} :
      w.execute s = (w', .error e) ↔ w' = w ∧ w.session.execute s = .error e := by
    unfold execute
    cases w.session.execute s <;> simp [eq_comm]
  refine ⟨fun hrestrictions => ?_, fun w' e hrefused => ?_, fun w' rows happlied => ?_⟩
  · simp only [herror, true_and]
    exact Session.execute_delete_unrestricted hopen hrestrictions
  · obtain ⟨rfl, hrefused⟩ := herror.1 hrefused
    refine ⟨rfl, fun members hmember => ?_⟩
    obtain ⟨e', he'⟩ := Session.execute_batch_of_refused hopen hrefused hmember
    exact ⟨e', herror.2 ⟨rfl, he'⟩⟩
  · unfold execute at happlied
    cases hresult : w.session.execute (.delete d) with
    | error e =>
      rw [hresult] at happlied
      cases happlied
    | ok result =>
      rw [hresult] at happlied
      cases happlied
      obtain ⟨t, htable, hclauses, _, hstore, _⟩ :=
        (Session.execute_delete_eq_ok_iff hopen).1 hresult
      exact ⟨hclauses, t, htable, hstore, fun key row hrow =>
        Table.get?_remove_eq_none_iff hrow d.clauses⟩

/-- A notebook with one note in it. -/
def Session.noted : Session where
  store.tables := SortedMap.empty.insert "notes"
    ⟨⟨"notes", ["title", "body"], ["title"], []⟩,
      SortedMap.empty.insert ["a"] (.ofList [("title", "a"), ("body", "b")])⟩

theorem Session.reachable_noted : Session.noted.Reachable := by
  have hnoted : (Session.notebook.executeAll
      [.insert ((Insert.into "notes").setAll [("title", .text "a"), ("body", .text "b")])]).1 =
        .noted := by decide +kernel
  rw [← hnoted]
  exact (Reachable.new.executeAll _).executeAll _

/-- A deletion without clauses makes a batch fail with a deletion that goes through alone. -/
theorem Workspace.execute_delete_noted :
    let w : Workspace := { session := .noted }
    let byTitle : Delete := ⟨"NOTES", [.leaf (.compare "title" .eq (.text "a"))]⟩
    w.session.closed = false ∧ (w.execute (.delete byTitle)).2 = .ok {} ∧
      ∃ e, w.execute (.batch [.delete byTitle, .delete ⟨"notes", []⟩]) = (w, .error e) := by
  intro w byTitle
  obtain ⟨hunrestricted, hrefused, _⟩ := execute_delete (w := w) rfl ⟨"notes", []⟩
  obtain ⟨e, he⟩ := (hunrestricted rfl).2 (.inl rfl)
  exact ⟨rfl, by decide +kernel, (hrefused w e he).2 _ (by simp)⟩

/-- A deletion by an empty conjunction has no restrictions, is applied, and removes all notes. -/
theorem Session.execute_empty_conjunction :
    let d : Delete := ⟨"notes", [.all []]⟩
    Session.noted.Reachable ∧ Session.noted.closed = false ∧ d.restrictions = [] ∧
      Session.noted.rowCount "notes" = .ok 1 ∧
      ∃ emptied rows, Session.noted.execute (.delete d) = .ok (emptied, rows) ∧
        emptied.rowCount "notes" = .ok 0 := by
  intro d
  have hcount : (Session.noted.execute (.delete d)).map (fun result => result.1.rowCount "notes") =
      .ok (.ok 0) := by decide +kernel
  obtain ⟨⟨emptied, rows⟩, hexecute, hempty⟩ := map_eq_ok_iff.1 hcount
  exact ⟨reachable_noted, rfl, rfl, by decide +kernel, emptied, rows, hexecute, hempty⟩

end GraphTables
