import GraphTables.Proofs.Schema.Setup
import GraphTables.Proofs.Store.Integrity

namespace GraphTables

open Text

namespace SchemaChange

/-- If the statement that creates the table of a kind creates a table of its name, it is the table of the
    kind, whatever the name. -/
theorem eq_schema_of_read_render {t : KindTable} {change : SchemaChange}
    (h : read ((TableDefinition.ofLayout t.layout t.name).render t.settings.columnType) = .ok change) :
    ∃ schema, change = .createTable schema true ∧
      (schema.name = lowercase t.name → schema = t.schema) := by
  have hvalid : (TableDefinition.ofLayout t.layout t.name).validate = .ok () :=
    validate_ofLayout t.kind t.name
  have hread := read_render_eq hvalid t.settings.columnType
  rw [h] at hread
  let body := [',', ' '].intercalate
    ((TableDefinition.ofLayout t.layout t.name).bodyParts t.settings.columnType)
  have hread : readCreateTable ("IF NOT EXISTS".toList ++ ' ' ::
      (t.name.toList ++ '(' :: (body ++ [')']))) = .ok change := hread.symm
  by_cases hopen : '(' ∈ t.name.toList
  · -- The table is created under the part of the name before its first parenthesis.
    obtain ⟨before, after, hname, hbefore⟩ := List.eq_append_cons_of_mem hopen
    have hsplit : t.name.toList ++ '(' :: (body ++ [')']) =
        before ++ '(' :: ((after ++ '(' :: body) ++ [')']) := by
      rw [hname]
      simp only [List.append_assoc, List.cons_append]
    rw [hsplit, readCreateTable_eq_ok_iff hbefore] at hread
    obtain ⟨_, columns, partitionKey, clusteringKey, _, rfl⟩ := hread
    refine ⟨_, rfl, fun heq => ?_⟩
    have hlower := mem_lowercase_of_isSmallAscii (by decide) hopen
    rw [← heq] at hlower
    have hpart := open_mem_of_mem_lowercase hlower
    rw [String.toList_ofList] at hpart
    exact absurd (mem_of_mem_trim hpart) hbefore
  · rw [readCreateTable_eq_ok_iff hopen] at hread
    obtain ⟨_, columns, partitionKey, clusteringKey, hparts, rfl⟩ := hread
    refine ⟨_, rfl, fun hname => ?_⟩
    rw [readParts_body hvalid KindTable.isName_ofLayout] at hparts
    simp only [Except.ok.injEq, Prod.mk.injEq, Option.some.injEq] at hparts
    obtain ⟨rfl, rfl, rfl⟩ := hparts
    dsimp only at hname
    rw [hname, ← KindTable.schema_ofLayout]
    rfl

end SchemaChange

namespace Store

private theorem tables_of_createIndex {s s' : Store} {name table column : String}
    (h : s.changeSchema (.createIndex name table column) = .ok s') : s'.tables = s.tables := by
  rw [changeSchema] at h
  split at h
  · cases h
  · obtain ⟨_, _, h⟩ := bind_eq_ok_iff.1 h
    split at h
    · cases h
    · split at h
      · cases h
      · cases h
        rfl

/-- A schema change leaves the table of a name, drops it, or creates it where there was none. -/
theorem get?_tables_of_changeSchema {s s' : Store} {change : SchemaChange}
    (h : s.changeSchema change = .ok s') (name : String) :
    s'.tables.get? name = s.tables.get? name ∨
      (s'.tables.get? name = none ∧ ∃ ifPresent, change = .dropTable name ifPresent) ∨
      s.tables.get? name = none ∧ ∃ schema ifAbsent, change = .createTable schema ifAbsent ∧
        schema.name = name ∧ s'.tables.get? name = some ⟨schema, .empty⟩ := by
  cases change with
  | createTable schema ifAbsent =>
    rw [changeSchema] at h
    split at h
    · split at h
      · cases h
        exact .inl rfl
      · cases h
    next habsent =>
      split at h
      next table hcreate =>
        cases h
        rw [SortedMap.get?_insert]
        split
        next hname =>
          have habsent : s.tables.get? name = none := by
            rwa [SortedMap.contains, Bool.not_eq_true, Option.isSome_eq_false_iff,
              Option.isNone_iff_eq_none, ← hname] at habsent
          refine .inr (.inr ⟨habsent, schema, ifAbsent, rfl, hname.symm, ?_⟩)
          rw [Table.eq_of_create hcreate]
        next => exact .inl rfl
      next => cases h
  | createIndex index table column =>
    rw [tables_of_createIndex h]
    exact .inl rfl
  | dropTable dropped ifPresent =>
    rw [changeSchema] at h
    split at h
    · cases h
      rw [SortedMap.get?_erase]
      split
      next hname => exact .inr (.inl ⟨rfl, ifPresent, by rw [hname]⟩)
      next => exact .inl rfl
    · cases h

end Store

namespace Session

theorem execute_raw_eq_ok {session session' : Session} {text : String} {rows : ResultSet}
    (h : session.execute (.raw text) = .ok (session', rows)) :
    ∃ change store, SchemaChange.read text = .ok change ∧
      session.store.changeSchema change = .ok store ∧ session' = { session with store } := by
  unfold execute at h
  split at h
  · cases h
  · cases hread : SchemaChange.read text with
    | error fault => simp [hread] at h
    | ok change =>
      simp only [hread] at h
      obtain ⟨store, hstore, hsession, _⟩ := withStore_eq_ok_iff.1 h
      exact ⟨change, store, rfl, hstore, hsession⟩

/-- A table that is still there after a statement has the schema it had, unless the statement created
    it. -/
theorem schema?_of_execute {session session' : Session} {statement : Statement} {rows : ResultSet}
    (h : session.execute statement = .ok (session', rows)) {name : String} {schema : TableSchema}
    (hbefore : session.store.schema? name = some schema)
    (hafter : (session'.store.schema? name).isSome) : session'.store.schema? name = some schema := by
  obtain rfl | ⟨members, store, happly, rfl⟩ | ⟨text, change, store, _, hchange, rfl⟩ :=
    execute_cases h
  · exact hbefore
  · rw [← hbefore]
    exact Store.schema?_of_applyMembers happly name
  · rw [← hbefore, Store.schema?, Store.schema?]
    rw [Store.schema?] at hbefore hafter
    rcases Store.get?_tables_of_changeSchema hchange (lowercase name) with
      hsame | ⟨hdropped, _⟩ | ⟨habsent, _⟩
    · rw [hsame]
    · rw [hdropped] at hafter
      cases hafter
    · rw [habsent] at hbefore
      cases hbefore

/-- Statements that create indexes change no table. -/
theorem tables_executeAll_indexes (session : Session) {α : Type} (xs : List α)
    (name table column : α → String) :
    (session.executeAll (xs.map fun x =>
      .raw (createIndexStatement (name x) (table x) (column x)))).1.store.tables =
        session.store.tables := by
  induction xs generalizing session with
  | nil => rfl
  | cons x xs ih =>
    rw [List.map_cons, executeAll]
    cases hexecute : session.execute (.raw (createIndexStatement (name x) (table x) (column x))) with
    | error e => rfl
    | ok result =>
      obtain ⟨session', rows⟩ := result
      obtain ⟨change, store, hread, hchange, rfl⟩ := execute_raw_eq_ok hexecute
      rw [SchemaChange.read_createIndexStatement_eq] at hread
      obtain ⟨index, target, indexed, rfl⟩ := SchemaChange.readCreateIndex_cases hread
      exact (ih _).trans (Store.tables_of_createIndex hchange)

end Session

namespace KindTable

/-- The sessions in which the table was created for its kind, under whatever settings, and is still
    there. -/
inductive Created (t : KindTable) : Session → Prop where
  | init {session : Session} {creator : KindTable} : session.Reachable → creator.kind = t.kind →
      lowercase creator.name = lowercase t.name → session.store.schema? t.name = none →
      ((creator.init session).1.store.schema? t.name).isSome → Created t (creator.init session).1
  | execute {session session' : Session} {statement : Statement} {rows : ResultSet} :
      Created t session → session.execute statement = .ok (session', rows) →
      (session'.store.schema? t.name).isSome → Created t session'
  | close {session : Session} : Created t session → Created t session.close

variable {t : KindTable} {session : Session}

private theorem Created.reachable (h : t.Created session) : session.Reachable := by
  induction h with
  | @init session creator hreachable => exact hreachable.executeAll creator.setup
  | execute _ hexecute _ ih => exact ih.execute hexecute
  | close _ ih => exact ih.close

/-- A table that an initialization creates is created with the schema of its kind. -/
theorem schema?_of_init (habsent : session.store.schema? t.name = none)
    (hpresent : ((t.init session).1.store.schema? t.name).isSome) :
    (t.init session).1.store.schema? t.name = some t.schema := by
  have hinit : (t.init session).1 = (session.executeAll t.setup).1 := rfl
  rw [hinit, setup, Session.executeAll] at hpresent ⊢
  cases hexecute : session.execute (.raw
      ((TableDefinition.ofLayout t.layout t.name).render t.settings.columnType)) with
  | error e =>
    rw [hexecute] at hpresent
    dsimp only at hpresent
    rw [habsent] at hpresent
    cases hpresent
  | ok result =>
    obtain ⟨session', rows⟩ := result
    obtain ⟨change, store, hread, hchange, rfl⟩ := Session.execute_raw_eq_ok hexecute
    obtain ⟨schema, rfl, hschema⟩ := SchemaChange.eq_schema_of_read_render hread
    rw [hexecute] at hpresent
    dsimp only at hpresent ⊢
    rw [Store.schema?, Session.tables_executeAll_indexes] at hpresent ⊢
    dsimp only at hpresent ⊢
    have hnone : session.store.tables.get? (lowercase t.name) = none := Option.map_eq_none_iff.1 habsent
    rcases Store.get?_tables_of_changeSchema hchange (lowercase t.name) with
      hsame | ⟨hdropped, _⟩ | ⟨_, schema, ifAbsent, hcreate, hname, hfound⟩
    · rw [hsame, hnone] at hpresent
      cases hpresent
    · rw [hdropped] at hpresent
      cases hpresent
    · cases hcreate
      rw [hfound, hschema hname]
      rfl

/-- As long as the table is there, it has the schema of its kind. -/
theorem Created.schema? (h : t.Created session) : session.store.schema? t.name = some t.schema := by
  induction h with
  | @init session creator _ hkind hname habsent hpresent =>
    have hlookup : ∀ store : Store, store.schema? creator.name = store.schema? t.name := by
      intro store
      rw [Store.schema?, Store.schema?, hname]
    have hschema : creator.schema = t.schema := by
      rw [KindTable.schema, KindTable.schema, layout, layout, hkind, hname]
    rw [← hlookup] at habsent hpresent ⊢
    rw [schema?_of_init habsent hpresent, hschema]
  | execute _ hexecute hpresent ih => exact Session.schema?_of_execute hexecute ih hpresent
  | close _ ih => exact ih

/-- The table of the kind with its rows, which are in order. -/
theorem Created.exists_rows (h : t.Created session) :
    ∃ rows, session.store.tables.get? (lowercase t.name) = some ⟨t.schema, rows⟩ ∧
      Table.Intact ⟨t.schema, rows⟩ := by
  obtain ⟨⟨schema, rows⟩, htable, rfl⟩ := Option.map_eq_some_iff.1 h.schema?
  obtain ⟨hintact, _⟩ := Session.intact_of_reachable h.reachable
  exact ⟨rows, htable, hintact.tables _ _ htable⟩

/-- A table of people, of whom each has two rows. -/
def people : KindTable := { kind := .vertex, settings := { fanOut := 2, tablePrefix := some "G7" } }

theorem lowercase_name_people : lowercase people.name = "g7_vertices" := by decide +kernel

/-- The cells of the row of a property of a person. -/
def personCells (number name value : String) : List (String × String) :=
  [("label", "person"), ("primary_values", number), ("property_key", name), ("property_value", value)]

/-- A person with properties, as it is read from the table of people. -/
def person (number : String) (properties : List (String × String)) : Element :=
  ⟨.vertex, .ofList [(.label, "person"), (.primaryValues, number)],
    properties.map fun p => ⟨.propertyKey, p.1, .propertyValue, p.2⟩⟩

/-- The properties of three people, one of them without a number. -/
def personProperties : List (String × String × String) :=
  [("29", "name", "vadas"), ("4", "name", "josh"), ("29", "city", "Oslo"), ("4", "city", "Bonn"),
    ("x", "name", "lop"), ("x", "city", "Riga")]

end KindTable

/-- A session with the table of people. -/
def Session.people : Session where
  store.tables := SortedMap.empty.insert "g7_vertices" ⟨KindTable.people.schema,
    .ofList (KindTable.personProperties.map fun p =>
      (["person", p.1, p.2.1], .ofList (KindTable.personCells p.1 p.2.1 p.2.2)))⟩

theorem KindTable.created_people : people.Created .people := by
  have hplain : people.settings.PlainPrefix := by decide
  have hinit := init_new hplain
  have hpresent : ((people.init {}).1.store.schema? people.name).isSome := by
    rw [hinit, Store.schema?, SortedMap.get?_insert, if_pos rfl]
    rfl
  have hcreated : people.Created (people.init {}).1 := .init .new rfl rfl rfl hpresent
  have hexecute : (people.init {}).1.execute (.batch (personProperties.map fun p =>
      .insert ((Insert.into people.name).setAll
        ((personCells p.1 p.2.1 p.2.2).map fun c => (c.1, .text c.2))))) = .ok (.people, {}) := by
    rw [hinit, lowercase_name_people]
    decide +kernel
  exact hcreated.execute hexecute (by decide +kernel)

end GraphTables
