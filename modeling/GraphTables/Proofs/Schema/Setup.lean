import GraphTables.Proofs.Schema.Statements
import GraphTables.Proofs.Text.Lowercase

namespace GraphTables

open Text

theorem forall_mem_append {p : Char → Prop} {s u : String} (hs : ∀ c ∈ s.toList, p c)
    (hu : ∀ c ∈ u.toList, p c) : ∀ c ∈ (s ++ u).toList, p c := by
  rw [String.toList_append, List.forall_mem_append]
  exact ⟨hs, hu⟩

private theorem isName_indexName {table column : String} (htable : IsName table) (hcolumn : IsName column) :
    IsName (indexName table column) := by
  refine ⟨by simp [indexName], ?_⟩
  have hseparator : IsName "_" := isName_of_all (by decide) (by decide)
  have hend : IsName "_index" := isName_of_all (by decide) (by decide)
  exact forall_mem_append (forall_mem_append (forall_mem_append htable.chars hseparator.chars)
    hcolumn.chars) hend.chars

theorem lowercase_columnText (c : Column) : lowercase c.text = c.text := by
  apply lowercase_of_isSmallAscii
  cases c <;> decide

private theorem map_lowercase_columnText (columns : List Column) :
    (columns.map Column.text).map lowercase = columns.map Column.text := by
  rw [List.map_map]
  apply List.map_congr_left
  intro c _
  exact lowercase_columnText c

namespace Settings

/-- There is no prefix, or one of ASCII letters, digits and low lines. -/
def PlainPrefix (s : Settings) : Prop :=
  ∀ p, s.tablePrefix = some p → ∀ c ∈ p.toList, isNameChar c = true

instance (s : Settings) : Decidable s.PlainPrefix :=
  decidable_of_iff (s.tablePrefix.all fun p => p.toList.all isNameChar) (by
    unfold PlainPrefix
    cases s.tablePrefix <;> simp)

private theorem isName_layoutTable (k : Kind) : IsName k.layout.table := by
  cases k <;> exact isName_of_all (by decide) (by decide)

theorem isName_tableName {s : Settings} (h : s.PlainPrefix) (k : Kind) : IsName (s.tableName k) := by
  have htable := isName_layoutTable k
  unfold tableName
  split
  next p hp =>
    have hseparator : IsName "_" := isName_of_all (by decide) (by decide)
    exact ⟨by simp, forall_mem_append (forall_mem_append (h p hp) hseparator.chars) htable.chars⟩
  next => exact htable

end Settings

/-- At most one column has an index. It is a column of the table, and not its whole partition key. -/
theorem Kind.indexed_layout (k : Kind) :
    k.layout.indexed = [] ∨ ∃ c ∈ k.layout.columns, k.layout.indexed = [c] ∧
      k.layout.partitionKey.map Column.text ≠ [c.text] := by
  cases k <;> decide

namespace KindTable

/-- The shape under which the store keeps the table of a kind. -/
def schema (t : KindTable) : TableSchema where
  name := lowercase t.name
  columns := t.layout.columns.map Column.text
  partitionKey := t.layout.partitionKey.map Column.text
  clusteringKey := t.layout.clusteringKey.map Column.text

theorem primaryKey_schema (t : KindTable) :
    t.schema.primaryKey = t.layout.primaryKey.map Column.text := List.map_append.symm

theorem mem_columns_schema {t : KindTable} {c : Column} (h : c ∈ t.layout.columns) :
    c.text ∈ t.schema.columns := List.mem_map_of_mem h

theorem schema_ofLayout (t : KindTable) :
    (TableDefinition.ofLayout t.layout t.name).schema = t.schema := by
  unfold TableDefinition.schema TableDefinition.ofLayout
  dsimp only
  rw [map_lowercase_columnText, map_lowercase_columnText, map_lowercase_columnText]
  rfl

theorem isName_ofLayout {l : Layout} {table : String} :
    ∀ c ∈ (TableDefinition.ofLayout l table).columns, IsName c := by
  intro c hc
  obtain ⟨column, _, rfl⟩ := List.mem_map.1 hc
  exact isName_columnText column

theorem read_setup {t : KindTable} (hplain : t.settings.PlainPrefix) :
    SchemaChange.read ((TableDefinition.ofLayout t.layout t.name).render t.settings.columnType) =
      .ok (.createTable t.schema true) := by
  have hvalid : (TableDefinition.ofLayout t.layout t.name).validate = .ok () :=
    validate_ofLayout t.kind t.name
  have hname : IsName (TableDefinition.ofLayout t.layout t.name).table :=
    Settings.isName_tableName hplain t.kind
  rw [SchemaChange.read_render hvalid hname isName_ofLayout, ← schema_ofLayout]
  rfl

/-- The name under which the store keeps the index of a column. -/
def indexKey (t : KindTable) (c : Column) : String := lowercase (indexName t.name c.text)

/-- Neither the table nor an index of it is in the store. -/
structure Missing (t : KindTable) (s : Store) : Prop where
  table : s.tables.get? (lowercase t.name) = none
  indexes : ∀ c ∈ t.layout.indexed, s.indexes.get? (t.indexKey c) = none

/-- The statement that creates an index of the table of a kind is read as the creation of that index. -/
theorem read_createIndex {t : KindTable} (hplain : t.settings.PlainPrefix) (c : Column) :
    SchemaChange.read (createIndexStatement (indexName t.name c.text) t.name c.text) =
      .ok (.createIndex (t.indexKey c) (lowercase t.name) c.text) := by
  have hname : IsName t.name := Settings.isName_tableName hplain t.kind
  have hcolumn := isName_columnText c
  rw [SchemaChange.read_createIndexStatement (isName_indexName hname hcolumn) hname hcolumn,
    lowercase_columnText]
  rfl

/-- Where the table and its indexes are missing, they are created, the table without rows, and nothing
    else is changed. -/
theorem init_of_missing {t : KindTable} (hplain : t.settings.PlainPrefix) {session : Session}
    (hopen : session.closed = false) (h : t.Missing session.store) :
    t.init session = ({ session with store :=
      { tables := session.store.tables.insert (lowercase t.name) ⟨t.schema, .empty⟩
        indexes := session.store.indexes.insertAll (t.layout.indexed.map fun c =>
          (t.indexKey c, ⟨lowercase t.name, c.text⟩)) } }, .ok ()) := by
  have hvalid : (TableDefinition.ofLayout t.layout t.name).validate = .ok () :=
    validate_ofLayout t.kind t.name
  let store : Store := { session.store with
    tables := session.store.tables.insert (lowercase t.name) ⟨t.schema, .empty⟩ }
  have hcreate : session.execute (.raw
      ((TableDefinition.ofLayout t.layout t.name).render t.settings.columnType)) =
        .ok ({ session with store }, {}) := by
    have habsent : ¬session.store.tables.contains t.schema.name = true := by
      have hname : t.schema.name = lowercase t.name := rfl
      rw [SortedMap.contains, hname, h.table]
      simp
    rw [Session.execute_raw hopen (read_setup hplain), ← schema_ofLayout,
      TableDefinition.changeSchema_schema hvalid, schema_ofLayout, if_neg habsent]
    rfl
  unfold init setup
  rw [Session.executeAll, hcreate]
  rcases t.kind.indexed_layout with hnone | ⟨c, hc, hone, hpartition⟩
  · have hnone : t.layout.indexed = [] := hnone
    rw [hnone]
    rfl
  · have hone : t.layout.indexed = [c] := hone
    have hfound : store.table (lowercase t.name) = .ok ⟨t.schema, .empty⟩ := by
      rw [Store.table_eq_ok_iff, lowercase_lowercase, SortedMap.get?_insert, if_pos rfl]
    have hcolumn : (⟨t.schema, .empty⟩ : Table).hasColumn c.text = true :=
      List.contains_iff_mem.2 (List.mem_map_of_mem hc)
    have hkey : ¬t.schema.partitionKey = [c.text] := hpartition
    have hchange : store.changeSchema (.createIndex (t.indexKey c) (lowercase t.name) c.text) =
        .ok { store with
          indexes := session.store.indexes.insert (t.indexKey c) ⟨lowercase t.name, c.text⟩ } := by
      have habsent : store.indexes.contains (t.indexKey c) = false := by
        rw [SortedMap.contains, h.indexes c (by simp [hone])]
        rfl
      simp only [Store.changeSchema, habsent, hfound, hcolumn, bind, Except.bind, if_neg hkey]
      rfl
    have hopen' : ({ session with store } : Session).closed = false := hopen
    rw [hone, List.map_singleton]
    dsimp only
    rw [Session.executeAll, Session.execute_raw hopen' (read_createIndex hplain c), hchange]
    rfl

/-- On a new session the table is created without rows, with the indexes of its kind, and nothing else
    is. -/
theorem init_new {t : KindTable} (hplain : t.settings.PlainPrefix) :
    t.init {} = ({ store :=
      { tables := SortedMap.empty.insert (lowercase t.name) ⟨t.schema, .empty⟩
        indexes := .ofList (t.layout.indexed.map fun c =>
          (lowercase (indexName t.name c.text), ⟨lowercase t.name, c.text⟩)) } }, .ok ()) :=
  init_of_missing hplain rfl ⟨rfl, fun _ _ => rfl⟩

end KindTable

end GraphTables
