import GraphTables.Proofs.Schema.Reading
import GraphTables.Workspace

namespace GraphTables

open Text

namespace SchemaChange

/-- A text does not start with a keyword if it starts with other letters. -/
theorem stripKeyword?_eq_none (keyword start : String) (n : Nat)
    (hkeyword : n ≤ keyword.toList.length) (hstart : n ≤ start.toList.length)
    (hne : foldAscii (start.toList.take n) ≠ foldAscii (keyword.toList.take n))
    (rest : List Char) : stripKeyword? keyword (start.toList ++ rest) = none := by
  unfold stripKeyword?
  dsimp only
  apply if_neg
  intro hfold
  apply hne
  have hfirst := congrArg (List.take n) hfold
  simp only [foldAscii, ← List.map_take, List.take_take, Nat.min_eq_left hkeyword] at hfirst
  rwa [List.take_append_of_le_length hstart] at hfirst

/-- A statement that creates an index is read as one, whatever the names in it. -/
theorem read_createIndexStatement_eq (name table column : String) :
    read (createIndexStatement name table column) =
      readCreateIndex (trimStart (' ' :: (name.toList ++ ' ' :: ("ON".toList ++
        ' ' :: (table.toList ++ '(' :: (column.toList ++ [')'])))))) := by
  have hstart : "CREATE INDEX ".toList = "CREATE INDEX".toList ++ [' '] := by decide
  have hon : " ON ".toList = ' ' :: ("ON".toList ++ [' ']) := by decide
  have hopen : "(".toList = ['('] := by decide
  have hend : ");".toList = [')', ';'] := by decide
  have hindex : Trimmed "CREATE INDEX".toList :=
    trimmed_of_any (by decide) (by decide)
  have htext : (createIndexStatement name table column).toList =
      "CREATE INDEX".toList ++ ((' ' :: (name.toList ++ ' ' :: ("ON".toList ++
        ' ' :: (table.toList ++ '(' :: column.toList)))) ++ [')', ';']) := by
    unfold createIndexStatement
    repeat rw [String.toList_append]
    rw [hstart, hon, hopen, hend]
    generalize "CREATE INDEX".toList = create
    generalize "ON".toList = on
    simp only [List.append_assoc, List.cons_append, List.nil_append]
  have hnotTable := stripKeyword?_eq_none "CREATE TABLE" "CREATE INDEX" 8
    (by decide) (by decide) (by decide)
  unfold read
  rw [htext, statementBody_semicolon (by decide) hindex _ (by decide) (by decide)]
  dsimp only
  rw [hnotTable, stripKeyword?_append]
  simp only [List.append_assoc, List.cons_append]

theorem readCreateIndex_cases {cs : List Char} {change : SchemaChange}
    (h : readCreateIndex cs = .ok change) : ∃ name table column, change = .createIndex name table column := by
  unfold readCreateIndex at h
  dsimp only at h
  split at h
  · cases h
  · split at h
    · cases h
    · obtain ⟨⟨table, column⟩, _, h⟩ := bind_eq_ok_iff.1 h
      cases h
      exact ⟨_, _, _, rfl⟩

/-- The statement that creates an index is read as the creation of that index. -/
theorem read_createIndexStatement {name table column : String} (hname : IsName name)
    (htable : IsName table) (hcolumn : IsName column) :
    read (createIndexStatement name table column) =
      .ok (.createIndex (lowercase name) (lowercase table) (lowercase column)) := by
  have hnameTrimmed := trimmed_of_isNameChar hname.chars
  have htableTrimmed := trimmed_of_isNameChar htable.chars
  have hcolumnTrimmed := trimmed_of_isNameChar hcolumn.chars
  let target := table.toList ++ '(' :: (column.toList ++ [')'])
  have hstart : trimStart (' ' :: (name.toList ++ ' ' :: ("ON".toList ++ ' ' :: target))) =
      name.toList ++ ' ' :: ("ON".toList ++ ' ' :: target) :=
    trimStart_space (hnameTrimmed.head_append hname.ne_nil _)
  have hword : spanWord (name.toList ++ ' ' :: ("ON".toList ++ ' ' :: target)) =
      (name.toList, ' ' :: ("ON".toList ++ ' ' :: target)) :=
    spanWord_append (fun c hc => isBlank_of_isNameChar (hname.chars c hc)) (by decide) _
  have honTrimmed : Trimmed "ON".toList := trimmed_of_any (by decide) (by decide)
  have hon : trimStart (' ' :: ("ON".toList ++ ' ' :: target)) = "ON".toList ++ ' ' :: target :=
    trimStart_space (honTrimmed.head_append (by decide) _)
  have htarget : trimStart (' ' :: target) = target :=
    trimStart_space (htableTrimmed.head_append htable.ne_nil _)
  have hnotEmpty : ¬name.toList.isEmpty = true := by simpa using hname.ne_nil
  have hsplit : splitParenthesized target = .ok (table.toList, column.toList) := by
    rw [splitParenthesized_append (not_mem_of_isNameChar htable.chars (by decide)), htableTrimmed.trim]
  rw [read_createIndexStatement_eq, hstart]
  unfold readCreateIndex
  rw [hword]
  dsimp only
  rw [if_neg hnotEmpty, hon, stripKeyword?_append, htarget]
  dsimp only
  rw [hsplit]
  simp only [bind, Except.bind, hcolumnTrimmed.trim, readName_toList]

/-- The statement that drops a table is read as the removal of that table. -/
theorem read_dropStatement {table : String} (htable : IsName table) :
    read (dropStatement table) = .ok (.dropTable (lowercase table) true) := by
  have hstart : "DROP TABLE IF EXISTS ".toList =
      "DROP TABLE".toList ++ ' ' :: ("IF EXISTS".toList ++ [' ']) := by decide
  have hend : ";".toList = [';'] := by decide
  have hdrop : Trimmed "DROP TABLE".toList := trimmed_of_any (by decide) (by decide)
  have hname := trimmed_of_isNameChar htable.chars
  -- The last character of the name stands apart, as the semicolon is taken off behind it.
  obtain ⟨start, last, hlast⟩ : ∃ start last, table.toList = start ++ [last] :=
    ⟨_, _, (List.dropLast_append_getLast htable.ne_nil).symm⟩
  have hlastName : isNameChar last = true := htable.chars last (by simp [hlast])
  have hsemicolon : last ≠ ';' := by
    rintro rfl
    revert hlastName
    decide
  have htext : (dropStatement table).toList =
      "DROP TABLE".toList ++ ((' ' :: ("IF EXISTS".toList ++ ' ' :: start)) ++ [last, ';']) := by
    unfold dropStatement
    rw [String.toList_append, String.toList_append, hstart, hend, hlast]
    generalize "DROP TABLE".toList = drop
    generalize "IF EXISTS".toList = present
    simp only [List.append_assoc, List.cons_append, List.nil_append]
  have hnotTable := stripKeyword?_eq_none "CREATE TABLE" "DROP TABLE" 1
    (by decide) (by decide) (by decide)
  have hnotIndex := stripKeyword?_eq_none "CREATE INDEX" "DROP TABLE" 1
    (by decide) (by decide) (by decide)
  have hpresentTrimmed : Trimmed "IF EXISTS".toList :=
    trimmed_of_any (by decide) (by decide)
  have hpresent : trimStart (' ' :: ("IF EXISTS".toList ++ ' ' :: table.toList)) =
      "IF EXISTS".toList ++ ' ' :: table.toList :=
    trimStart_space (hpresentTrimmed.head_append (by decide) _)
  have hread : readDropTable ("IF EXISTS".toList ++ ' ' :: table.toList) =
      .ok (.dropTable (lowercase table) true) := by
    have hblank : ¬(table.toList.isEmpty || table.toList.any isBlank) = true := by
      have hany : table.toList.any isBlank = false := by
        rw [List.any_eq_false]
        intro c hc
        simp [isBlank_of_isNameChar (htable.chars c hc)]
      simpa [hany] using htable.ne_nil
    unfold readDropTable
    rw [stripKeyword?_append, trimStart_space hname.head]
    dsimp only
    rw [if_neg hblank, readName_toList]
  unfold read
  rw [htext, statementBody_semicolon (by decide) hdrop _ (isBlank_of_isNameChar hlastName)
    hsemicolon]
  dsimp only
  rw [hnotTable, hnotIndex, stripKeyword?_append]
  dsimp only
  rw [← hread, ← hpresent, hlast]
  simp only [List.append_assoc, List.cons_append]

end SchemaChange

/-- A table whose key columns are among its columns is created without rows. -/
theorem Table.create_eq_ok {schema : TableSchema} (h : schema.primaryKey ⊆ schema.columns) :
    Table.create schema = .ok ⟨schema, .empty⟩ := by
  have hnone : (schema.primaryKey.find? fun k => !schema.columns.contains k) = none := by
    rw [List.find?_eq_none]
    intro k hk
    simpa using h hk
  unfold Table.create
  rw [hnone]

namespace TableDefinition

/-- All names in the definition are plain. -/
structure PlainNames (d : TableDefinition) : Prop where
  table : IsName d.table
  columns : ∀ c ∈ d.columns, IsName c
  keys : ∀ k ∈ d.partitionKey ++ d.clusteringKey, IsName k

/-- The shape of the table that a definition stands for: its names in small letters, in the order of
    the definition. -/
def schema (d : TableDefinition) : TableSchema where
  name := lowercase d.table
  columns := d.columns.map lowercase
  partitionKey := d.partitionKey.map lowercase
  clusteringKey := d.clusteringKey.map lowercase

theorem primaryKey_schema_subset {d : TableDefinition} (h : d.validate = .ok ()) :
    d.schema.primaryKey ⊆ d.schema.columns := by
  obtain ⟨_, _, _, hkeys⟩ := validate_eq_ok h
  have hmap : d.schema.primaryKey = (d.partitionKey ++ d.clusteringKey).map lowercase :=
    List.map_append.symm
  rw [hmap]
  exact List.map_subset _ hkeys

/-- What the store does with the creation of the table of a valid definition. -/
theorem changeSchema_schema {d : TableDefinition} (h : d.validate = .ok ()) (s : Store) :
    s.changeSchema (.createTable d.schema true) =
      .ok (if s.tables.contains d.schema.name then s
        else { s with tables := s.tables.insert d.schema.name ⟨d.schema, .empty⟩ }) := by
  rw [Store.changeSchema, Table.create_eq_ok (primaryKey_schema_subset h)]
  split <;> rfl

end TableDefinition

/-- The text of a schema change makes that change on an open session. -/
theorem Session.execute_raw {session : Session} (hopen : session.closed = false) {text : String}
    {change : SchemaChange} (hread : SchemaChange.read text = .ok change) :
    session.execute (.raw text) = session.withStore (session.store.changeSchema change) := by
  simp [execute, hopen, hread]

private theorem Workspace.changeSchema_of_read {w : Workspace} (hopen : w.session.closed = false)
    {text : String} {change : SchemaChange} {s : Store} (hread : SchemaChange.read text = .ok change)
    (hchange : w.session.store.changeSchema change = .ok s) :
    w.changeSchema text = ({ w with session.store := s }, .ok ()) := by
  unfold changeSchema Workspace.execute
  rw [Session.execute_raw hopen hread, hchange]
  rfl

/-- A valid definition of plain names is carried out on an open session: the table is created without
    rows, unless it is there. -/
theorem Workspace.createTable_of_valid {w : Workspace} (hopen : w.session.closed = false)
    {d : TableDefinition} (hvalid : d.validate = .ok ()) (htable : IsName d.table)
    (hcolumns : ∀ c ∈ d.columns, IsName c) (defaultType : ColumnType) :
    w.createTable d defaultType =
      ({ w with
        session.store :=
          if w.session.store.tables.contains (lowercase d.table) then w.session.store
          else { w.session.store with
            tables := w.session.store.tables.insert (lowercase d.table) ⟨d.schema, .empty⟩ } },
        .ok ()) := by
  have hstatement : d.createStatement defaultType = .ok (d.render defaultType) := by
    rw [TableDefinition.createStatement, hvalid]
    rfl
  rw [createTable, hstatement]
  exact changeSchema_of_read hopen
    (SchemaChange.read_render hvalid htable hcolumns defaultType)
    (TableDefinition.changeSchema_schema hvalid _)

/-- The printer of schema statements and the store's reader agree on plain names. A definition has a
    statement exactly if it is valid, and that statement is read as the creation, unless it is there,
    of the table of the definition; so an open session creates the table without rows, or leaves
    everything as it is. Statements that create an index or drop a table are read back alike. -/
theorem TableDefinition.statements_read_back {d : TableDefinition} (hnames : d.PlainNames)
    (defaultType : ColumnType) :
    (∀ fault, d.createStatement defaultType = .error fault ↔ d.validate = .error fault) ∧
      (∀ text, d.createStatement defaultType = .ok text →
        SchemaChange.read text = .ok (.createTable d.schema true)) ∧
      (d.validate = .ok () → ∀ w : Workspace, w.session.closed = false →
        (∀ t, w.session.store.table d.table = .ok t → w.createTable d defaultType = (w, .ok ())) ∧
          ((∀ t, w.session.store.table d.table ≠ .ok t) → w.createTable d defaultType =
            ({ w with session.store.tables :=
                w.session.store.tables.insert (lowercase d.table) ⟨d.schema, .empty⟩ }, .ok ()))) ∧
      (∀ name column, IsName name → IsName column →
        SchemaChange.read (createIndexStatement name d.table column) =
          .ok (.createIndex (lowercase name) (lowercase d.table) (lowercase column))) ∧
      SchemaChange.read (dropStatement d.table) = .ok (.dropTable (lowercase d.table) true) := by
  have hread (hvalid : d.validate = .ok ()) :
      SchemaChange.read (d.render defaultType) = .ok (.createTable d.schema true) :=
    SchemaChange.read_render hvalid hnames.table hnames.columns defaultType
  refine ⟨?_, ?_, ?_, ?_, SchemaChange.read_dropStatement hnames.table⟩
  · intro fault
    exact map_eq_error_iff
  · intro text htext
    obtain ⟨_, hvalid, rfl⟩ := map_eq_ok_iff.1 htext
    exact hread hvalid
  · intro hvalid w hopen
    rw [Workspace.createTable_of_valid hopen hvalid hnames.table hnames.columns]
    constructor
    · intro t ht
      have hcontains : w.session.store.tables.contains (lowercase d.table) = true := by
        rw [SortedMap.contains, Store.table_eq_ok_iff.1 ht]
        rfl
      rw [if_pos hcontains]
    · intro habsent
      have hcontains : ¬w.session.store.tables.contains (lowercase d.table) = true := by
        intro hcontains
        obtain ⟨t, ht⟩ := Option.isSome_iff_exists.1 hcontains
        exact habsent t (Store.table_eq_ok_iff.2 ht)
      rw [if_neg hcontains]
  · intro name column hname hcolumn
    exact SchemaChange.read_createIndexStatement hname hnames.table hcolumn

/-- A definition whose names all look like words of the statements. -/
theorem TableDefinition.statements_of_keywords_read_back :
    let d : TableDefinition :=
      { table := "IF", columns := ["Primary", "ON", "IF"], columnTypes := some [.text, .int, .blob]
        partitionKey := ["ON", "IF"], clusteringKey := ["Primary"] }
    let schema : TableSchema := ⟨"if", ["primary", "on", "if"], ["on", "if"], ["primary"]⟩
    d.PlainNames ∧ d.validate = .ok () ∧
      SchemaChange.read
          "CREATE TABLE IF NOT EXISTS IF(Primary text, ON int, IF blob, PRIMARY KEY((ON, IF), Primary));" =
        .ok (.createTable schema true) ∧
      ({} : Workspace).createTable d .text =
        ({ session.store.tables := SortedMap.empty.insert "if" ⟨schema, .empty⟩ }, .ok ()) ∧
      SchemaChange.read "CREATE INDEX ON ON IF(KEY);" = .ok (.createIndex "on" "if" "key") ∧
      SchemaChange.read "DROP TABLE IF EXISTS IF;" = .ok (.dropTable "if" true) := by
  intro d schema
  have hnames : d.PlainNames := by
    refine ⟨isName_of_all (by decide +kernel) (by decide +kernel), ?_, ?_⟩
    · have hall : ∀ c ∈ d.columns, c.toList ≠ [] ∧ c.toList.all isNameChar = true := by
        decide +kernel
      exact fun c hc => isName_of_all (hall c hc).1 (hall c hc).2
    · have hall : ∀ k ∈ d.partitionKey ++ d.clusteringKey,
          k.toList ≠ [] ∧ k.toList.all isNameChar = true := by decide +kernel
      exact fun k hk => isName_of_all (hall k hk).1 (hall k hk).2
  have hvalid : d.validate = .ok () := by decide +kernel
  have hon : IsName "ON" := isName_of_all (by decide +kernel) (by decide +kernel)
  have hkey : IsName "KEY" := isName_of_all (by decide +kernel) (by decide +kernel)
  have hschema : d.schema = schema := by decide +kernel
  have htable : lowercase d.table = "if" := by decide +kernel
  have hindexNames : lowercase "ON" = "on" ∧ lowercase "KEY" = "key" := by decide +kernel
  have hindexText : createIndexStatement "ON" d.table "KEY" = "CREATE INDEX ON ON IF(KEY);" := by
    decide +kernel
  have hdropText : dropStatement d.table = "DROP TABLE IF EXISTS IF;" := by decide +kernel
  obtain ⟨_, hread, hcreate, hindex, hdrop⟩ := statements_read_back hnames .text
  have hcreated := (hcreate hvalid {} rfl).2 fun t ht => by cases ht
  have hindexed := hindex "ON" "KEY" hon hkey
  rw [hschema] at hread
  rw [hschema, htable] at hcreated
  rw [hindexText, hindexNames.1, hindexNames.2, htable] at hindexed
  rw [hdropText, htable] at hdrop
  exact ⟨hnames, hvalid, hread _ (by decide +kernel), hcreated, hindexed, hdrop⟩

end GraphTables
