import GraphTables.Proofs.Layout.Decoding
import GraphTables.Proofs.Schema.Statements
import GraphTables.Proofs.Store.Atomicity
import GraphTables.Proofs.Store.Selection
import GraphTables.Proofs.Text.Lowercase

namespace GraphTables

open Text

/-- The insert gives each column that a definition declares a text, under its declared name, and names no
    other columns. -/
structure Insert.Fills (i : Insert) (d : TableDefinition) (text : String → String) : Prop where
  table : i.table = d.table
  text : ∀ c ∈ d.columns, i.get? c = some (.text (text c))
  column : ∀ v ∈ i.values, v.1 ∈ d.columns

namespace TableDefinition

/-- The declared column names are in small letters, as the table has them. The columns of a statement are
    compared with those of the table as they are spelled. -/
def InSmallLetters (d : TableDefinition) : Prop := ∀ c ∈ d.columns, lowercase c = c

instance (d : TableDefinition) : Decidable d.InSmallLetters :=
  inferInstanceAs (Decidable (∀ c ∈ d.columns, lowercase c = c))

private theorem InSmallLetters.columns_schema {d : TableDefinition} (h : d.InSmallLetters) :
    d.schema.columns = d.columns := by
  have hmap : d.columns.map lowercase = d.columns.map id := List.map_congr_left h
  rwa [List.map_id] at hmap

private theorem InSmallLetters.mem_columns_of_mem_primaryKey {d : TableDefinition} (h : d.InSmallLetters)
    (hvalid : d.validate = .ok ()) {key : String} (hkey : key ∈ d.schema.primaryKey) :
    key ∈ d.columns := by
  have hmem := primaryKey_schema_subset hvalid hkey
  rwa [h.columns_schema] at hmem

end TableDefinition

section Filling

variable {d : TableDefinition} {i : Insert} {text : String → String}

private theorem Insert.Fills.mem_values (h : i.Fills d text) {c : String} (hc : c ∈ d.columns) :
    c ∈ i.values.map (·.1) := by
  obtain ⟨before, after, hvalues, _⟩ := List.lookup_eq_some_iff.1 (h.text c hc)
  simp [hvalues]

/-- A new table takes a whole row under the declared names exactly if these are in small letters. -/
theorem Table.insert_filling_iff (hvalid : d.validate = .ok ()) (h : i.Fills d text) :
    (∃ t, Table.insert ⟨d.schema, .empty⟩ i = .ok t) ↔ d.InSmallLetters := by
  simp only [insert_eq_ok_iff, exists_and_left, exists_eq, and_true]
  constructor
  · rintro ⟨hcolumns, _⟩ c hc
    obtain ⟨declared, _, rfl⟩ := List.mem_map.1 (hcolumns c (h.mem_values hc))
    exact lowercase_lowercase declared
  · intro hsmall
    rw [hsmall.columns_schema, List.forall_mem_map]
    refine ⟨h.column, fun key hkey => ?_⟩
    rw [h.text key (hsmall.mem_columns_of_mem_primaryKey hvalid hkey)]
    rfl

/-- A row that is not taken is refused for a declared name that is not in small letters. -/
theorem Table.insert_filling_eq_error (hvalid : d.validate = .ok ()) (h : i.Fills d text)
    {r : Rejection} (hrefused : Table.insert ⟨d.schema, .empty⟩ i = .error r) :
    ∃ c ∈ d.columns, lowercase c ≠ c ∧ r = .undefinedColumn c (lowercase d.table) := by
  cases hfind : (i.values.map (·.1)).find? fun c => !hasColumn ⟨d.schema, .empty⟩ c with
  | some c =>
    obtain ⟨v, hv, rfl⟩ := List.mem_map.1 (List.mem_of_find?_eq_some hfind)
    refine ⟨v.1, h.column v hv, fun hsmall => ?_, ?_⟩
    · have hmissing := List.find?_some hfind
      have hmem : v.1 ∈ d.columns.map lowercase := List.mem_map.2 ⟨v.1, h.column v hv, hsmall⟩
      simp [hasColumn, TableDefinition.schema, hmem] at hmissing
    · rw [Table.insert, requireColumns_eq_error hfind] at hrefused
      exact (Except.error.inj hrefused).symm
  | none =>
    have hsmall : d.InSmallLetters := by
      intro c hc
      have hdefined := List.find?_eq_none.1 hfind c (h.mem_values hc)
      have hmem : c ∈ d.schema.columns := by simpa [hasColumn] using hdefined
      obtain ⟨declared, _, rfl⟩ := List.mem_map.1 hmem
      exact lowercase_lowercase declared
    obtain ⟨t, htaken⟩ := (insert_filling_iff hvalid h).2 hsmall
    rw [hrefused] at htaken
    cases htaken

/-- The one row of a new table after such an insert gives the texts under the declared names. -/
theorem Table.select_filled (hsmall : d.InSmallLetters) (hcolumns : ∀ c ∈ d.columns, IsName c)
    (h : i.Fills d text) (table : String) :
    ∃ row, (Table.write ⟨d.schema, .empty⟩ i).select { table } = .ok ⟨d.columns, [row]⟩ ∧
      ∀ c ∈ d.columns, row.get? c = some (text c) := by
  let t : Table := ⟨d.schema, .empty⟩
  refine ⟨(t.write i).present (i.overlay .empty), ?_, fun c hc => ?_⟩
  · have hrecords : (t.write i).selectRecords { table } = [i.overlay .empty] := by
      rw [selectRecords_plain]
      rfl
    rw [select_eq_ok (by simp [Select.restrictions, Clause.restrictionsOf]) (by simp), hrecords,
      schema_write, hsmall.columns_schema]
    rfl
  · have hdistinct : ∀ a ∈ d.columns, sameIgnoringCase a c = true → a = c := by
      have hascii {a : String} (ha : a ∈ d.columns) : ∀ ch ∈ a.toList, ch.toNat < 0x80 := by
        intro ch hch
        have hbound := (toNat_of_isNameChar ((hcolumns a ha).chars ch hch)).2
        omega
      intro a ha hsame
      rw [sameIgnoringCase_iff_of_ascii (hascii ha) (hascii hc), hsmall a ha, hsmall c hc] at hsame
      exact hsame
    have hpresent : (t.write i).present (i.overlay .empty) =
        ⟨d.columns.map fun c => (c, (i.overlay .empty).get? c)⟩ := by
      rw [present, schema_write, hsmall.columns_schema]
    rw [hpresent, ResultRow.get?_map hc hdistinct, Insert.get?_overlay, h.text c hc]
    rfl

/-- An insert into a table of an open session goes as the table has it. -/
theorem Workspace.execute_insert {w : Workspace} (hopen : w.session.closed = false) {t : Table}
    (htable : w.session.store.table i.table = .ok t) :
    w.execute (.insert i) =
      match t.insert i with
      | .ok t' =>
        ({ w with
          session.store.tables := w.session.store.tables.insert (lowercase i.table) t' }, .ok {})
      | .error r => (w, .error (.invalid r)) := by
  have hclosed : ¬w.session.closed = true := by simp [hopen]
  rw [execute, Session.execute, if_neg hclosed]
  dsimp only
  rw [Store.insert, Store.modifyTable, htable]
  simp only [bind, Except.bind]
  cases t.insert i <;> rfl

private theorem Workspace.execute_select {w : Workspace} (hopen : w.session.closed = false) {s : Select}
    {t : Table} (htable : w.session.store.table s.table = .ok t) {rows : ResultSet}
    (hselect : t.select s = .ok rows) : w.execute (.select s) = (w, .ok rows) := by
  rw [execute, Session.execute_select_eq_ok_iff.2 ⟨hopen, rfl, t, htable, hselect⟩]

/-- On an open session that does not have the table, a valid definition of plain names creates it. An
    insert of a whole row by the declared names is then executed exactly if these are in small letters;
    then a select on the table gives one row, with all texts under the declared names. An insert that is
    refused is so for a declared name with a capital, as no column of the table. -/
theorem Workspace.execute_filling (hvalid : d.validate = .ok ()) (htable : IsName d.table)
    (hcolumns : ∀ c ∈ d.columns, IsName c) (h : i.Fills d text) (defaultType : ColumnType)
    {w : Workspace} (hopen : w.session.closed = false)
    (habsent : ∀ t, w.session.store.table d.table ≠ .ok t) :
    ∃ created, w.createTable d defaultType = (created, .ok ()) ∧
      ((∃ written, created.execute (.insert i) = (written, .ok {})) ↔ d.InSmallLetters) ∧
      (∀ written rows, created.execute (.insert i) = (written, .ok rows) →
        ∃ row, written.execute (.select { table := d.table }) = (written, .ok ⟨d.columns, [row]⟩) ∧
          ∀ c ∈ d.columns, row.get? c = some (text c)) ∧
      ∀ failed e, created.execute (.insert i) = (failed, .error e) → failed = created ∧
        ∃ c ∈ d.columns, lowercase c ≠ c ∧
          e = .invalid (.undefinedColumn c (lowercase d.table)) := by
  have hcontains : ¬w.session.store.tables.contains (lowercase d.table) = true := by
    intro hcontains
    obtain ⟨t, ht⟩ := Option.isSome_iff_exists.1 hcontains
    exact habsent t (Store.table_eq_ok_iff.2 ht)
  have hcreated := createTable_of_valid hopen hvalid htable hcolumns defaultType
  rw [if_neg hcontains] at hcreated
  refine ⟨_, hcreated, ?_⟩
  generalize hcreated' : ({ w with session.store := _ } : Workspace) = created
  have hopen' : created.session.closed = false := by rw [← hcreated', hopen]
  have hfound : created.session.store.table i.table = .ok ⟨d.schema, .empty⟩ := by
    rw [Store.table_eq_ok_iff, h.table, ← hcreated', SortedMap.get?_insert, if_pos rfl]
  have hinsert := execute_insert hopen' hfound
  cases htaken : Table.insert ⟨d.schema, .empty⟩ i with
  | error r =>
    rw [htaken] at hinsert
    rw [hinsert]
    have hcapital : ¬d.InSmallLetters := by
      rw [← Table.insert_filling_iff hvalid h, htaken]
      rintro ⟨t, ht⟩
      cases ht
    refine ⟨by simp [hcapital], fun written rows hok => by simp at hok, fun failed e herror => ?_⟩
    obtain ⟨rfl, rfl⟩ : created = failed ∧ StoreError.invalid r = e := by simpa using herror
    obtain ⟨c, hc, hsmall, rfl⟩ := Table.insert_filling_eq_error hvalid h htaken
    exact ⟨rfl, c, hc, hsmall, rfl⟩
  | ok t =>
    rw [htaken] at hinsert
    rw [hinsert]
    have hsmall : d.InSmallLetters := (Table.insert_filling_iff hvalid h).1 ⟨t, htaken⟩
    obtain ⟨_, _, rfl⟩ := Table.insert_eq_ok_iff.1 htaken
    refine ⟨by simp [hsmall], fun written rows hok => ?_, fun failed e herror => by simp at herror⟩
    obtain ⟨hwritten, -⟩ := Prod.mk.inj hok
    have hopen'' : written.session.closed = false := by rw [← hwritten, hopen']
    have hfound' : written.session.store.table d.table = .ok (Table.write ⟨d.schema, .empty⟩ i) := by
      rw [Store.table_eq_ok_iff, ← hwritten, h.table, SortedMap.get?_insert, if_pos rfl]
    obtain ⟨row, hselect, hrow⟩ := Table.select_filled hsmall hcolumns h d.table
    have hselected := execute_select hopen'' (s := { table := d.table }) hfound' hselect
    exact ⟨row, hselected, hrow⟩

end Filling

/-- A table of people whose columns are in small letters, and its name not. -/
theorem Workspace.execute_filling_people :
    let d : TableDefinition :=
      { table := "People", columns := ["name", "age"], partitionKey := ["name"] }
    let i : Insert := (Insert.into "People").setAll [("age", .text "36"), ("name", .text "ada")]
    let text (c : String) : String := if c = "name" then "ada" else "36"
    d.validate = .ok () ∧ i.Fills d text ∧ ∃ created written row,
      ({} : Workspace).createTable d .text = (created, .ok ()) ∧
        created.execute (.insert i) = (written, .ok {}) ∧
        written.execute (.select { table := "People" }) = (written, .ok ⟨d.columns, [row]⟩) ∧
        row.get? "name" = some "ada" ∧ row.get? "age" = some "36" := by
  intro d i text
  have hvalid : d.validate = .ok () := by decide +kernel
  have hfills : i.Fills d text := ⟨by decide, by decide, by decide⟩
  have htable : IsName d.table := isName_of_all (by decide +kernel) (by decide +kernel)
  have hcolumns : ∀ c ∈ d.columns, IsName c := by
    have hall : ∀ c ∈ d.columns, c.toList ≠ [] ∧ c.toList.all isNameChar = true := by decide +kernel
    exact fun c hc => isName_of_all (hall c hc).1 (hall c hc).2
  obtain ⟨created, hcreated, htaken, hselected, _⟩ := execute_filling hvalid htable hcolumns hfills
    .text (w := {}) rfl fun t ht => by cases ht
  obtain ⟨written, hwritten⟩ := htaken.2 (by decide +kernel)
  obtain ⟨row, hselect, hrow⟩ := hselected written _ hwritten
  exact ⟨hvalid, hfills, created, written, row, hcreated, hwritten, hselect,
    hrow "name" (by decide), hrow "age" (by decide)⟩

/-- With a capital in the declared name of a column, the table is created but does not take its row. -/
theorem Workspace.execute_filling_capital :
    let d : TableDefinition := { table := "people", columns := ["Name"], partitionKey := ["Name"] }
    let i : Insert := (Insert.into "people").set "Name" (.text "ada")
    d.validate = .ok () ∧ IsName d.table ∧ (∀ c ∈ d.columns, IsName c) ∧ i.Fills d (fun _ => "ada") ∧
      (({} : Workspace).createTable d .text).2 = .ok () ∧
      ((({} : Workspace).createTable d .text).1.execute (.insert i)).2 =
        .error (.invalid (.undefinedColumn "Name" "people")) := by
  intro d i
  have htable : IsName d.table := isName_of_all (by decide +kernel) (by decide +kernel)
  have hcolumns : ∀ c ∈ d.columns, IsName c := by
    rw [List.forall_mem_singleton]
    exact isName_of_all (by decide +kernel) (by decide +kernel)
  exact ⟨by decide +kernel, htable, hcolumns, ⟨by decide, by decide, by decide⟩, by decide +kernel,
    by decide +kernel⟩

end GraphTables
