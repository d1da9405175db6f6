import GraphTables.Proofs.Except
import GraphTables.Proofs.SortedMap
import GraphTables.Store.Session

namespace GraphTables

/-- The row that an insert leaves of an earlier one. -/
def Insert.overlay (i : Insert) (old : Record) : Record :=
  old.insertAll (i.values.map fun v => (v.1, v.2.cell))

/-- An insert sets the columns it names, and leaves the others as they are. -/
theorem Insert.get?_overlay (i : Insert) (old : Record) (column : String) :
    (i.overlay old).get? column = ((i.get? column).map Literal.cell).or (old.get? column) := by
  have hnodup : ((i.values.map fun v => (v.1, v.2.cell)).map (·.1)).Nodup := by
    simpa [Function.comp_def] using i.nodup
  rw [overlay, SortedMap.get?_insertAll _ hnodup]
  congr 1
  unfold get?
  induction i.values with
  | nil => rfl
  | cons v rest ih =>
    rw [List.map_cons, List.lookup_cons, List.lookup_cons]
    cases column == v.1 <;> simp [ih]

namespace Table

theorem requireColumns_eq_ok_iff {t : Table} {columns : List String} :
    t.requireColumns columns = .ok () ↔ ∀ c ∈ columns, c ∈ t.schema.columns := by
  unfold requireColumns hasColumn
  cases hfind : columns.find? fun c => !t.schema.columns.contains c with
  | none => simpa [List.find?_eq_none] using hfind
  | some c =>
    have hmem := List.mem_of_find?_eq_some hfind
    have hmissing := List.find?_some hfind
    simp only [reduceCtorEq, false_iff]
    intro hall
    simp [hall c hmem] at hmissing

/-- The table after an insert that it takes. -/
def write (t : Table) (i : Insert) : Table :=
  { t with rows := t.rows.insert (t.keyOf i) (i.overlay ((t.rows.get? (t.keyOf i)).getD .empty)) }

/-- The table after a deletion that it takes. -/
def remove (t : Table) (clauses : List Clause) : Table :=
  { t with rows := t.rows.filter fun _ row => !satisfies clauses row }

@[simp] theorem schema_write (t : Table) (i : Insert) : (t.write i).schema = t.schema := rfl

@[simp] theorem schema_remove (t : Table) (clauses : List Clause) :
    (t.remove clauses).schema = t.schema := rfl

theorem get?_write (t : Table) (i : Insert) (key : List String) :
    (t.write i).rows.get? key =
      if key = t.keyOf i then some (i.overlay ((t.rows.get? (t.keyOf i)).getD .empty))
      else t.rows.get? key := SortedMap.get?_insert _ _ _ _

theorem get?_remove (t : Table) (clauses : List Clause) (key : List String) :
    (t.remove clauses).rows.get? key =
      (t.rows.get? key).filter fun row => !satisfies clauses row := SortedMap.get?_filter _ _ _

/-- Whether an insert is taken, and why not, is decided as on a table of the same shape without
    rows. -/
theorem insert_eq_map (t : Table) (i : Insert) :
    t.insert i = ((⟨t.schema, .empty⟩ : Table).insert i).map fun _ => t.write i := by
  have hcheck : requireColumns ⟨t.schema, .empty⟩ (i.values.map (·.1)) =
      t.requireColumns (i.values.map (·.1)) := rfl
  unfold insert
  rw [hcheck]
  cases t.requireColumns (i.values.map (·.1)) with
  | error r => rfl
  | ok =>
    simp only [bind, Except.bind]
    cases t.schema.primaryKey.find? fun k => (i.get? k).isNone <;> rfl

private theorem delete_eq_map (t : Table) (d : Delete) :
    t.delete d = ((⟨t.schema, .empty⟩ : Table).delete d).map fun _ => t.remove d.clauses := by
  have hcheck : requireColumns ⟨t.schema, .empty⟩ (d.restrictions.map Restriction.column) =
      t.requireColumns (d.restrictions.map Restriction.column) := rfl
  unfold delete
  rw [hcheck]
  split
  · rfl
  · cases t.requireColumns (d.restrictions.map Restriction.column) <;> rfl

/-- A table takes exactly the inserts that name columns of its own and set all its key columns. -/
theorem insert_eq_ok_iff {t t' : Table} {i : Insert} :
    t.insert i = .ok t' ↔
      (∀ c ∈ i.values.map (·.1), c ∈ t.schema.columns) ∧
        (∀ k ∈ t.schema.primaryKey, (i.get? k).isSome) ∧ t' = t.write i := by
  unfold insert
  rw [bind_eq_ok_iff]
  constructor
  · rintro ⟨_, hcolumns, hwrite⟩
    refine ⟨requireColumns_eq_ok_iff.1 hcolumns, ?_⟩
    cases hfind : t.schema.primaryKey.find? fun k => (i.get? k).isNone with
    | some k => simp [hfind] at hwrite
    | none =>
      simp only [hfind, Except.ok.injEq] at hwrite
      refine ⟨fun k hk => ?_, hwrite.symm⟩
      have hnone := List.find?_eq_none.1 hfind k hk
      simpa [Option.isSome_iff_ne_none] using hnone
  · rintro ⟨hcolumns, hkey, rfl⟩
    refine ⟨(), requireColumns_eq_ok_iff.2 hcolumns, ?_⟩
    have hfind : (t.schema.primaryKey.find? fun k => (i.get? k).isNone) = none := by
      rw [List.find?_eq_none]
      intro k hk
      simpa [Option.isSome_iff_ne_none] using hkey k hk
    simp only [hfind]
    rfl

theorem delete_eq_ok_iff {t t' : Table} {d : Delete} :
    t.delete d = .ok t' ↔
      d.clauses ≠ [] ∧ (∀ r ∈ d.restrictions, r.column ∈ t.schema.columns) ∧
        t' = t.remove d.clauses := by
  unfold delete
  split
  next hempty => simp [List.isEmpty_iff.1 hempty]
  next hclauses =>
    have hne : d.clauses ≠ [] := by simpa using hclauses
    rw [bind_eq_ok_iff]
    constructor
    · rintro ⟨_, hcolumns, hremove⟩
      refine ⟨hne, ?_, (Except.ok.inj hremove).symm⟩
      simpa using requireColumns_eq_ok_iff.1 hcolumns
    · rintro ⟨_, hcolumns, rfl⟩
      exact ⟨(), requireColumns_eq_ok_iff.2 (by simpa using hcolumns), rfl⟩

end Table

namespace Store

/-- The shape of the table of a name in any spelling, if there is one. -/
def schema? (s : Store) (name : String) : Option TableSchema :=
  (s.tables.get? (Text.lowercase name)).map (·.schema)

/-- Stores with tables of the same shape under a name both have a table of that shape there, or none. -/
theorem get?_of_schema?_eq {s u : Store} {name : String} (h : s.schema? name = u.schema? name) {t : Table}
    (ht : s.tables.get? (Text.lowercase name) = some t) :
    ∃ t', u.tables.get? (Text.lowercase name) = some t' ∧ t'.schema = t.schema := by
  unfold schema? at h
  simpa [ht] using h.symm

theorem get?_eq_none_of_schema?_eq {s u : Store} {name : String} (h : s.schema? name = u.schema? name)
    (hnone : s.tables.get? (Text.lowercase name) = none) :
    u.tables.get? (Text.lowercase name) = none := by
  unfold schema? at h
  simpa [hnone] using h.symm

theorem table_eq_ok_iff {s : Store} {name : String} {t : Table} :
    s.table name = .ok t ↔ s.tables.get? (Text.lowercase name) = some t := by
  unfold table
  cases s.tables.get? (Text.lowercase name) <;> simp

theorem modifyTable_eq_ok_iff {s s' : Store} {name : String}
    {change : Table → Except Rejection Table} :
    s.modifyTable name change = .ok s' ↔
      ∃ t t', s.tables.get? (Text.lowercase name) = some t ∧ change t = .ok t' ∧
        s' = { s with tables := s.tables.insert (Text.lowercase name) t' } := by
  unfold modifyTable
  rw [bind_eq_ok_iff]
  constructor
  · rintro ⟨t, htable, hchange⟩
    cases hresult : change t with
    | error r => simp [hresult] at hchange
    | ok t' =>
      rw [hresult] at hchange
      exact ⟨t, t', table_eq_ok_iff.1 htable, hresult, (Except.ok.inj hchange).symm⟩
  · rintro ⟨t, t', htable, hresult, rfl⟩
    exact ⟨t, table_eq_ok_iff.2 htable, by rw [hresult]⟩

theorem modifyTable_eq_error_iff {s : Store} {name : String}
    {change : Table → Except Rejection Table} {e : StoreError} :
    s.modifyTable name change = .error e ↔
      (s.tables.get? (Text.lowercase name) = none ∧ e = .tableNotFound name) ∨
        ∃ t r, s.tables.get? (Text.lowercase name) = some t ∧ change t = .error r ∧
          e = .invalid r := by
  unfold modifyTable table
  cases htable : s.tables.get? (Text.lowercase name) with
  | none => simp [bind, Except.bind, eq_comm]
  | some t =>
    cases hresult : change t with
    | error r => simp [bind, Except.bind, hresult, eq_comm]
    | ok t' => simp [bind, Except.bind, hresult]

private theorem schema?_of_modifyTable {s s' : Store} {name : String}
    {change : Table → Except Rejection Table}
    (hchange : ∀ t t', change t = .ok t' → t'.schema = t.schema)
    (h : s.modifyTable name change = .ok s') (query : String) :
    s'.schema? query = s.schema? query := by
  obtain ⟨t, t', htable, hresult, rfl⟩ := modifyTable_eq_ok_iff.1 h
  unfold schema?
  rw [SortedMap.get?_insert]
  split
  next heq => simp [heq, htable, hchange t t' hresult]
  next => rfl

private theorem modifyTable_eq_error_congr {s u : Store} {name : String}
    {change : Table → Except Rejection Table}
    (hshape : s.schema? name = u.schema? name)
    (hchange : ∀ t t' r, t.schema = t'.schema → (change t = .error r ↔ change t' = .error r))
    (e : StoreError) : s.modifyTable name change = .error e ↔ u.modifyTable name change = .error e := by
  rw [modifyTable_eq_error_iff, modifyTable_eq_error_iff]
  cases hs : s.tables.get? (Text.lowercase name) with
  | none => simp [get?_eq_none_of_schema?_eq hshape hs]
  | some t =>
    obtain ⟨t', hu, hschema⟩ := get?_of_schema?_eq hshape hs
    simp [hu, hchange t t' _ hschema.symm]

/-- The member of a batch is refused alike in stores with tables of the same shapes. -/
theorem applyMember_eq_error_congr {s u : Store} (hshape : ∀ name, s.schema? name = u.schema? name)
    (member : Statement) (e : StoreError) :
    s.applyMember member = .error e ↔ u.applyMember member = .error e := by
  cases member with
  | insert i =>
    apply modifyTable_eq_error_congr (hshape i.table)
    intro t t' r hschema
    rw [Table.insert_eq_map, Table.insert_eq_map t', map_eq_error_iff, map_eq_error_iff, hschema]
  | delete d =>
    apply modifyTable_eq_error_congr (hshape d.table)
    intro t t' r hschema
    rw [Table.delete_eq_map, Table.delete_eq_map t', map_eq_error_iff, map_eq_error_iff, hschema]
  | select q => exact Iff.rfl
  | batch members => exact Iff.rfl
  | raw text => exact Iff.rfl

/-- A member of a batch changes rows only. -/
theorem schema?_of_applyMember {s s' : Store} {member : Statement}
    (h : s.applyMember member = .ok s') (name : String) : s'.schema? name = s.schema? name := by
  cases member with
  | insert i =>
    refine schema?_of_modifyTable (fun t t' hinsert => ?_) h name
    obtain ⟨_, _, rfl⟩ := Table.insert_eq_ok_iff.1 hinsert
    exact t.schema_write i
  | delete d =>
    refine schema?_of_modifyTable (fun t t' hdelete => ?_) h name
    obtain ⟨_, _, rfl⟩ := Table.delete_eq_ok_iff.1 hdelete
    exact t.schema_remove d.clauses
  | select q => cases h
  | batch members => cases h
  | raw text => cases h

theorem schema?_of_applyMembers {s s' : Store} {members : List Statement}
    (h : s.applyMembers members = .ok s') (name : String) : s'.schema? name = s.schema? name := by
  induction members generalizing s with
  | nil =>
    cases h
    rfl
  | cons m rest ih =>
    obtain ⟨s1, hm, hrest⟩ := bind_eq_ok_iff.1 h
    rw [ih hrest, schema?_of_applyMember hm]

theorem applyMembers_append_eq_ok_iff {s s' : Store} {members later : List Statement} :
    s.applyMembers (members ++ later) = .ok s' ↔
      ∃ s1, s.applyMembers members = .ok s1 ∧ s1.applyMembers later = .ok s' := by
  induction members generalizing s with
  | nil => simp [applyMembers]
  | cons m rest ih =>
    simp only [List.cons_append, applyMembers, bind_eq_ok_iff, ih]
    constructor
    · rintro ⟨s1, hm, s2, hrest, hlater⟩
      exact ⟨s2, ⟨s1, hm, hrest⟩, hlater⟩
    · rintro ⟨s2, ⟨s1, hm, hrest⟩, hlater⟩
      exact ⟨s1, hm, s2, hrest, hlater⟩

end Store

end GraphTables
