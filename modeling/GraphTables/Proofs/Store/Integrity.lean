import GraphTables.Proofs.Store.Atomicity
import GraphTables.Proofs.Text.Lowercase

namespace GraphTables

namespace SchemaChange

/-- What reading a schema change guarantees: names in small letters, and a partition key. -/
def Canonical : SchemaChange → Prop
  | createTable schema _ =>
    Text.lowercase schema.name = schema.name ∧ schema.partitionKey ≠ []
  | createIndex _ table _ => Text.lowercase table = table
  | dropTable name _ => Text.lowercase name = name

private theorem lowercase_readName (cs : List Char) : Text.lowercase (readName cs) = readName cs :=
  Text.lowercase_lowercase _

private theorem readKey_partitionKey_ne_nil {cs : List Char} {partitionKey clusteringKey : List String}
    (h : readKey cs = .ok (partitionKey, clusteringKey)) : partitionKey ≠ [] := by
  unfold readKey at h
  split at h
  · cases h
  next inner _ =>
    split at h
    · cases h
    next first rest _ =>
      split at h
      · split at h
        · cases h
        next group _ =>
          split at h
          · cases h
          next columns hcolumns =>
            cases h
            simpa using hcolumns
      · cases h
        simp

/-- Every part that gives a key gives a partition key, so the last one does. -/
theorem readParts_partitionKey_ne_nil {parts : List (List Char)} {columns : List String}
    {key : List String × List String} (h : readParts parts = .ok (columns, some key)) :
    key.1 ≠ [] := by
  induction parts generalizing columns key with
  | nil => cases h
  | cons part parts ih =>
    unfold readParts at h
    split at h
    next spec _ =>
      obtain ⟨first, hfirst, h⟩ := bind_eq_ok_iff.1 h
      obtain ⟨⟨columns', later⟩, hparts, h⟩ := bind_eq_ok_iff.1 h
      cases later with
      | none =>
        cases h
        exact readKey_partitionKey_ne_nil hfirst
      | some later =>
        cases h
        exact ih hparts
    next =>
      split at h
      · cases h
      next word _ =>
        obtain ⟨⟨columns', later⟩, hparts, h⟩ := bind_eq_ok_iff.1 h
        cases h
        exact ih hparts

private theorem canonical_of_readCreateTable {cs : List Char} {change : SchemaChange}
    (h : readCreateTable cs = .ok change) : change.Canonical := by
  unfold readCreateTable at h
  split at h
  next ifAbsent rest _ =>
    obtain ⟨⟨name, body⟩, _, h⟩ := bind_eq_ok_iff.1 h
    dsimp only at h
    split at h
    · cases h
    · obtain ⟨⟨columns, key⟩, hparts, h⟩ := bind_eq_ok_iff.1 h
      cases key with
      | none => cases h
      | some key =>
        cases h
        exact ⟨lowercase_readName _, readParts_partitionKey_ne_nil hparts⟩

private theorem canonical_of_readCreateIndex {cs : List Char} {change : SchemaChange}
    (h : readCreateIndex cs = .ok change) : change.Canonical := by
  unfold readCreateIndex at h
  dsimp only at h
  split at h
  · cases h
  · split at h
    · cases h
    next target _ =>
      obtain ⟨⟨table, column⟩, _, h⟩ := bind_eq_ok_iff.1 h
      cases h
      exact lowercase_readName _

private theorem canonical_of_readDropTable {cs : List Char} {change : SchemaChange}
    (h : readDropTable cs = .ok change) : change.Canonical := by
  unfold readDropTable at h
  split at h
  next ifPresent name _ =>
    split at h
    · cases h
    · cases h
      exact lowercase_readName _

private theorem canonical_of_read {text : String} {change : SchemaChange} (h : read text = .ok change) :
    change.Canonical := by
  unfold read at h
  dsimp only at h
  split at h
  · exact canonical_of_readCreateTable h
  · split at h
    · exact canonical_of_readCreateIndex h
    · split at h
      · exact canonical_of_readDropTable h
      · cases h

end SchemaChange

/-- A table whose shape is in order, and whose rows are under the texts of their own key cells and
    set columns of the table only. -/
structure Table.Intact (t : Table) : Prop where
  partitionKey_ne_nil : t.schema.partitionKey ≠ []
  primaryKey_subset : t.schema.primaryKey ⊆ t.schema.columns
  /-- The key of a row lists its key cells, all of them set, in the order of the key columns. -/
  keyed : ∀ key row, t.rows.get? key = some row →
    t.schema.primaryKey.map row.get? = key.map some
  defined : ∀ key row column text, t.rows.get? key = some row →
    row.get? column = some text → column ∈ t.schema.columns

namespace Table

private theorem intact_create {schema : TableSchema} {t : Table} (hpartition : schema.partitionKey ≠ [])
    (h : create schema = .ok t) : t.Intact := by
  unfold create at h
  split at h
  · cases h
  next hnone =>
    cases h
    refine ⟨hpartition, fun k hk => ?_, ?_, ?_⟩
    · have := List.find?_eq_none.1 hnone k hk
      simpa using this
    · intro key row hrow
      cases hrow
    · intro key row column text hrow
      cases hrow

theorem eq_of_create {schema : TableSchema} {t : Table} (h : create schema = .ok t) :
    t = ⟨schema, .empty⟩ := by
  unfold create at h
  split at h
  · cases h
  · cases h
    rfl

/-- The row that an insert writes has the key texts of the insert, whatever row was there before. -/
theorem map_get?_overlay {t : Table} {i : Insert} (hkey : ∀ k ∈ t.schema.primaryKey, (i.get? k).isSome)
    (old : Record) : t.schema.primaryKey.map (i.overlay old).get? = (t.keyOf i).map some := by
  unfold keyOf
  rw [List.map_map]
  apply List.map_congr_left
  intro k hk
  obtain ⟨l, hl⟩ := Option.isSome_iff_exists.1 (hkey k hk)
  simp [Insert.get?_overlay, hl]

private theorem Intact.insert {t t' : Table} {i : Insert} (ht : t.Intact) (h : t.insert i = .ok t') :
    t'.Intact := by
  obtain ⟨hcolumns, hkey, rfl⟩ := insert_eq_ok_iff.1 h
  refine ⟨ht.partitionKey_ne_nil, ht.primaryKey_subset, ?_, ?_⟩
  · intro key row hrow
    rw [get?_write] at hrow
    split at hrow
    next heq =>
      cases hrow
      rw [schema_write, heq]
      exact map_get?_overlay hkey _
    next => exact ht.keyed key row hrow
  · intro key row column text hrow htext
    rw [schema_write]
    rw [get?_write] at hrow
    split at hrow
    next =>
      cases hrow
      rw [Insert.get?_overlay] at htext
      cases hset : i.get? column with
      | some l =>
        apply hcolumns
        obtain ⟨pre, post, hvalues, _⟩ := List.lookup_eq_some_iff.1 hset
        simp [hvalues]
      | none =>
        cases hold : t.rows.get? (t.keyOf i) with
        | none => simp [hset, hold] at htext
        | some old =>
          refine ht.defined _ old column text hold ?_
          simpa [hset, hold] using htext
    next => exact ht.defined key row column text hrow htext

private theorem Intact.delete {t t' : Table} {d : Delete} (ht : t.Intact) (h : t.delete d = .ok t') :
    t'.Intact := by
  obtain ⟨_, _, rfl⟩ := delete_eq_ok_iff.1 h
  have hold {key : List String} {row : Record} (hrow : (t.remove d.clauses).rows.get? key = some row) :
      t.rows.get? key = some row := by
    rw [get?_remove, Option.filter_eq_some_iff] at hrow
    exact hrow.1
  refine ⟨ht.partitionKey_ne_nil, ht.primaryKey_subset, ?_, ?_⟩
  · intro key row hrow
    exact ht.keyed key row (hold hrow)
  · intro key row column text hrow htext
    exact ht.defined key row column text (hold hrow) htext

end Table

/-- A store whose tables are in order and are found under their own names, and whose indexes have a
    table. -/
structure Store.Intact (s : Store) : Prop where
  named : ∀ name t, s.tables.get? name = some t → name = Text.lowercase t.schema.name
  tables : ∀ name t, s.tables.get? name = some t → t.Intact
  /-- An index is on a column of a table that is there, and not on one that is its whole partition
      key. -/
  indexes : ∀ name target, s.indexes.get? name = some target →
    ∃ t, s.tables.get? target.table = some t ∧ target.column ∈ t.schema.columns ∧
      t.schema.partitionKey ≠ [target.column]

namespace Store

private theorem intact_empty : ({} : Store).Intact := by
  refine ⟨?_, ?_, ?_⟩
  · intro name t h
    cases h
  · intro name t h
    cases h
  · intro name target h
    cases h

/-- A table is found under its own name, in any spelling, and under the name it is stored under. -/
theorem Intact.table_eq_ok {s : Store} (hs : s.Intact) {name : String} {t : Table}
    (h : s.tables.get? name = some t) :
    s.table name = .ok t ∧ s.table t.schema.name = .ok t := by
  have hname := hs.named name t h
  rw [table_eq_ok_iff, table_eq_ok_iff, ← hname]
  refine ⟨?_, h⟩
  rw [hname, Text.lowercase_lowercase, ← hname]
  exact h

private theorem Intact.modifyTable {s s' : Store} {name : String} {change : Table → Except Rejection Table}
    (hs : s.Intact)
    (hchange : ∀ t t', t.Intact → change t = .ok t' → t'.Intact ∧ t'.schema = t.schema)
    (h : s.modifyTable name change = .ok s') : s'.Intact := by
  obtain ⟨t, t', htable, hresult, rfl⟩ := modifyTable_eq_ok_iff.1 h
  obtain ⟨hintact, hschema⟩ := hchange t t' (hs.tables _ t htable) hresult
  refine ⟨?_, ?_, ?_⟩
  · intro query u hu
    rw [SortedMap.get?_insert] at hu
    split at hu
    next heq =>
      cases hu
      rw [heq, hschema]
      exact hs.named _ t htable
    next => exact hs.named query u hu
  · intro query u hu
    rw [SortedMap.get?_insert] at hu
    split at hu
    next =>
      cases hu
      exact hintact
    next => exact hs.tables query u hu
  · intro index target htarget
    obtain ⟨u, hu, hcolumn, hpartition⟩ := hs.indexes index target htarget
    by_cases heq : target.table = Text.lowercase name
    · obtain rfl : u = t := by
        rw [heq, htable] at hu
        exact (Option.some.inj hu).symm
      exact ⟨t', by rw [SortedMap.get?_insert, if_pos heq], hschema ▸ hcolumn, hschema ▸ hpartition⟩
    · exact ⟨u, by rw [SortedMap.get?_insert, if_neg heq]; exact hu, hcolumn, hpartition⟩

theorem Intact.applyMember {s s' : Store} {member : Statement} (hs : s.Intact)
    (h : s.applyMember member = .ok s') : s'.Intact := by
  cases member with
  | insert i =>
    refine hs.modifyTable (fun t t' ht hinsert => ⟨ht.insert hinsert, ?_⟩) h
    obtain ⟨_, _, rfl⟩ := Table.insert_eq_ok_iff.1 hinsert
    exact t.schema_write i
  | delete d =>
    refine hs.modifyTable (fun t t' ht hdelete => ⟨ht.delete hdelete, ?_⟩) h
    obtain ⟨_, _, rfl⟩ := Table.delete_eq_ok_iff.1 hdelete
    exact t.schema_remove d.clauses
  | select q => cases h
  | batch members => cases h
  | raw text => cases h

theorem Intact.applyMembers {s s' : Store} {members : List Statement} (hs : s.Intact)
    (h : s.applyMembers members = .ok s') : s'.Intact := by
  induction members generalizing s with
  | nil =>
    cases h
    exact hs
  | cons m rest ih =>
    obtain ⟨s1, hm, hrest⟩ := bind_eq_ok_iff.1 h
    exact ih (hs.applyMember hm) hrest

private theorem Intact.createTable {s : Store} {schema : TableSchema} {t : Table} (hs : s.Intact)
    (hname : Text.lowercase schema.name = schema.name)
    (hpartition : schema.partitionKey ≠ []) (habsent : s.tables.get? schema.name = none)
    (h : Table.create schema = .ok t) :
    Store.Intact { s with tables := s.tables.insert schema.name t } := by
  refine ⟨?_, ?_, ?_⟩
  · intro query u hu
    rw [SortedMap.get?_insert] at hu
    split at hu
    next heq =>
      cases hu
      rw [heq, Table.eq_of_create h, hname]
    next => exact hs.named query u hu
  · intro query u hu
    rw [SortedMap.get?_insert] at hu
    split at hu
    next =>
      cases hu
      exact Table.intact_create hpartition h
    next => exact hs.tables query u hu
  · intro index target htarget
    obtain ⟨u, hu, hrest⟩ := hs.indexes index target htarget
    have hne : target.table ≠ schema.name := by
      intro heq
      rw [heq, habsent] at hu
      cases hu
    exact ⟨u, by rw [SortedMap.get?_insert, if_neg hne]; exact hu, hrest⟩

private theorem Intact.createIndex {s : Store} {name table column : String} {t : Table} (hs : s.Intact)
    (hname : Text.lowercase table = table) (htable : s.table table = .ok t)
    (hcolumn : column ∈ t.schema.columns) (hpartition : t.schema.partitionKey ≠ [column]) :
    Store.Intact { s with indexes := s.indexes.insert name ⟨table, column⟩ } := by
  refine ⟨hs.named, hs.tables, ?_⟩
  intro index target htarget
  rw [SortedMap.get?_insert] at htarget
  split at htarget
  next =>
    cases htarget
    rw [table_eq_ok_iff, hname] at htable
    exact ⟨t, htable, hcolumn, hpartition⟩
  next => exact hs.indexes index target htarget

/-- No index outlives its table. -/
theorem Intact.dropTable {s : Store} (hs : s.Intact) (name : String) :
    Store.Intact { tables := s.tables.erase name,
                   indexes := s.indexes.filter fun _ i => i.table != name } := by
  have hold {query : String} {t : Table} (h : (s.tables.erase name).get? query = some t) :
      s.tables.get? query = some t := by
    rw [SortedMap.get?_erase] at h
    split at h
    · cases h
    · exact h
  refine ⟨?_, ?_, ?_⟩
  · intro query t h
    exact hs.named query t (hold h)
  · intro query t h
    exact hs.tables query t (hold h)
  · intro index target htarget
    rw [SortedMap.get?_filter, Option.filter_eq_some_iff] at htarget
    obtain ⟨htarget, hkept⟩ := htarget
    obtain ⟨t, ht, hrest⟩ := hs.indexes index target htarget
    have hne : target.table ≠ name := by simpa using hkept
    exact ⟨t, by rw [SortedMap.get?_erase, if_neg hne]; exact ht, hrest⟩

private theorem Intact.changeSchema {s s' : Store} {change : SchemaChange} (hs : s.Intact)
    (hcanonical : change.Canonical) (h : s.changeSchema change = .ok s') : s'.Intact := by
  cases change with
  | createTable schema ifAbsent =>
    obtain ⟨hname, hpartition⟩ := hcanonical
    rw [Store.changeSchema] at h
    split at h
    · split at h
      · cases h
        exact hs
      · cases h
    next habsent =>
      have habsent : s.tables.get? schema.name = none := by
        rwa [SortedMap.contains, Bool.not_eq_true, Option.isSome_eq_false_iff,
          Option.isNone_iff_eq_none] at habsent
      split at h
      next t ht =>
        cases h
        exact hs.createTable hname hpartition habsent ht
      next => cases h
  | createIndex name table column =>
    rw [Store.changeSchema] at h
    split at h
    · cases h
    · obtain ⟨t, ht, h⟩ := bind_eq_ok_iff.1 h
      split at h
      · cases h
      next hcolumn =>
        split at h
        · cases h
        next hpartition =>
          cases h
          refine hs.createIndex hcanonical ht ?_ hpartition
          simpa [Table.hasColumn] using hcolumn
  | dropTable name ifPresent =>
    rw [Store.changeSchema] at h
    split at h
    · cases h
      exact hs.dropTable name
    · cases h

end Store

namespace Session

/-- What an executed statement can have done: nothing, what a batch does, or a schema change. -/
theorem execute_cases {session session' : Session} {statement : Statement} {rows : ResultSet}
    (h : session.execute statement = .ok (session', rows)) :
    session' = session ∨
      (∃ members store, session.store.applyMembers members = .ok store ∧
        session' = { session with store }) ∨
      ∃ text change store, SchemaChange.read text = .ok change ∧
        session.store.changeSchema change = .ok store ∧ session' = { session with store } := by
  unfold execute at h
  split at h
  · cases h
  · have single (member : Statement)
        (h : session.withStore (session.store.applyMember member) = .ok (session', rows)) :
        ∃ members store, session.store.applyMembers members = .ok store ∧
          session' = { session with store } := by
      obtain ⟨store, hstore, hsession, _⟩ := withStore_eq_ok_iff.1 h
      refine ⟨[member], store, ?_, hsession⟩
      exact bind_eq_ok_iff.2 ⟨store, hstore, rfl⟩
    cases statement with
    | select q =>
      obtain ⟨result, _, heq⟩ := map_eq_ok_iff.1 h
      cases heq
      exact .inl rfl
    | insert i => exact .inr (.inl (single (.insert i) h))
    | delete d => exact .inr (.inl (single (.delete d) h))
    | batch members =>
      obtain ⟨store, hstore, hsession, _⟩ := withStore_eq_ok_iff.1 h
      exact .inr (.inl ⟨members, store, hstore, hsession⟩)
    | raw text =>
      cases hread : SchemaChange.read text with
      | error fault => simp [hread] at h
      | ok change =>
        simp only [hread] at h
        obtain ⟨store, hstore, hsession, _⟩ := withStore_eq_ok_iff.1 h
        exact .inr (.inr ⟨text, change, store, hread, hstore, hsession⟩)

/-- The sessions that a new session leads to. A statement that fails changes nothing. -/
inductive Reachable : Session → Prop where
  | new : Reachable {}
  | execute {session session' : Session} {statement : Statement} {rows : ResultSet} :
    Reachable session → session.execute statement = .ok (session', rows) → Reachable session'
  | close {session : Session} : Reachable session → Reachable session.close

theorem Reachable.executeAll {session : Session} (h : session.Reachable)
    (statements : List Statement) : (session.executeAll statements).1.Reachable := by
  induction statements generalizing session with
  | nil => exact h
  | cons s rest ih =>
    unfold Session.executeAll
    cases hexecute : session.execute s with
    | error e => exact h
    | ok result => exact ih (h.execute hexecute)

/-- A statement that is executed leaves the store intact. -/
theorem intact_of_execute {session session' : Session} {statement : Statement} {rows : ResultSet}
    (hs : session.store.Intact) (h : session.execute statement = .ok (session', rows)) :
    session'.store.Intact := by
  obtain rfl | ⟨members, store, happly, rfl⟩ | ⟨text, change, store, hread, hchange, rfl⟩ :=
    execute_cases h
  · exact hs
  · exact hs.applyMembers happly
  · exact hs.changeSchema (SchemaChange.canonical_of_read hread) hchange

/-- Whatever statements a session has executed, its store is intact, and each of its tables is found
    under its own name. -/
theorem intact_of_reachable {session : Session} (h : session.Reachable) :
    session.store.Intact ∧ ∀ name t, session.store.tables.get? name = some t →
      session.store.table name = .ok t ∧ session.store.table t.schema.name = .ok t := by
  have hintact : session.store.Intact := by
    induction h with
    | new => exact Store.intact_empty
    | execute _ hexecute ih => exact intact_of_execute ih hexecute
    | close _ ih => exact ih
  exact ⟨hintact, fun name t ht => hintact.table_eq_ok ht⟩

/-- A closed session with a row and an index, in whose statements names stand in several spellings. -/
theorem intact_notebook :
    let session := (Session.notebook.executeAll
      [.raw "create index By_Body on NOTES(Body);",
        .insert ((Insert.into "nOtes").setAll [("title", .text "a"), ("body", .text "b")])]).1.close
    session.Reachable ∧ session.store.indexes.keys = ["by_body"] ∧ session.store.Intact := by
  intro session
  have hreachable : session.Reachable := ((Reachable.new.executeAll _).executeAll _).close
  exact ⟨hreachable, by decide +kernel, (intact_of_reachable hreachable).1⟩

end Session

end GraphTables
