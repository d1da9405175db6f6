import GraphTables.Proofs.Batch.Isolation
import GraphTables.Proofs.Store.RowEffect

namespace GraphTables

open Text

variable {t u : KindTable} {s s' : Store} {session : Session} {w : Workspace}

namespace KindTable

/-- The store has the table with the given rows, and its indexes. -/
structure Stands (t : KindTable) (s : Store) (rows : SortedMap (List String) Record) : Prop where
  table : s.tables.get? (lowercase t.name) = some ⟨t.schema, rows⟩
  indexes : ∀ c ∈ t.layout.indexed, s.indexes.get? (t.indexKey c) = some ⟨lowercase t.name, c.text⟩

/-- The store has the table with its indexes, or neither the table nor an index of it. -/
def Whole (t : KindTable) (s : Store) : Prop := t.Missing s ∨ ∃ rows, t.Stands s rows

private theorem whole_empty : t.Whole {} := .inl ⟨rfl, fun _ _ => rfl⟩

private theorem Whole.missing (h : t.Whole s) (htable : s.tables.get? (lowercase t.name) = none) :
    t.Missing s := by
  rcases h with hmissing | ⟨rows, hstands⟩
  · exact hmissing
  · rw [hstands.table] at htable
    cases htable

private theorem Whole.stands (h : t.Whole s) {table : Table}
    (htable : s.tables.get? (lowercase t.name) = some table) : ∃ rows, t.Stands s rows := by
  rcases h with hmissing | hstands
  · rw [hmissing.table] at htable
    cases htable
  · exact hstands

/-- An initialization creates the table with its indexes where they are missing. -/
theorem exists_init_of_missing (ht : t.settings.PlainPrefix) (hopen : session.closed = false)
    (h : t.Missing session.store) :
    ∃ session', t.init session = (session', .ok ()) ∧ t.Stands session'.store .empty := by
  refine ⟨_, init_of_missing ht hopen h, ⟨?_, fun c hc => ?_⟩⟩
  · exact (SortedMap.get?_insert _ _ _ _).trans (if_pos rfl)
  · rcases t.kind.indexed_layout with hnone | ⟨d, _, hone, _⟩
    · have hnone : t.layout.indexed = [] := hnone
      rw [hnone] at hc
      cases hc
    · have hone : t.layout.indexed = [d] := hone
      rw [hone] at hc ⊢
      obtain rfl := List.mem_singleton.1 hc
      exact (SortedMap.get?_insert _ _ _ _).trans (if_pos rfl)

/-- An initialization of a table that is there changes nothing, and fails by the first of its indexes, if
    it has any. -/
theorem init_of_stands (ht : t.settings.PlainPrefix) (hopen : session.closed = false)
    {rows : SortedMap (List String) Record} (h : t.Stands session.store rows) :
    t.init session = (session, match t.layout.indexed.head? with
      | none => .ok ()
      | some c => .error (.store (.invalid (.indexExists (t.indexKey c))))) := by
  have hvalid : (TableDefinition.ofLayout t.layout t.name).validate = .ok () :=
    validate_ofLayout t.kind t.name
  have hcreate : session.execute (.raw
      ((TableDefinition.ofLayout t.layout t.name).render t.settings.columnType)) =
        .ok (session, {}) := by
    have hthere : session.store.tables.contains t.schema.name = true := by
      have hname : t.schema.name = lowercase t.name := rfl
      rw [SortedMap.contains, hname, h.table]
      rfl
    rw [Session.execute_raw hopen (read_setup ht), ← schema_ofLayout,
      TableDefinition.changeSchema_schema hvalid, schema_ofLayout, if_pos hthere]
    rfl
  unfold init setup
  rw [Session.executeAll, hcreate]
  cases hindexed : t.layout.indexed with
  | nil => rfl
  | cons c rest =>
    have hthere : session.store.indexes.contains (t.indexKey c) = true := by
      rw [SortedMap.contains, h.indexes c (by simp [hindexed])]
      rfl
    rw [List.map_cons]
    dsimp only
    rw [Session.executeAll, Session.execute_raw hopen (read_createIndex ht c), Store.changeSchema,
      if_pos hthere]
    rfl

/-- Clearing a table removes it and the indexes that are on it. -/
theorem clear_eq (ht : t.settings.PlainPrefix) (hopen : session.closed = false) :
    t.clear session = ({ session with store :=
      { tables := session.store.tables.erase (lowercase t.name)
        indexes := session.store.indexes.filter fun _ i => i.table != lowercase t.name } },
      .ok ()) := by
  have hread : SchemaChange.read (dropStatement t.name) = .ok (.dropTable (lowercase t.name) true) :=
    SchemaChange.read_dropStatement (Settings.isName_tableName ht t.kind)
  have hchange : session.store.changeSchema (.dropTable (lowercase t.name) true) =
      .ok { tables := session.store.tables.erase (lowercase t.name)
            indexes := session.store.indexes.filter fun _ i => i.table != lowercase t.name } := by
    rw [Store.changeSchema, Bool.or_true, if_pos rfl]
  unfold clear
  rw [Session.executeAll, Session.execute_raw hopen hread, hchange]
  rfl

/-- Tables of one name, up to case, are of one kind. -/
theorem kind_eq_of_lowercase_name (ht : t.settings.PlainPrefix) (hu : u.settings.PlainPrefix)
    (h : lowercase u.name = lowercase t.name) : u.kind = t.kind := by
  by_contra hkind
  exact Settings.lowercase_tableName_ne hu ht (.inl hkind) h

/-- What a store has of a table depends on its name up to case only. -/
theorem Whole.of_lowercase_name (ht : t.settings.PlainPrefix) (hu : u.settings.PlainPrefix)
    (h : lowercase u.name = lowercase t.name) (hwhole : t.Whole s) : u.Whole s := by
  have hlayout : u.layout = t.layout := congrArg Kind.layout (kind_eq_of_lowercase_name ht hu h)
  have hschema : u.schema = t.schema := by rw [schema, schema, hlayout, h]
  have hkey (c : Column) : u.indexKey c = t.indexKey c := by rw [indexKey_eq hu, indexKey_eq ht, h]
  rcases hwhole with ⟨htable, hindexes⟩ | ⟨rows, htable, hindexes⟩
  · refine .inl ⟨h ▸ htable, fun c hc => ?_⟩
    rw [hkey, hindexes c (hlayout ▸ hc)]
  · refine .inr ⟨rows, hschema ▸ h ▸ htable, fun c hc => ?_⟩
    rw [hkey, hindexes c (hlayout ▸ hc), h]

/-- A table stays whole where neither its shape nor an index of its changes. -/
theorem Whole.congr (hschema : s'.schema? u.name = s.schema? u.name)
    (hindexes : ∀ c ∈ u.layout.indexed, s'.indexes.get? (u.indexKey c) = s.indexes.get? (u.indexKey c))
    (h : u.Whole s) : u.Whole s' := by
  rcases h with ⟨htable, hmissing⟩ | ⟨rows, htable, hthere⟩
  · exact .inl ⟨Store.get?_eq_none_of_schema?_eq hschema.symm htable, fun c hc =>
      (hindexes c hc).trans (hmissing c hc)⟩
  · obtain ⟨⟨schema, rows'⟩, htable', heq⟩ := Store.get?_of_schema?_eq hschema.symm htable
    cases heq
    exact .inr ⟨rows', htable', fun c hc => (hindexes c hc).trans (hthere c hc)⟩

end KindTable

/-- An open session in which every table is whole. -/
structure Session.Orderly (session : Session) : Prop where
  isOpen : session.closed = false
  whole : ∀ u : KindTable, u.settings.PlainPrefix → u.Whole session.store

/-- An operation on a workspace through the table of a kind. A query only reads. -/
inductive TableOperation where
  | act (t : KindTable) (a : TableAction)
  | query (t : KindTable) (q : Query)

/-- The table that the operation goes through. -/
def TableOperation.handle : TableOperation → KindTable
  | act t _ | query t _ => t

/-- Perform an operation, successful or not. -/
def Workspace.perform (w : Workspace) : TableOperation → Workspace
  | .act t a => t.act w a
  | .query _ _ => w

/-- Perform operations through any tables one after the other. -/
def Workspace.performAll (w : Workspace) (ops : List TableOperation) : Workspace :=
  ops.foldl Workspace.perform w

/-- Operations through tables whose prefixes, if they have any, are of ASCII letters, digits and low lines
    lead from a new session to the workspace. -/
def Workspace.Reached (w : Workspace) : Prop :=
  ∃ ops : List TableOperation, (∀ op ∈ ops, op.handle.settings.PlainPrefix) ∧
    w = ({} : Workspace).performAll ops

namespace KindTable

private theorem orderly_init (ht : t.settings.PlainPrefix) (h : session.Orderly) : (t.init session).1.Orderly := by
  rcases h.whole t ht with hmissing | ⟨rows, hstands⟩
  · rw [init_of_missing ht h.isOpen hmissing]
    refine ⟨h.isOpen, fun u hu => ?_⟩
    by_cases hname : lowercase u.name = lowercase t.name
    · obtain ⟨session', hinit, hstands⟩ := exists_init_of_missing ht h.isOpen hmissing
      rw [init_of_missing ht h.isOpen hmissing] at hinit
      cases hinit
      exact Whole.of_lowercase_name ht hu hname (.inr ⟨_, hstands⟩)
    · refine (h.whole u hu).congr ?_ fun c hc => ?_
      · unfold Store.schema?
        rw [SortedMap.get?_insert, if_neg hname]
      · -- An index that is created is not one of a table of another name.
        apply SortedMap.get?_insertAll_of_not_mem
        rw [List.map_map, List.mem_map]
        rintro ⟨d, hd, heq⟩
        exact hname (lowercase_name_eq_of_indexKey hu ht hc hd heq.symm)
  · rw [init_of_stands ht h.isOpen hstands]
    exact h

private theorem orderly_clear (ht : t.settings.PlainPrefix) (h : session.Orderly) :
    (t.clear session).1.Orderly := by
  rw [clear_eq ht h.isOpen]
  refine ⟨h.isOpen, fun u hu => ?_⟩
  by_cases hname : lowercase u.name = lowercase t.name
  · refine .inl ⟨?_, fun c hc => ?_⟩
    · rw [SortedMap.get?_erase, if_pos hname]
    · rw [SortedMap.get?_filter]
      rcases h.whole u hu with hmissing | ⟨rows, hstands⟩
      · rw [hmissing.indexes c hc]
        rfl
      · rw [hstands.indexes c hc, hname]
        simp [Option.filter]
  · refine (h.whole u hu).congr ?_ fun c hc => ?_
    · unfold Store.schema?
      rw [SortedMap.get?_erase, if_neg hname]
    · rw [SortedMap.get?_filter]
      rcases h.whole u hu with hmissing | ⟨rows, hstands⟩
      · rw [hmissing.indexes c hc]
        rfl
      · rw [hstands.indexes c hc]
        simp [Option.filter, hname]

/-- A commit changes rows only. -/
theorem orderly_commit {b b' : PendingBatch} {session' : Session} (h : session.Orderly)
    (hcommit : b.commit session = .ok (b', session')) : session'.Orderly := by
  obtain ⟨_, haccept, hexecute, _⟩ := PendingBatch.commit_eq_ok_iff.1 hcommit
  have hbatch := (Session.execute_batch_eq_ok_iff h.isOpen).2 ⟨haccept, hexecute, rfl⟩
  obtain ⟨happly, hopen, _⟩ := (Session.execute_batch_iff_applyMembers h.isOpen).1 hbatch
  refine ⟨hopen, fun u hu => (h.whole u hu).congr (Store.schema?_of_applyMembers happly _) fun c _ => ?_⟩
  rw [Store.indexes_of_applyMembers happly]

/-- An operation through a table keeps all tables together with their indexes. -/
theorem orderly_act (ht : t.settings.PlainPrefix) (h : w.session.Orderly) (a : TableAction) :
    (t.act w a).session.Orderly := by
  have hput (batch : String) (change : PendingBatch → Except GraphError PendingBatch) :
      (w.updateBatch batch change).1.session.Orderly := by
    unfold Workspace.updateBatch
    cases change (w.batch batch) <;> exact h
  cases a with
  | init => exact orderly_init ht h
  | clear => exact orderly_clear ht h
  | newBatch batch => exact h
  | insert batch r => exact hput batch _
  | delete batch r => exact hput batch _
  | discard batch => exact h
  | commit batch =>
    rw [act, Workspace.commit]
    cases hcommit : (w.batch batch).commit w.session with
    | error e => exact h
    | ok result => exact orderly_commit h hcommit

end KindTable

private theorem Workspace.orderly_perform (h : w.session.Orderly) {op : TableOperation}
    (hop : op.handle.settings.PlainPrefix) : (w.perform op).session.Orderly := by
  cases op with
  | act t a => exact KindTable.orderly_act hop h a
  | query t q => exact h

/-- As long as tables are worked on through their kinds alone, each is in the store with all its indexes, or
    neither it nor an index of it is. -/
theorem Workspace.orderly_performAll (h : w.session.Orderly) {ops : List TableOperation}
    (hops : ∀ op ∈ ops, op.handle.settings.PlainPrefix) : (w.performAll ops).session.Orderly := by
  induction ops generalizing w with
  | nil => exact h
  | cons op rest ih =>
    rw [List.forall_mem_cons] at hops
    exact ih (orderly_perform h hops.1) hops.2

private theorem Workspace.Reached.orderly (h : w.Reached) : w.session.Orderly := by
  obtain ⟨ops, hops, rfl⟩ := h
  exact orderly_performAll ⟨rfl, fun _ _ => KindTable.whole_empty⟩ hops

namespace KindTable

/-- The life of a table. Take any sequence of operations on a new session, through tables of any kinds whose
    prefixes, if they have any, are of ASCII letters, digits and low lines, and any such table afterwards.

    * Clearing it succeeds, and so does initializing it after that, which leaves it without rows and with its
      index, if its kind has one.
    * Where it exists, an initialization changes nothing. It succeeds for the kinds without an index, and
      fails for index labels.
    * Where it does not exist, an initialization succeeds, so none that fails has created the table. -/
theorem init_lifecycle (hw : w.Reached) (ht : t.settings.PlainPrefix) :
    (∃ cleared renewed, w.clear t = (cleared, .ok ()) ∧ cleared.init t = (renewed, .ok ()) ∧
        t.Stands renewed.session.store .empty) ∧
      (∀ table, w.session.store.table t.name = .ok table →
        (w.init t).1 = w ∧ (t.layout.indexed = [] → (w.init t).2 = .ok ()) ∧
          (t.kind = .indexLabel →
            (w.init t).2 = .error (.store (.invalid (.indexExists (t.indexKey .baseValue)))))) ∧
      (w.session.store.table t.name = .error (.tableNotFound t.name) →
        ∃ created, w.init t = (created, .ok ()) ∧ t.Stands created.session.store .empty) := by
  have horderly := hw.orderly
  have hcreates {w : Workspace} (horderly : w.session.Orderly)
      (habsent : w.session.store.tables.get? (lowercase t.name) = none) :
      ∃ created, w.init t = (created, .ok ()) ∧ t.Stands created.session.store .empty := by
    obtain ⟨session', hinit, hstands⟩ :=
      exists_init_of_missing ht horderly.isOpen ((horderly.whole t ht).missing habsent)
    exact ⟨{ w with session := session' }, by rw [Workspace.init, hinit], hstands⟩
  refine ⟨?_, fun table htable => ?_, fun habsent => hcreates horderly ?_⟩
  · have hclear := clear_eq ht horderly.isOpen
    have hcleared := orderly_clear ht horderly
    rw [hclear] at hcleared
    obtain ⟨renewed, hinit, hstands⟩ := hcreates (w := { w with session := _ }) hcleared
      ((SortedMap.get?_erase _ _ _).trans (if_pos rfl))
    exact ⟨_, renewed, by rw [Workspace.clear, hclear], hinit, hstands⟩
  · obtain ⟨rows, hstands⟩ := (horderly.whole t ht).stands (Store.table_eq_ok_iff.1 htable)
    rw [Workspace.init, init_of_stands ht horderly.isOpen hstands]
    refine ⟨rfl, fun hnone => ?_, fun hkind => ?_⟩
    · rw [hnone]
      rfl
    · have hone : t.layout.indexed = [.baseValue] := by
        rw [layout, hkind]
        rfl
      rw [hone]
      rfl
  · unfold Store.table at habsent
    split at habsent
    next => cases habsent
    next hnone => exact hnone

/-- Two spellings of one prefix stand for one table. Initialized through the one, it takes an index label
    through the other. To initialize it again is refused and keeps the index label, unless it is cleared
    first. -/
theorem init_lifecycle_of_spellings :
    let upper : KindTable := { kind := .indexLabel, settings := { tablePrefix := some "Soc" } }
    let lower : KindTable := { kind := .indexLabel, settings := { tablePrefix := some "soc" } }
    let byName : Request := ⟨⟨"byName"⟩, .ofList [(.name, "byName"), (.baseValue, "person")], []⟩
    let ops : List TableOperation := [.act upper .init, .act lower (.newBatch "b"),
      .act lower (.insert "b" byName), .act lower (.commit "b"), .query upper { kind := .indexLabel }]
    let w := ({} : Workspace).performAll ops
    w.session.rowCount lower.name = .ok 1 ∧ (w.init lower).1 = w ∧
      (w.init lower).2 = .error (.store (.invalid (.indexExists (lower.indexKey .baseValue)))) ∧
      ∃ cleared renewed, w.clear lower = (cleared, .ok ()) ∧ cleared.init lower = (renewed, .ok ()) ∧
        lower.Stands renewed.session.store .empty := by
  intro upper lower byName ops w
  have hw : w.Reached := by
    refine ⟨ops, ?_, rfl⟩
    simp only [ops, List.forall_mem_cons]
    decide
  have hcount : w.session.rowCount lower.name = .ok 1 := by
    have hfirst (w : Workspace) : w.performAll ops =
        ({ w with session := (upper.init w.session).1 } : Workspace).performAll ops.tail := rfl
    dsimp only [w]
    rw [hfirst, init_new (t := upper) (by decide)]
    decide +kernel
  obtain ⟨hclear, hinit, _⟩ := init_lifecycle (t := lower) hw (by decide)
  obtain ⟨table, htable, _⟩ := map_eq_ok_iff.1 hcount
  obtain ⟨hsame, _, hrefused⟩ := hinit table htable
  exact ⟨hcount, hsame, hrefused rfl, hclear⟩

end KindTable

end GraphTables
