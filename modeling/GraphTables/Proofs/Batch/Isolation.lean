import GraphTables.Proofs.Batch.ExactlyOnce
import GraphTables.Proofs.Batch.Rejection
import GraphTables.Proofs.Query.Rows
import GraphTables.Proofs.Schema.TableNames

namespace GraphTables

open Text

namespace Store

private theorem get?_tables_of_applyMember {s s' : Store} {member : Statement}
    (h : s.applyMember member = .ok s') {table name : String} (hmember : member.table? = some table)
    (hne : name ≠ lowercase table) : s'.tables.get? name = s.tables.get? name := by
  cases member with
  | insert i =>
    cases hmember
    obtain ⟨_, _, _, _, rfl⟩ := modifyTable_eq_ok_iff.1 h
    rw [SortedMap.get?_insert, if_neg hne]
  | delete d =>
    cases hmember
    obtain ⟨_, _, _, _, rfl⟩ := modifyTable_eq_ok_iff.1 h
    rw [SortedMap.get?_insert, if_neg hne]
  | select q => cases h
  | batch members => cases h
  | raw text => cases h

private theorem get?_tables_of_applyMembers {s s' : Store} {members : List Statement}
    (h : s.applyMembers members = .ok s') {table name : String}
    (hmembers : ∀ m ∈ members, m.table? = some table) (hne : name ≠ lowercase table) :
    s'.tables.get? name = s.tables.get? name := by
  induction members generalizing s with
  | nil =>
    cases h
    rfl
  | cons m rest ih =>
    rw [List.forall_mem_cons] at hmembers
    obtain ⟨s1, hm, hrest⟩ := bind_eq_ok_iff.1 h
    rw [ih hrest hmembers.2, get?_tables_of_applyMember hm hmembers.1 hne]

end Store

namespace Session

/-- Both sessions are open, or both closed, and they have the same table under a name. -/
structure SameTable (name : String) (session session' : Session) : Prop where
  closed : session'.closed = session.closed
  table : session'.store.tables.get? name = session.store.tables.get? name

variable {name : String} {session session' : Session}

theorem SameTable.refl (session : Session) : SameTable name session session := ⟨rfl, rfl⟩

theorem SameTable.trans {session'' : Session} (h : SameTable name session session')
    (h' : SameTable name session' session'') : SameTable name session session'' :=
  ⟨h'.closed.trans h.closed, h'.table.trans h.table⟩

/-- A schema change leaves a table alone that it neither creates nor drops. -/
theorem sameTable_of_execute_raw {text : String} {rows : ResultSet}
    (h : session.execute (.raw text) = .ok (session', rows))
    (hcreate : ∀ schema ifAbsent, SchemaChange.read text = .ok (.createTable schema ifAbsent) →
      schema.name ≠ name)
    (hdrop : ∀ ifPresent, SchemaChange.read text ≠ .ok (.dropTable name ifPresent)) :
    SameTable name session session' := by
  obtain ⟨change, store, hread, hchange, rfl⟩ := execute_raw_eq_ok h
  refine ⟨rfl, ?_⟩
  rcases Store.get?_tables_of_changeSchema hchange name with
    hsame | ⟨_, ifPresent, rfl⟩ | ⟨_, schema, ifAbsent, rfl, hname, _⟩
  · exact hsame
  · exact absurd hread (hdrop ifPresent)
  · exact absurd hname (hcreate schema ifAbsent hread)

private theorem sameTable_executeAll (session : Session) (statements : List Statement)
    (h : ∀ s ∈ statements, ∀ session session' rows, session.execute s = .ok (session', rows) →
      SameTable name session session') :
    SameTable name session (session.executeAll statements).1 := by
  induction statements generalizing session with
  | nil => exact .refl session
  | cons s rest ih =>
    rw [List.forall_mem_cons] at h
    rw [executeAll]
    cases hexecute : session.execute s with
    | error e => exact .refl session
    | ok result => exact (h.1 session result.1 result.2 hexecute).trans (ih result.1 h.2)

private theorem select_eq_of_sameTable {table : String} (h : SameTable (lowercase table) session session')
    {s : Select} (hs : s.table = table) : session'.select s = session.select s := by
  unfold select Store.table
  rw [hs, h.closed, h.table]

end Session

/-- An operation through the table of a kind. Batches go by names. -/
inductive TableAction where
  | init
  | clear
  | newBatch (batch : String)
  | insert (batch : String) (r : Request)
  | delete (batch : String) (r : Request)
  | discard (batch : String)
  | commit (batch : String)

/-- The batch that the operation is about. -/
def TableAction.batch? : TableAction → Option String
  | init | clear => none
  | newBatch batch | insert batch _ | delete batch _ | discard batch | commit batch => some batch

namespace KindTable

/-- All statements of the batch are on the table. -/
def Owns (t : KindTable) (b : PendingBatch) : Prop := ∀ m ∈ b.statements, m.table? = some t.name

/-- Perform an operation, successful or not. -/
def act (t : KindTable) (w : Workspace) : TableAction → Workspace
  | .init => (w.init t).1
  | .clear => (w.clear t).1
  | .newBatch batch => w.openBatch batch t.name
  | .insert batch r => (w.insert t batch r).1
  | .delete batch r => (w.delete t batch r).1
  | .discard batch => w.discard batch
  | .commit batch => (w.commit batch).1

/-- Perform operations one after the other. -/
def run (t : KindTable) (w : Workspace) (actions : List TableAction) : Workspace :=
  actions.foldl t.act w

variable {t u : KindTable} {name : String} {w : Workspace}

private theorem table_of_mem_plan {p : Planner} {q : Query} {selects : List Select}
    (h : p.plan q = .ok selects) : ∀ s ∈ selects, s.table = p.table := by
  obtain ⟨_, _, h⟩ := bind_eq_ok_iff.1 h
  obtain ⟨selections, _, h⟩ := bind_eq_ok_iff.1 h
  cases h
  rw [List.forall_mem_map]
  exact fun _ _ => rfl

/-- A query finds the same, or fails alike, wherever its table is the same. -/
theorem query_eq_of_sameTable {session session' : Session}
    (h : Session.SameTable (lowercase u.name) session session') (q : Query) :
    u.query session' q = u.query session q := by
  unfold query
  split
  next =>
    cases hplan : u.planner.plan q with
    | error e => rfl
    | ok selects =>
      have hread : ∀ s ∈ selects, u.read session' s = u.read session s := by
        intro s hs
        rw [read, read, Session.select_eq_of_sameTable h (table_of_mem_plan hplan s hs)]
      simp only [mapError_ok, bind, Except.bind, mapM_congr hread]
  next => rfl

section Frame

variable (ht : t.settings.PlainPrefix) (hne : name ≠ lowercase t.name)

include ht hne

private theorem sameTable_init (session : Session) : Session.SameTable name session (t.init session).1 := by
  refine session.sameTable_executeAll t.setup ?_
  rw [setup, List.forall_mem_cons, List.forall_mem_map]
  constructor
  · intro session session' rows hexecute
    refine Session.sameTable_of_execute_raw hexecute ?_ ?_
    · rw [read_setup ht]
      intro schema ifAbsent hread heq
      cases hread
      exact hne heq.symm
    · rw [read_setup ht]
      simp
  · -- However names make the text of an index read, it is not read as a change of a table.
    intro c _ session session' rows hexecute
    have hindex {change : SchemaChange} (hread : SchemaChange.read
        (createIndexStatement (indexName t.name c.text) t.name c.text) = .ok change) :
        ∃ index table column, change = .createIndex index table column := by
      rw [SchemaChange.read_createIndexStatement_eq] at hread
      exact SchemaChange.readCreateIndex_cases hread
    refine Session.sameTable_of_execute_raw hexecute ?_ ?_
    · intro schema ifAbsent hread
      obtain ⟨_, _, _, heq⟩ := hindex hread
      cases heq
    · intro ifPresent hread
      obtain ⟨_, _, _, heq⟩ := hindex hread
      cases heq

private theorem sameTable_clear (session : Session) : Session.SameTable name session (t.clear session).1 := by
  have hread : SchemaChange.read (dropStatement t.name) = .ok (.dropTable (lowercase t.name) true) :=
    SchemaChange.read_dropStatement (Settings.isName_tableName ht t.kind)
  refine session.sameTable_executeAll [.raw (dropStatement t.name)] ?_
  rw [List.forall_mem_singleton]
  intro session session' rows hexecute
  refine Session.sameTable_of_execute_raw hexecute ?_ ?_
  · rw [hread]
    simp
  · rw [hread]
    intro ifPresent heq
    cases heq
    exact hne rfl

omit ht in
private theorem sameTable_commit {b b' : PendingBatch} (hown : t.Owns b) {session session' : Session}
    (h : b.commit session = .ok (b', session')) : Session.SameTable name session session' := by
  obtain ⟨hopen, haccept, hexecute, _⟩ := PendingBatch.commit_eq_ok_iff.1 h
  have hbatch := (Session.execute_batch_eq_ok_iff hopen).2 ⟨haccept, hexecute, rfl⟩
  obtain ⟨happly, hopen', _⟩ := (Session.execute_batch_iff_applyMembers hopen).1 hbatch
  exact ⟨hopen'.trans hopen.symm, Store.get?_tables_of_applyMembers happly hown hne⟩

end Frame

private theorem owns_newBatch : t.Owns t.newBatch := fun _ hm => absurd hm (List.not_mem_nil)

private theorem table?_of_mem_statements {write : GraphWrite} {statements : List Statement}
    (h : t.statements write = .ok statements) : ∀ m ∈ statements, m.table? = some t.name := by
  cases write with
  | insert r =>
    obtain ⟨inserts, hinserts, rfl⟩ := map_eq_ok_iff.1 h
    rw [List.forall_mem_map]
    exact fun i hi => congrArg some (Layout.columns_of_mem_inserts hinserts hi).1
  | delete r =>
    obtain ⟨deletes, hdeletes, rfl⟩ := map_eq_ok_iff.1 h
    rw [List.forall_mem_map]
    intro d hd
    obtain ⟨_, _, _, rfl⟩ := t.kind.equalities_of_mem_deletes hdeletes d hd
    rfl

private theorem Owns.put {b b' : PendingBatch} (h : t.Owns b) {write : GraphWrite}
    (hput : t.put b write = .ok b') : t.Owns b' := by
  obtain ⟨statements, hstatements, rfl⟩ := put_eq_ok hput
  rw [Owns, PendingBatch.append, List.forall_mem_append]
  exact ⟨h, table?_of_mem_statements hstatements⟩

/-- An operation on batches of the table leaves all statements in them on the table. -/
theorem Owns.act {query : String} (h : t.Owns (w.batch query)) {a : TableAction}
    (ha : ∀ batch, a.batch? = some batch → t.Owns (w.batch batch)) : t.Owns ((t.act w a).batch query) := by
  have hset {session : Session} {batch : String} {b : PendingBatch} (hb : t.Owns b) :
      t.Owns (Workspace.batch { session, batches := w.batches.insert batch b } query) := by
    rw [Workspace.batch_insert]
    split
    · exact hb
    · exact h
  have hput {batch : String} (write : GraphWrite) (hbatch : t.Owns (w.batch batch)) :
      t.Owns ((w.updateBatch batch fun b => t.put b write).1.batch query) := by
    cases hresult : t.put (w.batch batch) write with
    | error e => simpa only [Workspace.updateBatch, hresult] using h
    | ok b => simpa only [Workspace.updateBatch, hresult] using hset (hbatch.put hresult)
  cases a with
  | init => exact h
  | clear => exact h
  | newBatch batch => exact hset owns_newBatch
  | insert batch r => exact hput (.insert r) (ha batch rfl)
  | delete batch r => exact hput (.delete r) (ha batch rfl)
  | discard batch => exact hset owns_newBatch
  | commit batch =>
    rw [KindTable.act, Workspace.commit]
    cases hcommit : (w.batch batch).commit w.session with
    | error e => exact h
    | ok result =>
      obtain ⟨b, session⟩ := result
      obtain ⟨_, _, _, rfl⟩ := PendingBatch.commit_eq_ok_iff.1 hcommit
      exact hset owns_newBatch

section Run

variable (ht : t.settings.PlainPrefix) (hne : name ≠ lowercase t.name)

include ht hne

/-- An operation through one table leaves the others alone. -/
theorem sameTable_act {a : TableAction} (ha : ∀ batch, a.batch? = some batch → t.Owns (w.batch batch)) :
    Session.SameTable name w.session (t.act w a).session := by
  have hput (batch : String) (change : PendingBatch → Except GraphError PendingBatch) :
      Session.SameTable name w.session (w.updateBatch batch change).1.session := by
    unfold Workspace.updateBatch
    cases change (w.batch batch) <;> exact .refl _
  cases a with
  | init => exact sameTable_init ht hne w.session
  | clear => exact sameTable_clear ht hne w.session
  | newBatch batch => exact .refl _
  | insert batch r => exact hput batch _
  | delete batch r => exact hput batch _
  | discard batch => exact .refl _
  | commit batch =>
    rw [act, Workspace.commit]
    cases hcommit : (w.batch batch).commit w.session with
    | error e => exact .refl _
    | ok result => exact sameTable_commit hne (ha batch rfl) hcommit

/-- A sequence of operations through one table leaves the others alone. -/
theorem sameTable_run {actions : List TableAction}
    (hown : ∀ a ∈ actions, ∀ batch, a.batch? = some batch → t.Owns (w.batch batch)) :
    Session.SameTable name w.session (t.run w actions).session := by
  induction actions generalizing w with
  | nil => exact .refl _
  | cons a rest ih =>
    rw [List.forall_mem_cons] at hown
    have hrest : ∀ a' ∈ rest, ∀ batch, a'.batch? = some batch → t.Owns ((t.act w a).batch batch) :=
      fun a' ha' batch hbatch => (hown.2 a' ha' batch hbatch).act hown.1
    exact (sameTable_act ht hne hown.1).trans (ih hrest)

end Run

/-- Tables are isolated from each other. Take two tables whose prefixes, if they have any, are of ASCII
    letters, digits and low lines, and which are of different kinds or have prefixes that differ in more
    than the case of letters. Whatever is done through the first, with batches whose statements are on it,
    and whether it succeeds or not: every query through the second has the result that it had before,
    elements or error. -/
theorem query_isolated (ht : t.settings.PlainPrefix) (hu : u.settings.PlainPrefix)
    (hapart : t.kind ≠ u.kind ∨ t.settings.samePrefix u.settings = false) {actions : List TableAction}
    (hown : ∀ a ∈ actions, ∀ batch, a.batch? = some batch → t.Owns (w.batch batch)) (q : Query) :
    u.query (t.run w actions).session q = u.query w.session q :=
  query_eq_of_sameTable
    (sameTable_run ht (Settings.lowercase_tableName_ne ht hu hapart).symm hown) q

/-- A table without a prefix is created, takes a person and is dropped. The three people under a prefix are
    still found. -/
theorem query_isolated_people :
    let plain : KindTable := { kind := .vertex }
    let peter : Request := ⟨⟨""⟩, .ofList [(.label, "person"), (.primaryValues, "7")],
      [⟨.propertyKey, "name", .propertyValue, "peter"⟩]⟩
    let actions : List TableAction := [.init, .newBatch "b", .insert "b" peter, .commit "b", .clear]
    let w : Workspace := { session := .people }
    let everyone : Query := { kind := .vertex }
    (people.query w.session everyone).map List.length = .ok 3 ∧
      people.query (plain.run w actions).session everyone = people.query w.session everyone := by
  intro plain peter actions w everyone
  have hown : ∀ a ∈ actions, ∀ batch, a.batch? = some batch → plain.Owns (w.batch batch) :=
    fun _ _ _ _ _ hm => absurd hm List.not_mem_nil
  exact ⟨by decide +kernel, query_isolated (by decide) (by decide) (.inr (by decide)) hown everyone⟩

end KindTable

end GraphTables
