import GraphTables.Proofs.Batch.Commit
import GraphTables.Proofs.Layout.Row
import GraphTables.Proofs.Schema.Setup
import Mathlib.Data.List.Forall2

namespace GraphTables

/-- A request that is put into a batch. -/
inductive GraphWrite where
  | insert (r : Request)
  | delete (r : Request)

namespace KindTable

/-- Put a request into a batch. -/
def put (t : KindTable) (b : PendingBatch) : GraphWrite → Except GraphError PendingBatch
  | .insert r => t.insert b r
  | .delete r => t.delete b r

/-- Fill a new batch with requests and commit it. -/
def commitWrites (t : KindTable) (session : Session) (writes : List GraphWrite) :
    Except GraphError Session := do
  let b ← writes.foldlM t.put t.newBatch
  let (_, session') ← b.commit session
  .ok session'

/-- Fill and commit batches, one after the other. -/
def commitAll (t : KindTable) (session : Session) (batches : List (List GraphWrite)) :
    Except GraphError Session :=
  batches.foldlM t.commitWrites session

variable {t : KindTable}

/-- The key under which an insert of some cells writes. -/
theorem keyOf_of_sets {i : Insert} {cells : SortedMap Column String} {key : List String}
    (hi : i.Sets cells) (hkey : t.layout.primaryKey.map cells.get? = key.map some)
    (rows : SortedMap (List String) Record) :
    (⟨t.schema, rows⟩ : Table).keyOf i = key ∧ ∀ k ∈ t.schema.primaryKey, (i.get? k).isSome := by
  constructor
  · have hcell : ∀ c : Column, ((i.get? c.text).map Literal.cell).getD "" =
        (cells.get? c).getD "" := by
      intro c
      rw [hi.text]
      cases cells.get? c <;> rfl
    have htexts := congrArg (List.map fun o : Option String => o.getD "") hkey
    rw [List.map_map, List.map_map] at htexts
    rw [Table.keyOf, primaryKey_schema, List.map_map]
    simp only [Function.comp_def, hcell]
    simpa [Function.comp_def] using htexts
  · intro k hk
    rw [primaryKey_schema] at hk
    obtain ⟨c, hc, rfl⟩ := List.mem_map.1 hk
    have hcell : cells.get? c ∈ key.map some := by
      rw [← hkey]
      exact List.mem_map_of_mem hc
    obtain ⟨text, _, htext⟩ := List.mem_map.1 hcell
    rw [hi.text, ← htext]
    rfl

/-- An insert of cells in columns of the table is taken if it sets the key columns. -/
theorem insert_of_sets {i : Insert} {cells : SortedMap Column String} {key : List String}
    (hi : i.Sets cells) (hcolumns : ∀ c, (cells.get? c).isSome → c ∈ t.layout.columns)
    (hkey : t.layout.primaryKey.map cells.get? = key.map some)
    (rows : SortedMap (List String) Record) :
    Table.insert ⟨t.schema, rows⟩ i =
      .ok ⟨t.schema, rows.insert key (i.overlay ((rows.get? key).getD .empty))⟩ := by
  obtain ⟨hkeyOf, hkeys⟩ := keyOf_of_sets hi hkey rows
  have hdefined : ∀ c ∈ i.values.map (·.1), c ∈ t.schema.columns := by
    intro name hname
    obtain ⟨c, rfl, hc⟩ := hi.mem_columns hname
    exact mem_columns_schema (hcolumns c hc)
  refine Table.insert_eq_ok_iff.2 ⟨hdefined, hkeys, ?_⟩
  rw [Table.write, hkeyOf]

theorem restrictions_defined {pairs : List (Column × String)}
    (hcolumns : ∀ e ∈ pairs, e.1 ∈ t.layout.columns) :
    ∀ r ∈ Clause.restrictionsOf (Clause.equalities pairs), r.column ∈ t.schema.columns := by
  intro r hr
  have hmem := List.mem_map_of_mem (f := Restriction.column) hr
  rw [Clause.columns_equalities] at hmem
  obtain ⟨e, he, heq⟩ := List.mem_map.1 hmem
  rw [← heq]
  exact mem_columns_schema (hcolumns e he)

/-- A deletion by texts in columns of the table is taken if it names one. -/
theorem delete_of_equalities {pairs : List (Column × String)} (hne : pairs ≠ [])
    (hcolumns : ∀ e ∈ pairs, e.1 ∈ t.layout.columns) (rows : SortedMap (List String) Record) :
    Table.delete ⟨t.schema, rows⟩ ⟨t.name, Clause.equalities pairs⟩ =
      .ok ⟨t.schema,
        rows.filter fun _ row => !Table.satisfies (Clause.equalities pairs) row⟩ := by
  have hclauses : Clause.equalities pairs ≠ [] := by
    unfold Clause.equalities
    simpa using hne
  exact Table.delete_eq_ok_iff.2 ⟨hclauses, restrictions_defined hcolumns, rfl⟩

section Carrying

variable {σ : Type} {standsFor : SortedMap (List String) Record → σ → Prop}

/-- The store has the table of the kind, and its rows stand for the state. -/
def Keeps (t : KindTable) (standsFor : SortedMap (List String) Record → σ → Prop) (store : Store)
    (s : σ) : Prop :=
  ∃ rows, store.tables.get? (Text.lowercase t.name) = some ⟨t.schema, rows⟩ ∧ standsFor rows s

/-- The rows of a table stand for a state of some kind, a graph for example. Wherever they do, the statements
    are taken, and the rows then stand for the changed state. -/
def Carries (t : KindTable) (standsFor : SortedMap (List String) Record → σ → Prop)
    (statements : List Statement) (change : σ → σ) : Prop :=
  ∀ store s, t.Keeps standsFor store s →
    ∃ store', store.applyMembers statements = .ok store' ∧ t.Keeps standsFor store' (change s)

/-- Put into any batch for the table, the request becomes statements that carry the change. -/
def Performs (t : KindTable) (standsFor : SortedMap (List String) Record → σ → Prop) (w : GraphWrite)
    (change : σ → σ) : Prop :=
  ∀ b : PendingBatch, b.table = t.name →
    ∃ statements, t.put b w = .ok (b.append statements) ∧ t.Carries standsFor statements change

theorem carries_nil : t.Carries standsFor [] id := fun store _ h => ⟨store, rfl, h⟩

theorem Carries.append {statements later : List Statement} {change after : σ → σ}
    (h : t.Carries standsFor statements change) (h' : t.Carries standsFor later after) :
    t.Carries standsFor (statements ++ later) (after ∘ change) := by
  intro store s hs
  obtain ⟨store1, hstatements, hs1⟩ := h store s hs
  obtain ⟨store2, hlater, hs2⟩ := h' store1 _ hs1
  exact ⟨store2, Store.applyMembers_append_eq_ok_iff.2 ⟨store1, hstatements, hlater⟩, hs2⟩

/-- A statement carries a change if it makes rows that stand for a state stand for the changed one. -/
theorem carries_of_modifyTable {member : Statement} {step : σ → σ}
    (change : Table → Except Rejection Table)
    (hmember : ∀ store : Store, store.applyMember member = store.modifyTable t.name change)
    (hchange : ∀ rows s, standsFor rows s →
      ∃ rows', change ⟨t.schema, rows⟩ = .ok ⟨t.schema, rows'⟩ ∧ standsFor rows' (step s)) :
    t.Carries standsFor [member] step := by
  intro store s hs
  obtain ⟨rows, htable, hrows⟩ := hs
  obtain ⟨rows', hok, hrows'⟩ := hchange rows s hrows
  let store' : Store :=
    { store with tables := store.tables.insert (Text.lowercase t.name) ⟨t.schema, rows'⟩ }
  have hmodify : store.modifyTable t.name change = .ok store' :=
    Store.modifyTable_eq_ok_iff.2 ⟨_, _, htable, hok, rfl⟩
  have happly : store.applyMembers [member] = .ok store' := by
    rw [Store.applyMembers, hmember, hmodify]
    rfl
  refine ⟨store', happly, rows', ?_, hrows'⟩
  rw [SortedMap.get?_insert, if_pos rfl]

theorem put_insert {b : PendingBatch} (hb : b.table = t.name) {r : Request} {inserts : List Insert}
    (h : t.layout.inserts t.name r = .ok inserts) :
    t.put b (.insert r) = .ok (b.append (inserts.map .insert)) := by
  have hown : t.requireOwn b = .ok () := if_pos hb
  rw [put, insert, hown, h]
  rfl

theorem put_delete {b : PendingBatch} (hb : b.table = t.name) {r : Request} {deletes : List Delete}
    (h : t.layout.deletes t.name r = .ok deletes) :
    t.put b (.delete r) = .ok (b.append (deletes.map .delete)) := by
  have hown : t.requireOwn b = .ok () := if_pos hb
  rw [put, delete, hown, h]
  rfl

variable {writes : List GraphWrite} {changes : List (σ → σ)} {session : Session} {s : σ}

/-- A batch takes the requests as statements that carry their changes. -/
theorem fill_of_performs (h : List.Forall₂ (t.Performs standsFor) writes changes) {b : PendingBatch}
    (hb : b.table = t.name) :
    ∃ statements, writes.foldlM t.put b = .ok (b.append statements) ∧
      t.Carries standsFor statements fun s => changes.foldl (fun s change => change s) s := by
  induction h generalizing b with
  | nil =>
    refine ⟨[], ?_, carries_nil⟩
    rw [PendingBatch.append, List.append_nil]
    rfl
  | cons hw _ ih =>
    obtain ⟨statements, hput, hcarries⟩ := hw b hb
    obtain ⟨later, hrest, hlater⟩ := ih (b := b.append statements) hb
    refine ⟨statements ++ later, ?_, hcarries.append hlater⟩
    have happend : (b.append statements).append later = b.append (statements ++ later) := by
      simp only [PendingBatch.append, List.append_assoc]
    rw [List.foldlM_cons, hput, ← happend]
    exact hrest

private theorem commitWrites_of_performs (h : List.Forall₂ (t.Performs standsFor) writes changes)
    (hopen : session.closed = false) (hs : t.Keeps standsFor session.store s) :
    ∃ session', t.commitWrites session writes = .ok session' ∧ session'.closed = false ∧
      t.Keeps standsFor session'.store (changes.foldl (fun s change => change s) s) := by
  obtain ⟨statements, hfill, hcarries⟩ := fill_of_performs h (b := t.newBatch) rfl
  obtain ⟨store, happly, hstore⟩ := hcarries session.store s hs
  have hcommit := PendingBatch.commit_of_applyMembers (b := t.newBatch.append statements) hopen happly
  refine ⟨{ session with store }, ?_, hopen, hstore⟩
  rw [commitWrites, hfill]
  simp only [bind, Except.bind, hcommit]

/-- Batches are filled and committed, and perform the changes of all their requests one after the
    other. -/
theorem commitAll_of_performs {batches : List (List GraphWrite)}
    (h : List.Forall₂ (t.Performs standsFor) batches.flatten changes)
    (hopen : session.closed = false) (hs : t.Keeps standsFor session.store s) :
    ∃ session', t.commitAll session batches = .ok session' ∧ session'.closed = false ∧
      t.Keeps standsFor session'.store (changes.foldl (fun s change => change s) s) := by
  induction batches generalizing session s changes with
  | nil =>
    cases h
    exact ⟨session, rfl, hopen, hs⟩
  | cons writes rest ih =>
    have hfirst := List.forall₂_take writes.length h
    have hlater := List.forall₂_drop writes.length h
    rw [List.flatten_cons, List.take_left] at hfirst
    rw [List.flatten_cons, List.drop_left] at hlater
    obtain ⟨session1, hcommit, hopen1, hs1⟩ := commitWrites_of_performs hfirst hopen hs
    obtain ⟨session2, hrest, hopen2, hs2⟩ := ih hlater hopen1 hs1
    refine ⟨session2, ?_, hopen2, ?_⟩
    · rw [commitAll, List.foldlM_cons, hcommit]
      exact hrest
    · rw [← List.take_append_drop writes.length changes, List.foldl_append]
      exact hs2

end Carrying

/-- Every request of batches that were filled and committed was put into its batch. -/
theorem exists_put_of_commitAll {batches : List (List GraphWrite)} {session session' : Session}
    (h : t.commitAll session batches = .ok session') :
    ∀ w ∈ batches.flatten, ∃ b b', t.put b w = .ok b' := by
  intro w hw
  obtain ⟨writes, hwrites, hw⟩ := List.mem_flatten.1 hw
  obtain ⟨before, after, hcommit⟩ := exists_of_mem_foldlM h writes hwrites
  obtain ⟨b, hfill, _⟩ := bind_eq_ok_iff.1 hcommit
  exact exists_of_mem_foldlM hfill w hw

/-- On a new session the rows of the created table stand for whatever no rows stand for. -/
theorem keeps_init {σ : Type} {standsFor : SortedMap (List String) Record → σ → Prop} {s : σ}
    (hplain : t.settings.PlainPrefix) (hempty : standsFor .empty s) :
    ∃ session, t.init {} = (session, .ok ()) ∧ session.closed = false ∧
      t.Keeps standsFor session.store s := by
  refine ⟨_, init_new hplain, rfl, .empty, ?_, hempty⟩
  rw [SortedMap.get?_insert, if_pos rfl]

end KindTable

end GraphTables
