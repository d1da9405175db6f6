import GraphTables.Proofs.Store.Atomicity
import GraphTables.Proofs.Store.Selection

namespace GraphTables

private theorem SortedMap.insert_insert {κ ν : Type} [Ord κ] [Std.TransOrd κ] [Std.LawfulEqOrd κ] [DecidableEq κ]
    (m : SortedMap κ ν) (k : κ) (v w : ν) : (m.insert k v).insert k w = m.insert k w := by
  refine ext_get? fun q => ?_
  simp only [get?_insert]
  split <;> rfl

private theorem SortedMap.insert_of_get? {κ ν : Type} [Ord κ] [Std.TransOrd κ] [Std.LawfulEqOrd κ]
    [DecidableEq κ] {m : SortedMap κ ν} {k : κ} {v : ν} (h : m.get? k = some v) : m.insert k v = m := by
  refine ext_get? fun q => ?_
  rw [get?_insert]
  split
  next heq => rw [heq, h]
  next => rfl

namespace Table

/-- The table takes the insert: it names columns of the table only, and sets all key columns. -/
def Takes (t : Table) (i : Insert) : Prop :=
  (∀ c ∈ i.values.map (·.1), c ∈ t.schema.columns) ∧ ∀ k ∈ t.schema.primaryKey, (i.get? k).isSome

/-- The table after inserts that it takes, one after the other. -/
def writeAll (t : Table) (log : List Insert) : Table := log.foldl Table.write t

/-- The inserts of a log that write the row of a key. -/
def under (t : Table) (log : List Insert) (key : List String) : List Insert :=
  log.filter fun i => t.keyOf i = key

/-- The text of the last insert for the key that names the column. -/
def lastText (t : Table) (log : List Insert) (key : List String) (column : String) : Option String :=
  ((t.under log key).reverse.findSome? (·.get? column)).map Literal.cell

/-- The text of a column in the row of a key. -/
def cell? (t : Table) (key : List String) (column : String) : Option String :=
  (t.rows.get? key).bind (·.get? column)

variable {t u : Table} {log log' : List Insert}

private theorem insert_eq_ok_iff_takes {t' : Table} {i : Insert} :
    t.insert i = .ok t' ↔ t.Takes i ∧ t' = t.write i := by
  rw [insert_eq_ok_iff, Takes, and_assoc]

@[simp] theorem schema_writeAll (t : Table) (log : List Insert) : (t.writeAll log).schema = t.schema := by
  induction log generalizing t with
  | nil => rfl
  | cons i rest ih => exact ih (t.write i)

private theorem mem_under {key : List String} {i : Insert} : i ∈ t.under log key ↔ i ∈ log ∧ t.keyOf i = key := by
  simp [under]

/-- An insert sets the cells that it names in the row of its key. -/
theorem cell?_write (t : Table) (i : Insert) (key : List String) (column : String) :
    (t.write i).cell? key column =
      if t.keyOf i = key then ((i.get? column).map Literal.cell).or (t.cell? key column)
      else t.cell? key column := by
  unfold cell?
  rw [get?_write]
  by_cases hkey : t.keyOf i = key
  · rw [if_pos hkey, if_pos hkey.symm, hkey, Option.bind_some, Insert.get?_overlay]
    cases t.rows.get? key <;> rfl
  · rw [if_neg hkey, if_neg fun h => hkey h.symm]

private theorem lastText_cons (t : Table) (i : Insert) (rest : List Insert) (key : List String)
    (column : String) :
    t.lastText (i :: rest) key column = (t.lastText rest key column).or
      (if t.keyOf i = key then (i.get? column).map Literal.cell else none) := by
  unfold lastText under
  by_cases hkey : t.keyOf i = key
  · simp [hkey, List.findSome?_append, Option.map_or]
  · simp [hkey]

/-- After a log a cell has the text that was written last, or what it had. -/
theorem cell?_writeAll (t : Table) (log : List Insert) (key : List String) (column : String) :
    (t.writeAll log).cell? key column = (t.lastText log key column).or (t.cell? key column) := by
  induction log generalizing t with
  | nil => rfl
  | cons i rest ih =>
    have hlast : (t.write i).lastText rest key column = t.lastText rest key column := rfl
    rw [lastText_cons, Option.or_assoc]
    refine (ih (t.write i)).trans ?_
    rw [hlast, cell?_write]
    split <;> rfl

/-- After a log there are the rows that it wrote besides those that were there. -/
theorem isSome_get?_writeAll (t : Table) (log : List Insert) (key : List String) :
    ((t.writeAll log).rows.get? key).isSome ↔
      (∃ i ∈ log, t.keyOf i = key) ∨ (t.rows.get? key).isSome := by
  induction log generalizing t with
  | nil => simp [writeAll]
  | cons i rest ih =>
    have hkeyOf : (t.write i).keyOf = t.keyOf := rfl
    refine (ih (t.write i)).trans ?_
    rw [hkeyOf, get?_write, List.exists_mem_cons_iff, or_assoc, or_left_comm]
    by_cases hkey : t.keyOf i = key
    · simp [hkey]
    · have hother : key ≠ t.keyOf i := fun h => hkey h.symm
      simp [hkey, hother]

/-- Tables of one shape with the same rows and the same cells in them are the same. -/
theorem ext_cells (hschema : t.schema = u.schema)
    (hrows : ∀ key, (t.rows.get? key).isSome ↔ (u.rows.get? key).isSome)
    (hcells : ∀ key column, t.cell? key column = u.cell? key column) : t = u := by
  have hrows' : t.rows = u.rows := by
    refine SortedMap.ext_get? fun key => ?_
    have hrow := hrows key
    have hcell := hcells key
    unfold cell? at hcell
    cases ht : t.rows.get? key with
    | none =>
      rw [ht] at hrow
      exact (Option.not_isSome_iff_eq_none.1 (mt hrow.2 Bool.false_ne_true)).symm
    | some row =>
      obtain ⟨row', hu⟩ := Option.isSome_iff_exists.1 (hrow.1 (by rw [ht]; rfl))
      rw [ht, hu] at hcell
      rw [hu, SortedMap.ext_get? hcell]
  obtain ⟨schema, rows⟩ := t
  obtain ⟨schema', rows'⟩ := u
  cases hschema
  cases hrows'
  rfl

private theorem mem_iff_of_under (h : ∀ key, t.under log' key = t.under log key) (i : Insert) :
    i ∈ log' ↔ i ∈ log := by
  have hi := congrArg (i ∈ ·) (h (t.keyOf i))
  simpa [mem_under] using hi

/-- Only the order of inserts for one key matters. -/
theorem writeAll_congr (h : ∀ key, t.under log' key = t.under log key) :
    t.writeAll log' = t.writeAll log := by
  refine ext_cells (by simp) (fun key => ?_) fun key column => ?_
  · simp only [isSome_get?_writeAll, mem_iff_of_under h]
  · rw [cell?_writeAll, cell?_writeAll, lastText, lastText, h]

/-- A select without clauses, orderings and limit gives the rows in the order of their keys. -/
theorem select_all (t : Table) (table : String) :
    t.select { table } = .ok ⟨t.schema.columns, t.rows.keys.map fun key =>
      ⟨t.schema.columns.map fun c => (c, t.cell? key c)⟩⟩ := by
  have hall : (t.rows.filter fun _ row => satisfies [] row) = t.rows := by
    refine SortedMap.ext_get? fun key => ?_
    rw [SortedMap.get?_filter]
    cases t.rows.get? key <;> rfl
  have hselect : t.select { table } =
      .ok ⟨t.schema.columns, (t.selectRecords { table }).map t.present⟩ := rfl
  rw [hselect, selectRecords_plain, hall, SortedMap.values, SortedMap.keys, List.map_map, List.map_map]
  congr 2
  refine List.map_congr_left fun e he => ?_
  have hrow := SortedMap.get?_of_mem_entries he
  simp only [Function.comp_apply, present, cell?, hrow, Option.bind_some]

end Table

/-- Inserts as they are sent. -/
inductive InsertGroup where
  | alone (i : Insert)
  | batch (inserts : List Insert)

namespace InsertGroup

/-- The statement that sends the inserts. -/
def statement : InsertGroup → Statement
  | alone i => .insert i
  | batch inserts => .batch (inserts.map .insert)

def inserts : InsertGroup → List Insert
  | alone i => [i]
  | batch inserts => inserts

/-- All inserts of groups that are sent one after the other. -/
def log (groups : List InsertGroup) : List Insert := groups.flatMap inserts

end InsertGroup

namespace Store

/-- A table takes a log exactly if it takes each of its inserts, and nothing else changes. -/
theorem applyMembers_inserts_iff {s s' : Store} {name : String} {t : Table}
    (htable : s.tables.get? (Text.lowercase name) = some t) {log : List Insert}
    (hnamed : ∀ i ∈ log, Text.lowercase i.table = Text.lowercase name) :
    s.applyMembers (log.map .insert) = .ok s' ↔ (∀ i ∈ log, t.Takes i) ∧
      s' = { s with tables := s.tables.insert (Text.lowercase name) (t.writeAll log) } := by
  induction log generalizing s t with
  | nil =>
    rw [Table.writeAll, List.foldl_nil, SortedMap.insert_of_get? htable]
    simp [applyMembers, eq_comm]
  | cons i rest ih =>
    rw [List.forall_mem_cons] at hnamed
    let written : Store :=
      { s with tables := s.tables.insert (Text.lowercase name) (t.write i) }
    have hinsert (s1 : Store) : s.insert i = .ok s1 ↔ t.Takes i ∧ s1 = written := by
      unfold insert
      rw [modifyTable_eq_ok_iff, hnamed.1]
      simp only [htable, Option.some.injEq, Table.insert_eq_ok_iff_takes]
      constructor
      · rintro ⟨_, _, rfl, ⟨htakes, rfl⟩, rfl⟩
        exact ⟨htakes, rfl⟩
      · rintro ⟨htakes, rfl⟩
        exact ⟨t, t.write i, rfl, ⟨htakes, rfl⟩, rfl⟩
    have htable' : written.tables.get? (Text.lowercase name) = some (t.write i) :=
      (SortedMap.get?_insert _ _ _ _).trans (if_pos rfl)
    have hrest := ih htable' hnamed.2
    have hwritten : written.tables.insert (Text.lowercase name) ((t.write i).writeAll rest) =
        s.tables.insert (Text.lowercase name) (t.writeAll (i :: rest)) := SortedMap.insert_insert ..
    rw [hwritten] at hrest
    rw [List.map_cons, applyMembers, bind_eq_ok_iff, List.forall_mem_cons, and_assoc]
    constructor
    · rintro ⟨s1, hi, hall⟩
      obtain ⟨htakes, rfl⟩ := (hinsert s1).1 hi
      exact ⟨htakes, hrest.1 hall⟩
    · rintro ⟨htakes, hall⟩
      exact ⟨written, (hinsert written).2 ⟨htakes, rfl⟩, hrest.2 hall⟩

end Store

namespace Session

private theorem execute_group_iff {session session' : Session} (hopen : session.closed = false)
    {group : InsertGroup} {rows : ResultSet} :
    session.execute group.statement = .ok (session', rows) ↔
      session.store.applyMembers (group.inserts.map .insert) = .ok session'.store ∧
        session'.closed = false ∧ rows = {} := by
  cases group with
  | batch inserts => exact execute_batch_iff_applyMembers hopen
  | alone i =>
    have halone : session.execute (.insert i) = session.execute (.batch [.insert i]) := by
      rw [execute_batch hopen, execute_eq_applyMember hopen rfl, Store.applyMembers]
      cases session.store.applyMember (.insert i) <;> rfl
    rw [InsertGroup.statement, halone]
    exact execute_batch_iff_applyMembers hopen

/-- However inserts are grouped, they do what they do one after the other. -/
theorem executeAll_groups_iff {session session' : Session} (hopen : session.closed = false)
    {groups : List InsertGroup} :
    session.executeAll (groups.map InsertGroup.statement) = (session', .ok ()) ↔
      session.store.applyMembers ((InsertGroup.log groups).map .insert) = .ok session'.store ∧
        session'.closed = false := by
  induction groups generalizing session with
  | nil =>
    obtain ⟨store, closed⟩ := session
    obtain ⟨store', closed'⟩ := session'
    cases hopen
    simp [InsertGroup.log, executeAll, Store.applyMembers, eq_comm]
  | cons group rest ih =>
    rw [InsertGroup.log, List.flatMap_cons, List.map_append, Store.applyMembers_append_eq_ok_iff,
      List.map_cons, executeAll]
    constructor
    · intro h
      cases hgroup : session.execute group.statement with
      | error e =>
        rw [hgroup] at h
        cases h
      | ok result =>
        rw [hgroup] at h
        obtain ⟨hfirst, hopen', _⟩ := (execute_group_iff hopen).1 hgroup
        obtain ⟨hrest, hclosed⟩ := (ih hopen').1 h
        exact ⟨⟨result.1.store, hfirst, hrest⟩, hclosed⟩
    · rintro ⟨⟨store, hfirst, hrest⟩, hclosed⟩
      have hgroup : session.execute group.statement = .ok ({ session with store }, {}) :=
        (execute_group_iff hopen).2 ⟨hfirst, hopen, rfl⟩
      have hopen' : ({ session with store } : Session).closed = false := hopen
      rw [hgroup]
      exact (ih hopen').2 ⟨hrest, hclosed⟩

/-- Upserts: the last write of each cell wins. Inserts are sent to a table without rows, in any spelling of
    its name, alone or in batches, and all are accepted.

    * A select without clauses, orderings and limit then gives one row for each key that occurs among the
      inserts, in the lexicographic order of the keys. Each cell of the row has the text of the last insert
      for the key that names its column, and is unset if there is none.
    * Inserts that are sent in another order or grouping, but for each key in the same order, are accepted,
      too, and lead to the same session. -/
theorem select_of_log {session session' : Session} (hopen : session.closed = false) {name : String}
    {t : Table} (htable : session.store.table name = .ok t) (hempty : t.rows = .empty)
    {groups : List InsertGroup}
    (hnamed : ∀ i ∈ InsertGroup.log groups, Text.lowercase i.table = Text.lowercase name)
    (hsent : session.executeAll (groups.map InsertGroup.statement) = (session', .ok ())) :
    (∃ keys : List (List String), keys.Pairwise (· < ·) ∧
        (∀ key, key ∈ keys ↔ ∃ i ∈ InsertGroup.log groups, t.keyOf i = key) ∧
        session'.select { table := name } = .ok ⟨t.schema.columns, keys.map fun key =>
          ⟨t.schema.columns.map fun c => (c, t.lastText (InsertGroup.log groups) key c)⟩⟩) ∧
      ∀ groups' : List InsertGroup,
        (∀ key, t.under (InsertGroup.log groups') key = t.under (InsertGroup.log groups) key) →
        session.executeAll (groups'.map InsertGroup.statement) = (session', .ok ()) := by
  have htable' := Store.table_eq_ok_iff.1 htable
  obtain ⟨happly, hopen'⟩ := (executeAll_groups_iff hopen).1 hsent
  obtain ⟨htakes, hstore⟩ := (Store.applyMembers_inserts_iff htable' hnamed).1 happly
  constructor
  · let written := t.writeAll (InsertGroup.log groups)
    have hwritten : session'.store.table name = .ok written := by
      rw [Store.table_eq_ok_iff, hstore]
      exact (SortedMap.get?_insert _ _ _ _).trans (if_pos rfl)
    have hrow (key : List String) : t.rows.get? key = none := by
      rw [hempty]
      rfl
    have hcell (key : List String) (column : String) : written.cell? key column =
        t.lastText (InsertGroup.log groups) key column := by
      rw [Table.cell?_writeAll, Table.cell?, hrow, Option.bind_none, Option.or_none]
    refine ⟨written.rows.keys, ?_, fun key => ?_, ?_⟩
    · unfold SortedMap.keys
      rw [List.pairwise_map]
      exact written.rows.ascending.imp fun h => (compare_texts_eq_lt_iff _ _).1 h
    · rw [← SortedMap.isSome_get?_iff_mem_keys, Table.isSome_get?_writeAll, hrow]
      simp
    · have hselect := written.select_all name
      simp only [hcell, written, Table.schema_writeAll] at hselect
      simp only [select, hopen', hwritten, bind, Except.bind]
      exact congrArg (Except.mapError StoreError.invalid) hselect
  · intro groups' hsame
    refine (executeAll_groups_iff hopen).2 ⟨?_, hopen'⟩
    have hmem := Table.mem_iff_of_under hsame
    refine (Store.applyMembers_inserts_iff htable' fun i hi => hnamed i ((hmem i).1 hi)).2 ⟨?_, ?_⟩
    · exact fun i hi => htakes i ((hmem i).1 hi)
    · rw [Table.writeAll_congr hsame, hstore]

/-- Scores of teams by day. The second note of a day replaces the first, and leaves the points. Sent as one
    batch, with the inserts for the two keys exchanged, the same inserts lead to the same session. -/
theorem select_of_log_scores :
    let t : Table := ⟨⟨"scores", ["team", "day", "points", "note"], ["team"], ["day"]⟩, .empty⟩
    let session : Session := { store.tables := SortedMap.empty.insert "scores" t }
    let insert (values : List (String × Literal)) : Insert := (Insert.into "scores").setAll values
    let opening := insert [("team", .text "red"), ("day", .int 2), ("points", .int 5), ("note", .text "x")]
    let other := insert [("team", .text "blue"), ("day", .int 2), ("points", .int 3)]
    let remark := insert [("team", .text "red"), ("day", .text "2"), ("note", .text "y")]
    let groups : List InsertGroup := [.alone opening, .batch [other, remark]]
    let regrouped : List InsertGroup := [.batch [opening, remark, other]]
    ({} : Session).execute (.raw ("CREATE TABLE Scores(team text, day int, points int, note text, " ++
        "PRIMARY KEY((team), day));")) = .ok (session, {}) ∧
      ∃ session', session.executeAll (groups.map InsertGroup.statement) = (session', .ok ()) ∧
        session.executeAll (regrouped.map InsertGroup.statement) = (session', .ok ()) ∧
        session'.select { table := "scores" } = .ok ⟨["team", "day", "points", "note"],
          [⟨[("team", some "blue"), ("day", some "2"), ("points", some "3"), ("note", none)]⟩,
            ⟨[("team", some "red"), ("day", some "2"), ("points", some "5"), ("note", some "y")]⟩]⟩ := by
  intro t session insert opening other remark groups regrouped
  have hname : Text.lowercase "scores" = "scores" := by decide +kernel
  have htable : session.store.table "scores" = .ok t := by
    rw [Store.table_eq_ok_iff, hname]
    exact (SortedMap.get?_insert _ _ _ _).trans (if_pos rfl)
  have htables : ∀ i ∈ InsertGroup.log groups, i.table = "scores" := by decide
  have hnamed : ∀ i ∈ InsertGroup.log groups, Text.lowercase i.table = Text.lowercase "scores" :=
    fun i hi => congrArg Text.lowercase (htables i hi)
  have hsent : session.executeAll (groups.map InsertGroup.statement) =
      ((session.executeAll (groups.map InsertGroup.statement)).1, .ok ()) := by
    decide +kernel
  obtain ⟨_, hregroup⟩ := select_of_log rfl htable rfl hnamed hsent
  refine ⟨by decide +kernel, _, hsent, hregroup regrouped fun key => ?_, by decide +kernel⟩
  have hlog : InsertGroup.log groups = [opening, other, remark] ∧
      InsertGroup.log regrouped = [opening, remark, other] := ⟨rfl, rfl⟩
  have hother : t.keyOf other = ["blue", "2"] := by decide +kernel
  have hremark : t.keyOf remark = ["red", "2"] := by decide +kernel
  rw [hlog.1, hlog.2]
  unfold Table.under
  by_cases hkey : key = ["blue", "2"]
  · simp [List.filter_cons, hother, hremark, hkey]
  · simp [List.filter_cons, hother, Ne.symm hkey]

end Session

end GraphTables
