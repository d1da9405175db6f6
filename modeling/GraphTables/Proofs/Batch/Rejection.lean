import GraphTables.Proofs.Batch.Carrying
import GraphTables.Proofs.Schema.Creation

namespace GraphTables

open Text

/-- A row that the request is written to has no text in some key column: the row of the keys alone, or
    the row of a property. -/
def Request.LacksKey (l : Layout) (r : Request) : Prop :=
  (r.cells = [] ∧ ∃ k ∈ l.primaryKey, k ∉ r.keys.keys) ∨
    ∃ c ∈ r.cells, ∃ k ∈ l.primaryKey, k ∉ r.keys.keys ∧ k ≠ c.nameColumn ∧ k ≠ c.valueColumn

instance (l : Layout) (r : Request) : Decidable (r.LacksKey l) :=
  inferInstanceAs (Decidable (_ ∨ _))

namespace Table

/-- An insert that names columns of the table alone is refused for want of a key column. -/
theorem insert_eq_error {t : Table} {i : Insert} (hcolumns : ∀ c ∈ i.values.map (·.1), c ∈ t.schema.columns)
    {r : Rejection} (h : t.insert i = .error r) :
    ∃ k ∈ t.schema.primaryKey, r = .missingKey k t.schema.name := by
  unfold insert at h
  rw [requireColumns_eq_ok_iff.2 hcolumns] at h
  simp only [bind, Except.bind] at h
  split at h
  next missing hfind =>
    cases h
    exact ⟨missing, List.mem_of_find?_eq_some hfind, rfl⟩
  next => cases h

end Table

namespace Layout

variable {l : Layout} {table : String} {r : Request}

private theorem isSome_get?_keyInsert (k : Column) :
    ((keyInsert table r).get? k.text).isSome ↔ k ∈ r.keys.keys := by
  rw [(sets_keyInsert table r).text, Option.isSome_map, SortedMap.isSome_get?_iff_mem_keys]

private theorem isSome_get?_cellInsert (p : Property) (k : Column) :
    ((cellInsert table r p).get? k.text).isSome ↔
      k ∈ r.keys.keys ∨ k = p.nameColumn ∨ k = p.valueColumn := by
  rw [(sets_cellInsert table r p).text, Option.isSome_map, SortedMap.get?_insert, SortedMap.get?_insert,
    ← SortedMap.isSome_get?_iff_mem_keys]
  split
  next hvalue => simp [hvalue]
  next hvalue =>
    split
    next hname => simp [hname]
    next hname => simp [hvalue, hname]

/-- The inserts of a request set all key columns exactly if none of its rows lacks one. -/
theorem forall_isSome_inserts_iff {inserts : List Insert} (h : l.inserts table r = .ok inserts) :
    (∀ i ∈ inserts, ∀ k ∈ l.primaryKey, (i.get? k.text).isSome) ↔ ¬r.LacksKey l := by
  obtain ⟨_, rfl⟩ := inserts_eq_ok h
  unfold Request.LacksKey
  cases hcells : r.cells with
  | nil => simp [isSome_get?_keyInsert]
  | cons p rest =>
    simp only [List.isEmpty_cons, Bool.false_eq_true, ↓reduceIte, List.forall_mem_map,
      isSome_get?_cellInsert, reduceCtorEq, false_and, false_or]
    grind

/-- The inserts of a request are on its table, and name columns of the table alone. -/
theorem columns_of_mem_inserts {inserts : List Insert} (h : l.inserts table r = .ok inserts) {i : Insert}
    (hi : i ∈ inserts) :
    i.table = table ∧ ∀ name ∈ i.values.map (·.1), ∃ c : Column, name = c.text ∧ c ∈ l.columns := by
  obtain ⟨hnamed, rfl⟩ := inserts_eq_ok h
  have hkeys : ∀ k ∈ r.keys.keys, k ∈ l.columns := fun k hk => hnamed k (List.mem_append_left _ hk)
  split at hi
  next =>
    obtain rfl := List.mem_singleton.1 hi
    refine ⟨Insert.table_setAll _ _, fun name hname => ?_⟩
    obtain ⟨c, rfl, _⟩ := (sets_keyInsert table r).mem_columns hname
    exact ⟨c, rfl, hkeys c (isSome_get?_keyInsert c |>.1 (Insert.isSome_get?_of_mem hname))⟩
  next =>
    obtain ⟨p, hp, rfl⟩ := List.mem_map.1 hi
    have hcell : ∀ k ∈ [p.nameColumn, p.valueColumn], k ∈ l.columns := fun k hk =>
      hnamed k (List.mem_append_right _ (List.mem_flatMap.2 ⟨p, hp, hk⟩))
    refine ⟨Insert.table_setAll _ _, fun name hname => ?_⟩
    obtain ⟨c, rfl, _⟩ := (sets_cellInsert table r p).mem_columns hname
    refine ⟨c, rfl, ?_⟩
    rcases (isSome_get?_cellInsert p c).1 (Insert.isSome_get?_of_mem hname) with hkey | hother
    · exact hkeys c hkey
    · exact hcell c (by simpa using hother)

end Layout

/-- The deletions of a request are on its table, and each goes by texts in columns of the table, of which
    there is at least one. -/
theorem Kind.equalities_of_mem_deletes (k : Kind) {table : String} {r : Request} {deletes : List Delete}
    (h : k.layout.deletes table r = .ok deletes) :
    ∀ d ∈ deletes, ∃ pairs, pairs ≠ [] ∧ (∀ e ∈ pairs, e.1 ∈ k.layout.columns) ∧
      d = ⟨table, Clause.equalities pairs⟩ := by
  obtain ⟨_, _, h⟩ := bind_eq_ok_iff.1 h
  split at h
  next =>
    obtain ⟨pairs, hpairs, h⟩ := bind_eq_ok_iff.1 h
    obtain ⟨values, hvalues, rfl⟩ := map_eq_ok_iff.1 hpairs
    cases h
    intro d hd
    obtain rfl := List.mem_singleton.1 hd
    exact ⟨_, k.zip_identity_ne_nil hvalues, k.mem_columns_of_mem_zip, rfl⟩
  next hkeys =>
    have hne : r.keys.entries ≠ [] := by simpa [SortedMap.isEmpty] using hkeys
    obtain ⟨_, hnamed, h⟩ := bind_eq_ok_iff.1 h
    have hnamed := Layout.requireColumns_eq_ok_iff.1 hnamed
    have hentries : ∀ e ∈ r.keys.entries, e.1 ∈ k.layout.columns := fun e he =>
      hnamed e.1 (List.mem_append_left _ (List.mem_map_of_mem he))
    dsimp only at h
    split at h
    next =>
      cases h
      intro d hd
      obtain rfl := List.mem_singleton.1 hd
      exact ⟨r.keys.entries, hne, hentries, rfl⟩
    next =>
      cases h
      rw [List.forall_mem_map]
      intro p hp
      refine ⟨r.keys.entries ++ [(p.nameColumn, p.name)], by simp, ?_, ?_⟩
      · rw [List.forall_mem_append]
        refine ⟨hentries, fun e he => ?_⟩
        obtain rfl := List.mem_singleton.1 he
        exact hnamed _ (List.mem_append_right _ (List.mem_flatMap.2 ⟨p, hp, by simp⟩))
      · simp [Clause.equalities]

namespace KindTable

variable {t : KindTable} {session : Session}

/-- The statements of a request. -/
def statements (t : KindTable) : GraphWrite → Except ElementError (List Statement)
  | .insert r => (t.layout.inserts t.name r).map (List.map .insert)
  | .delete r => (t.layout.deletes t.name r).map (List.map .delete)

theorem put_eq_ok {b b' : PendingBatch} {w : GraphWrite} (h : t.put b w = .ok b') :
    ∃ statements, t.statements w = .ok statements ∧ b' = b.append statements := by
  cases w with
  | insert r =>
    obtain ⟨_, _, h⟩ := bind_eq_ok_iff.1 h
    obtain ⟨inserts, hinserts, h⟩ := bind_eq_ok_iff.1 h
    cases h
    exact ⟨_, map_eq_ok_iff.2 ⟨inserts, mapError_eq_ok_iff.1 hinserts, rfl⟩, rfl⟩
  | delete r =>
    obtain ⟨_, _, h⟩ := bind_eq_ok_iff.1 h
    obtain ⟨deletes, hdeletes, h⟩ := bind_eq_ok_iff.1 h
    cases h
    exact ⟨_, map_eq_ok_iff.2 ⟨deletes, mapError_eq_ok_iff.1 hdeletes, rfl⟩, rfl⟩

/-- What holds of the statements of a filled batch is what held of its statements before, and holds of
    those of every request. -/
theorem forall_mem_fill_iff {writes : List GraphWrite} {b b' : PendingBatch}
    (h : writes.foldlM t.put b = .ok b') (p : Statement → Prop) :
    (∀ m ∈ b'.statements, p m) ↔ (∀ m ∈ b.statements, p m) ∧
      ∀ w ∈ writes, ∀ statements, t.statements w = .ok statements → ∀ m ∈ statements, p m := by
  induction writes generalizing b with
  | nil =>
    cases h
    simp
  | cons w rest ih =>
    rw [List.foldlM_cons] at h
    obtain ⟨b1, hput, hrest⟩ := bind_eq_ok_iff.1 h
    obtain ⟨statements, hstatements, rfl⟩ := put_eq_ok hput
    rw [ih hrest, PendingBatch.append, List.forall_mem_append, List.forall_mem_cons, and_assoc]
    simp [hstatements]

private theorem forall_mem_filled_iff {writes : List GraphWrite} {b : PendingBatch}
    (h : writes.foldlM t.put t.newBatch = .ok b) (p : Statement → Prop) :
    (∀ m ∈ b.statements, p m) ↔
      ∀ w ∈ writes, ∀ statements, t.statements w = .ok statements → ∀ m ∈ statements, p m := by
  rw [forall_mem_fill_iff h]
  exact and_iff_right fun _ hm => absurd hm List.not_mem_nil

private theorem names_in_schema {i : Insert}
    (hcolumns : ∀ name ∈ i.values.map (·.1), ∃ c : Column, name = c.text ∧ c ∈ t.layout.columns) :
    ∀ name ∈ i.values.map (·.1), name ∈ t.schema.columns := by
  intro name hname
  obtain ⟨c, rfl, hc⟩ := hcolumns name hname
  exact mem_columns_schema hc

/-- An insert into columns of the table is accepted exactly if it sets all key columns. -/
theorem accepts_insert_iff (h : t.Created session) (hopen : session.closed = false) {i : Insert}
    (htable : i.table = t.name)
    (hcolumns : ∀ name ∈ i.values.map (·.1), ∃ c : Column, name = c.text ∧ c ∈ t.layout.columns) :
    session.Accepts (.insert i) ↔ ∀ k ∈ t.layout.primaryKey, (i.get? k.text).isSome := by
  obtain ⟨rows, hrows, _⟩ := h.exists_rows
  have hkeys : (∀ k ∈ t.schema.primaryKey, (i.get? k).isSome) ↔
      ∀ k ∈ t.layout.primaryKey, (i.get? k.text).isSome := by
    rw [primaryKey_schema, List.forall_mem_map]
  rw [Session.accepts_iff hopen, ← hkeys]
  constructor
  · rintro ⟨s', happly⟩
    obtain ⟨_, _, htable', hinsert, _⟩ := Store.modifyTable_eq_ok_iff.1 happly
    rw [htable, hrows] at htable'
    cases htable'
    exact (Table.insert_eq_ok_iff.1 hinsert).2.1
  · intro hset
    have hinsert : Table.insert ⟨t.schema, rows⟩ i = .ok (Table.write ⟨t.schema, rows⟩ i) :=
      Table.insert_eq_ok_iff.2 ⟨names_in_schema hcolumns, hset, rfl⟩
    exact ⟨_, Store.modifyTable_eq_ok_iff.2 ⟨_, _, htable ▸ hrows, hinsert, rfl⟩⟩

/-- An insert into columns of the table makes a batch fail only for want of a key column. -/
theorem missingKey_of_failsBatch_insert (h : t.Created session) (hopen : session.closed = false)
    {i : Insert} (htable : i.table = t.name)
    (hcolumns : ∀ name ∈ i.values.map (·.1), ∃ c : Column, name = c.text ∧ c ∈ t.layout.columns)
    {e : StoreError} (he : session.FailsBatch (.insert i) e) :
    ∃ k ∈ t.layout.primaryKey, e = .invalid (.missingKey k.text (lowercase t.name)) := by
  obtain ⟨rows, hrows, _⟩ := h.exists_rows
  rw [Session.failsBatch_iff hopen, Store.applyMember, Store.insert, Store.modifyTable_eq_error_iff, htable,
    hrows] at he
  rcases he with ⟨hnone, _⟩ | ⟨_, r, htable', hinsert, rfl⟩
  · cases hnone
  · cases htable'
    obtain ⟨k, hk, rfl⟩ := Table.insert_eq_error (names_in_schema hcolumns) hinsert
    rw [primaryKey_schema] at hk
    obtain ⟨c, hc, rfl⟩ := List.mem_map.1 hk
    exact ⟨c, hc, rfl⟩

/-- A deletion by texts in columns of the table is accepted. -/
theorem accepts_delete (h : t.Created session) (hopen : session.closed = false)
    {pairs : List (Column × String)} (hne : pairs ≠ []) (hcolumns : ∀ e ∈ pairs, e.1 ∈ t.layout.columns) :
    session.Accepts (.delete ⟨t.name, Clause.equalities pairs⟩) := by
  obtain ⟨rows, hrows, _⟩ := h.exists_rows
  rw [Session.accepts_iff hopen]
  exact ⟨_, Store.modifyTable_eq_ok_iff.2 ⟨_, _, hrows, delete_of_equalities hne hcolumns rows, rfl⟩⟩

/-- The deletions of a request are accepted, whatever it names. -/
theorem accepts_deletes (h : t.Created session) (hopen : session.closed = false) {r : Request}
    {deletes : List Delete} (hdeletes : t.layout.deletes t.name r = .ok deletes) :
    ∀ d ∈ deletes, session.Accepts (.delete d) := by
  intro d hd
  obtain ⟨pairs, hne, hcolumns, rfl⟩ := t.kind.equalities_of_mem_deletes hdeletes d hd
  exact accepts_delete h hopen hne hcolumns

/-- The statements of a request are all accepted, unless it is one to write that lacks a key. -/
theorem forall_accepts_iff (h : t.Created session) (hopen : session.closed = false) {w : GraphWrite}
    {statements : List Statement} (hstatements : t.statements w = .ok statements) :
    (∀ m ∈ statements, session.Accepts m) ↔ ∀ r, w = .insert r → ¬r.LacksKey t.layout := by
  cases w with
  | insert r =>
    obtain ⟨inserts, hinserts, rfl⟩ := map_eq_ok_iff.1 hstatements
    simp only [GraphWrite.insert.injEq, forall_eq', List.forall_mem_map]
    rw [← Layout.forall_isSome_inserts_iff hinserts]
    refine forall₂_congr fun i hi => ?_
    obtain ⟨htable, hcolumns⟩ := Layout.columns_of_mem_inserts hinserts hi
    exact accepts_insert_iff h hopen htable hcolumns
  | delete r =>
    obtain ⟨deletes, hdeletes, rfl⟩ := map_eq_ok_iff.1 hstatements
    simp only [reduceCtorEq, false_implies, implies_true, iff_true, List.forall_mem_map]
    exact accepts_deletes h hopen hdeletes

/-- A statement of a request makes a batch fail only for want of a key column. -/
theorem missingKey_of_failsBatch (h : t.Created session) (hopen : session.closed = false)
    {w : GraphWrite} {statements : List Statement} (hstatements : t.statements w = .ok statements)
    {m : Statement} (hm : m ∈ statements) {e : StoreError} (he : session.FailsBatch m e) :
    ∃ k ∈ t.layout.primaryKey, e = .invalid (.missingKey k.text (lowercase t.name)) := by
  cases w with
  | insert r =>
    obtain ⟨inserts, hinserts, rfl⟩ := map_eq_ok_iff.1 hstatements
    obtain ⟨i, hi, rfl⟩ := List.mem_map.1 hm
    obtain ⟨htable, hcolumns⟩ := Layout.columns_of_mem_inserts hinserts hi
    exact missingKey_of_failsBatch_insert h hopen htable hcolumns he
  | delete r =>
    obtain ⟨deletes, hdeletes, rfl⟩ := map_eq_ok_iff.1 hstatements
    obtain ⟨d, hd, rfl⟩ := List.mem_map.1 hm
    obtain ⟨s', hok⟩ := (Session.accepts_iff hopen).1 (accepts_deletes h hopen hdeletes d hd)
    rw [Session.failsBatch_iff hopen, hok] at he
    cases he

section Filled

variable {writes : List GraphWrite} {b : PendingBatch}

private theorem forall_accepts_fill_iff (h : t.Created session) (hopen : session.closed = false)
    (hfill : writes.foldlM t.put t.newBatch = .ok b) :
    (∀ m ∈ b.statements, session.Accepts m) ↔ ∀ r, .insert r ∈ writes → ¬r.LacksKey t.layout := by
  rw [forall_mem_filled_iff hfill]
  constructor
  · intro hwrites r hr
    obtain ⟨before, after, hput⟩ := exists_of_mem_foldlM hfill _ hr
    obtain ⟨statements, hstatements, _⟩ := put_eq_ok hput
    exact (forall_accepts_iff h hopen hstatements).1 (hwrites _ hr statements hstatements) r rfl
  · intro hkeys w hw statements hstatements
    refine (forall_accepts_iff h hopen hstatements).2 fun r hr => ?_
    exact hkeys r (hr ▸ hw)

private theorem missingKey_of_failsBatch_fill (h : t.Created session) (hopen : session.closed = false)
    (hfill : writes.foldlM t.put t.newBatch = .ok b) :
    ∀ m ∈ b.statements, ∀ e, session.FailsBatch m e →
      ∃ k ∈ t.layout.primaryKey, e = .invalid (.missingKey k.text (lowercase t.name)) := by
  rw [forall_mem_filled_iff hfill]
  exact fun w hw statements hstatements m hm e => missingKey_of_failsBatch h hopen hstatements hm

/-- What a batch that was filled with requests can fail by. On an open session with the table of the kind,
    its commit fails exactly if a request to write leaves a key column unset, in the row of its keys or in
    that of a property. The failure names the statements and a key column. The deletions that an accepted
    request to delete puts into a batch are all accepted. -/
theorem commit_rejected_iff (h : t.Created session) (hopen : session.closed = false)
    (hfill : writes.foldlM t.put t.newBatch = .ok b) :
    ((∃ e, b.commit session = .error e) ↔ ∃ r, .insert r ∈ writes ∧ r.LacksKey t.layout) ∧
      (∀ e, b.commit session = .error e → ∃ k ∈ t.layout.primaryKey,
        e = .commitFailed (b.statements.map Statement.render)
          (.invalid (.missingKey k.text (lowercase t.name)))) ∧
      ∀ before after r, t.delete before r = .ok after → ∃ deletes : List Delete,
        after = before.append (deletes.map .delete) ∧ ∀ d ∈ deletes, session.Accepts (.delete d) := by
  refine ⟨?_, fun e he => ?_, fun before after r hdelete => ?_⟩
  · rw [PendingBatch.exists_commit_eq_error_iff hopen, forall_accepts_fill_iff h hopen hfill]
    push Not
    rfl
  · obtain ⟨m, hm, cause, _, hfails, rfl⟩ := PendingBatch.exists_failsBatch_of_commit hopen he
    obtain ⟨k, hk, rfl⟩ := missingKey_of_failsBatch_fill h hopen hfill m hm cause hfails
    exact ⟨k, hk, rfl⟩
  · obtain ⟨statements, hstatements, rfl⟩ := put_eq_ok (w := .delete r) hdelete
    obtain ⟨deletes, hdeletes, rfl⟩ := map_eq_ok_iff.1 hstatements
    exact ⟨deletes, rfl, accepts_deletes h hopen hdeletes⟩

end Filled

/-- A person is written with a name and deleted. Written without a property, a person has no key. -/
theorem commit_rejected_iff_people :
    let keys : SortedMap Column String := .ofList [(.label, "person"), (.primaryValues, "7")]
    let named : Request := ⟨⟨""⟩, keys, [⟨.propertyKey, "name", .propertyValue, "peter"⟩]⟩
    let bare : Request := ⟨⟨""⟩, keys, []⟩
    (∃ b, [.insert named, .delete bare].foldlM people.put people.newBatch = .ok b ∧
      ¬∃ e, b.commit .people = .error e) ∧
    ∃ b, [.delete bare, .insert bare].foldlM people.put people.newBatch = .ok b ∧
      ∃ k ∈ people.layout.primaryKey, b.commit .people = .error (.commitFailed
        (b.statements.map Statement.render) (.invalid (.missingKey k.text (lowercase people.name)))) := by
  intro keys named bare
  have hgood : ([.insert named, .delete bare].foldlM people.put people.newBatch).map
      (fun b => b.statements.length) = .ok 2 := by decide +kernel
  have hbad : ([.delete bare, .insert bare].foldlM people.put people.newBatch).map
      (fun b => b.statements.length) = .ok 2 := by decide +kernel
  obtain ⟨good, hgood, _⟩ := map_eq_ok_iff.1 hgood
  obtain ⟨bad, hbad, _⟩ := map_eq_ok_iff.1 hbad
  obtain ⟨haccept, _⟩ := commit_rejected_iff created_people rfl hgood
  obtain ⟨hreject, hcause, _⟩ := commit_rejected_iff created_people rfl hbad
  refine ⟨⟨good, hgood, fun herror => ?_⟩, bad, hbad, ?_⟩
  · obtain ⟨r, hr, hlacks⟩ := haccept.1 herror
    obtain rfl : r = named := by simpa using hr
    exact absurd hlacks (by decide +kernel)
  · obtain ⟨e, he⟩ := hreject.2 ⟨bare, by simp, by decide +kernel⟩
    obtain ⟨k, hk, rfl⟩ := hcause e he
    exact ⟨k, hk, he⟩

end KindTable

end GraphTables
