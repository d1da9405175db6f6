import GraphTables.Proofs.Batch.Carrying
import GraphTables.Proofs.OneRow.ElementTable

namespace GraphTables

namespace GraphWrite

def request : GraphWrite → Request
  | insert r => r
  | delete r => r

/-- The key columns that the request names are columns of the table. -/
def Known (l : Layout) (w : GraphWrite) : Prop := w.request.keys.keys ⊆ l.columns

instance (l : Layout) (w : GraphWrite) : Decidable (w.Known l) :=
  inferInstanceAs (Decidable (w.request.keys.keys ⊆ l.columns))

/-- The step that a request stands for. -/
inductive StandsFor (l : Layout) : GraphWrite → ElementStep → Prop where
  /-- An insert without cells writes its keys, all key columns among them. -/
  | merge {r : Request} {key : List String} : r.cells = [] →
      l.primaryKey.map r.keys.get? = key.map some → StandsFor l (.insert r) (.merge key r.keys)
  /-- A deletion with keys and without cells removes the elements that have them. -/
  | removeWith {r : Request} : r.keys ≠ .empty → r.cells = [] →
      StandsFor l (.delete r) (.removeWith r.keys)
  /-- A deletion without keys removes the elements of its identifier. -/
  | removeById {r : Request} {values : List String} : r.keys = .empty → r.cells ≠ [] →
      l.idShape.values r.id = .ok values → StandsFor l (.delete r) (.removeById r.id)

end GraphWrite

namespace Layout

variable {l : Layout} {table : String} {r : Request}

private theorem isEmpty_keys_eq_false (h : r.keys ≠ .empty) : r.keys.isEmpty = false := by
  rw [SortedMap.isEmpty, List.isEmpty_eq_false_iff]
  exact fun hempty => h (SortedMap.eq_empty_of_entries hempty)

private theorem namedColumns_keys (hcells : r.cells = []) (hknown : r.keys.keys ⊆ l.columns) :
    ∀ c ∈ namedColumns r, c ∈ l.columns := by
  rw [namedColumns, hcells, List.flatMap_nil, List.append_nil]
  exact hknown

/-- A request to write keys alone is one insert. -/
theorem inserts_keys (hkeys : r.keys ≠ .empty) (hcells : r.cells = [])
    (hknown : r.keys.keys ⊆ l.columns) : l.inserts table r = .ok [keyInsert table r] := by
  rw [inserts, requireContent_eq_ok (.inl (isEmpty_keys_eq_false hkeys)),
    requireColumns_eq_ok_iff.2 (namedColumns_keys hcells hknown), hcells]
  rfl

/-- A request to delete by keys alone is one deletion. -/
theorem deletes_keys (hkeys : r.keys ≠ .empty) (hcells : r.cells = [])
    (hknown : r.keys.keys ⊆ l.columns) :
    l.deletes table r = .ok [⟨table, Clause.equalities r.keys.entries⟩] := by
  rw [deletes_of_keys (isEmpty_keys_eq_false hkeys) (namedColumns_keys hcells hknown), hcells]
  rfl

end Layout

private theorem IdShape.eq_parts_of_values {shape : IdShape} (hseveral : shape.columns.length ≠ 1)
    {id : ElementId} {texts : List String} (h : shape.values id = .ok texts) : texts = id.parts := by
  rw [values, if_neg hseveral] at h
  simp only at h
  split at h
  · cases h
    rfl
  · cases h

namespace Kind

private theorem keys_ne_empty (k : Kind) {columns : SortedMap Column String} {key : List String}
    (h : k.layout.primaryKey.map columns.get? = key.map some) : columns ≠ .empty := by
  have hpartition : ∃ c rest, k.layout.primaryKey = c :: rest := by
    cases k <;> exact ⟨_, _, rfl⟩
  obtain ⟨c, rest, hkey⟩ := hpartition
  rintro rfl
  rw [hkey] at h
  cases key <;> cases h

end Kind

/-- Equalities by the columns of a map hold of the rows of the elements that include it. -/
theorem Table.satisfies_includes (columns element : SortedMap Column String) :
    satisfies (Clause.equalities columns.entries) (.ofColumns element) = element.includes columns := by
  rw [Bool.eq_iff_iff, satisfies_equalities, SortedMap.includes, List.all_eq_true]
  simp only [beq_iff_eq]

/-- Equalities by the values of an identifier hold of the rows of the elements it stands for. -/
theorem Table.satisfies_identity {l : Layout} {id : ElementId} {values : List String}
    (hvalues : l.idShape.values id = .ok values) (element : SortedMap Column String) :
    satisfies (Clause.equalities (l.identity.zip values)) (.ofColumns element) =
      l.identifiedBy id element := by
  have hlength : values.length = l.identity.length := IdShape.length_values hvalues
  rw [Bool.eq_iff_iff, satisfies_equalities, SortedMap.forall_mem_zip_iff hlength,
    Layout.identifiedBy, hvalues, beq_iff_eq]

namespace KindTable

variable {t : KindTable}

/-- A deletion by texts removes the elements whose rows have them. -/
theorem carries_delete {pairs : List (Column × String)} (hne : pairs ≠ [])
    (hcolumns : ∀ e ∈ pairs, e.1 ∈ t.layout.columns) {hit : SortedMap Column String → Bool}
    (hhit : ∀ element, Table.satisfies (Clause.equalities pairs) (.ofColumns element) = hit element)
    {step : ElementStep}
    (hstep : ∀ m : ElementTable, m.apply t.layout step = m.filter fun _ element => !hit element) :
    t.Carries t.layout.StoresElements [.delete ⟨t.name, Clause.equalities pairs⟩]
      (·.apply t.layout step) := by
  apply carries_of_modifyTable fun table => table.delete ⟨t.name, Clause.equalities pairs⟩
  · intro store
    rfl
  · intro rows m hrows
    refine ⟨_, delete_of_equalities hne hcolumns rows, ?_⟩
    rw [hstep]
    apply hrows.filter
    intro element
    rw [hhit]

/-- An insert of columns that has all key columns merges them into the element of its key. -/
theorem carries_merge {i : Insert} (htable : i.table = t.name) {columns : SortedMap Column String}
    (hi : i.Sets columns) (hcolumns : columns.keys ⊆ t.layout.columns) {key : List String}
    (hkey : t.layout.primaryKey.map columns.get? = key.map some) :
    t.Carries t.layout.StoresElements [.insert i] (·.apply t.layout (.merge key columns)) := by
  have hdefined : ∀ c, (columns.get? c).isSome → c ∈ t.layout.columns := fun c hc =>
    hcolumns (SortedMap.mem_keys_of_isSome hc)
  apply carries_of_modifyTable fun table => table.insert i
  · intro store
    rw [← htable]
    rfl
  · intro rows m hrows
    exact ⟨_, insert_of_sets hi hdefined hkey rows, hrows.merge hi hdefined hkey⟩

/-- A request that names columns of the table performs the step it stands for. -/
theorem performs_of_standsFor {w : GraphWrite} {step : ElementStep} (h : w.StandsFor t.layout step)
    (hknown : w.Known t.layout) :
    t.Performs t.layout.StoresElements w (·.apply t.layout step) := by
  intro b hb
  cases h with
  | @merge r key hcells hkey =>
    have htable : (Layout.keyInsert t.name r).table = t.name := Insert.table_setAll _ _
    exact ⟨_, put_insert hb (Layout.inserts_keys (t.kind.keys_ne_empty hkey) hcells hknown),
      carries_merge htable (Layout.sets_keyInsert t.name r) hknown hkey⟩
  | @removeWith r hne hcells =>
    have hcolumns : ∀ e ∈ r.keys.entries, e.1 ∈ t.layout.columns := fun e he =>
      hknown (List.mem_map_of_mem (f := Prod.fst) he)
    have hentries : r.keys.entries ≠ [] := fun hempty => hne (SortedMap.eq_empty_of_entries hempty)
    exact ⟨_, put_delete hb (Layout.deletes_keys hne hcells hknown),
      carries_delete hentries hcolumns (Table.satisfies_includes r.keys) fun _ => rfl⟩
  | @removeById r values hkeys hcells hvalues =>
    exact ⟨_, put_delete hb (Layout.deletes_id hkeys hcells hvalues),
      carries_delete (t.kind.zip_identity_ne_nil hvalues) t.kind.mem_columns_of_mem_zip
        (Table.satisfies_identity hvalues) fun _ => rfl⟩

/-- Only requests that name columns of the table are put into a batch. -/
theorem known_of_put {w : GraphWrite} {step : ElementStep} (h : w.StandsFor t.layout step)
    {b b' : PendingBatch} (hput : t.put b w = .ok b') : w.Known t.layout := by
  have hkeys {r : Request} (hnamed : t.layout.requireColumns t.name r = .ok ()) :
      r.keys.keys ⊆ t.layout.columns := fun c hc =>
    Layout.requireColumns_eq_ok_iff.1 hnamed c (List.mem_append_left _ hc)
  cases h with
  | merge =>
    obtain ⟨_, _, hput⟩ := bind_eq_ok_iff.1 hput
    obtain ⟨inserts, hinserts, _⟩ := bind_eq_ok_iff.1 hput
    obtain ⟨_, _, hinserts⟩ := bind_eq_ok_iff.1 (mapError_eq_ok_iff.1 hinserts)
    obtain ⟨_, hnamed, _⟩ := bind_eq_ok_iff.1 hinserts
    exact hkeys hnamed
  | removeWith hne _ =>
    obtain ⟨_, _, hput⟩ := bind_eq_ok_iff.1 hput
    obtain ⟨deletes, hdeletes, _⟩ := bind_eq_ok_iff.1 hput
    obtain ⟨_, _, hdeletes⟩ := bind_eq_ok_iff.1 (mapError_eq_ok_iff.1 hdeletes)
    rw [Layout.isEmpty_keys_eq_false hne, if_neg Bool.false_ne_true] at hdeletes
    obtain ⟨_, hnamed, _⟩ := bind_eq_ok_iff.1 hdeletes
    exact hkeys hnamed
  | removeById hempty =>
    rw [GraphWrite.Known, GraphWrite.request, hempty]
    exact List.nil_subset _

private theorem exists_standsFor {writes : List GraphWrite} {steps : List ElementStep}
    (h : List.Forall₂ (GraphWrite.StandsFor t.layout) writes steps) :
    ∀ w ∈ writes, ∃ step, w.StandsFor t.layout step := by
  induction h with
  | nil => simp
  | @cons w step _ _ hw _ ih =>
    rw [List.forall_mem_cons]
    exact ⟨⟨step, hw⟩, ih⟩

private theorem performs_of_forall₂ {writes : List GraphWrite} {steps : List ElementStep}
    (h : List.Forall₂ (GraphWrite.StandsFor t.layout) writes steps)
    (hknown : ∀ w ∈ writes, w.Known t.layout) :
    List.Forall₂ (t.Performs t.layout.StoresElements) writes
      (steps.map fun step m => m.apply t.layout step) := by
  induction h with
  | nil => exact .nil
  | cons hw _ ih =>
    rw [List.forall_mem_cons] at hknown
    exact .cons (performs_of_standsFor hw hknown.1) (ih hknown.2)

/-- Committing batches does to the elements what all their requests do, one after the other. -/
theorem commitAll_of_standsFor {batches : List (List GraphWrite)} {steps : List ElementStep}
    (h : List.Forall₂ (GraphWrite.StandsFor t.layout) batches.flatten steps)
    (hknown : ∀ w ∈ batches.flatten, w.Known t.layout) {session : Session}
    (hopen : session.closed = false) (hnone : t.Keeps t.layout.StoresElements session.store .empty) :
    ∃ session', t.commitAll session batches = .ok session' ∧ session'.closed = false ∧
      t.Keeps t.layout.StoresElements session'.store (.ofSteps t.layout steps) := by
  have hall := commitAll_of_performs (performs_of_forall₂ h hknown) hopen hnone
  rwa [List.foldl_map] at hall

section Queries

variable {session : Session} {m : ElementTable}

/-- A select gives the elements whose rows satisfy its clauses. -/
theorem read_of_keeps (hsingle : t.layout.spansRows = false) (hopen : session.closed = false)
    (hm : t.Keeps t.layout.StoresElements session.store m) {clauses : List Clause}
    (hclauses : ∀ r ∈ Clause.restrictionsOf clauses, r.column ∈ t.schema.columns)
    {keep : SortedMap Column String → Bool}
    (hkeep : ∀ element, Table.satisfies clauses (.ofColumns element) = keep element) :
    t.read session { table := t.name, clauses } =
      .ok (ElementTable.elements (m.filter fun _ element => keep element) t.kind) := by
  obtain ⟨rows, htable, hrows⟩ := hm
  have hread := read_eq_ok hopen htable (s := { table := t.name, clauses }) rfl hclauses (by simp)
  rw [hread, Table.selectRecords_plain]
  exact congrArg Except.ok ((hrows.filter hkeep).fold_ofRecord hsingle)

/-- A query for everything gives all elements, in ascending order of their keys. -/
theorem query_elements (hsingle : t.layout.spansRows = false) (hopen : session.closed = false)
    (hm : t.Keeps t.layout.StoresElements session.store m) (offset : UInt64) :
    t.query session { kind := t.kind, offset } = .ok (m.elements t.kind) := by
  have hnone : ∀ r ∈ Clause.restrictionsOf [], r.column ∈ t.schema.columns := by
    simp [Clause.restrictionsOf]
  have hall : ∀ element : SortedMap Column String,
      Table.satisfies [] (.ofColumns element) = true := fun _ => rfl
  have hread := read_of_keeps hsingle hopen hm hnone hall
  have hwhole : (m.filter fun _ _ => true) = m := by
    apply SortedMap.ext_get?
    intro key
    rw [SortedMap.get?_filter]
    cases m.get? key <;> rfl
  have hselections : t.planner.selections [] = .ok ([()].map fun _ => []) := rfl
  rw [hwhole] at hread
  rw [query_of_reads hselections fun _ _ => hread, List.flatMap_singleton]

/-- A list of identifiers in a single identity column holds of the rows of the elements of any of them. -/
theorem satisfies_oneOf {c : Column} (hidentity : t.layout.identity = [c]) (ids : List ElementId)
    (element : SortedMap Column String) :
    Table.satisfies [.leaf (.oneOf c.text (ids.map fun id => .text id.text))] (.ofColumns element) =
      ids.any (t.layout.identifiedBy · element) := by
  have heach (id : ElementId) : t.layout.identifiedBy id element = (element.get? c == some id.text) := by
    rw [Layout.identifiedBy, Layout.idShape, hidentity]
    simp [IdShape.values]
  rw [Bool.eq_iff_iff, Table.satisfies_oneOf_iff, List.any_eq_true]
  simp only [heach, Record.get?_ofColumns_text, beq_iff_eq]

/-- A query for identifiers gives the elements that they stand for. -/
theorem query_elementsOfIds {ids : List ElementId} (hsingle : t.layout.spansRows = false)
    (hopen : session.closed = false) (hm : t.Keeps t.layout.StoresElements session.store m)
    (hne : ids ≠ []) (hids : ∀ id ∈ ids, ∃ values, t.layout.idShape.values id = .ok values)
    (offset : UInt64) :
    t.query session { kind := t.kind, ids, offset } = .ok (m.elementsOfIds t.layout ids) := by
  have hkind : t.layout.kind = t.kind := t.kind.kind_layout
  rw [ElementTable.elementsOfIds, hkind]
  split
  next hone =>
    obtain ⟨c, hidentity⟩ := List.length_eq_one_iff.1 hone
    have hselections : t.planner.selections ids =
        .ok ([()].map fun _ => [.leaf (.oneOf c.text (ids.map fun id => .text id.text))]) :=
      Planner.selections_of_single hidentity hne
    have hcolumns : ∀ r ∈ Clause.restrictionsOf
        [.leaf (.oneOf c.text (ids.map fun id => .text id.text))], r.column ∈ t.schema.columns := by
      have hc : c ∈ t.layout.identity := by simp [hidentity]
      have hdefined := mem_columns_schema (t.kind.roleOf_of_mem_identity c hc).1
      simpa [Clause.restrictionsOf, Clause.restrictions, Restriction.column] using hdefined
    have hread := read_of_keeps hsingle hopen hm hcolumns (satisfies_oneOf hidentity ids)
    rw [query_of_reads hselections fun _ _ => hread, List.flatMap_singleton]
  next hseveral =>
    have hvalues : ∀ id ∈ ids, t.layout.idShape.values id = .ok id.parts := by
      intro id hid
      obtain ⟨values, hvalues⟩ := hids id hid
      rw [hvalues, IdShape.eq_parts_of_values hseveral hvalues]
    have hpairs : ∀ id ∈ ids, t.planner.shape.pairs id = .ok (t.layout.identity.zip id.parts) := by
      intro id hid
      have hfit : t.planner.shape.values id = .ok id.parts := hvalues id hid
      rw [IdShape.pairs, hfit]
      rfl
    have hselections := Planner.selections_of_several hseveral hne hpairs
    rw [List.map_id'] at hselections
    apply query_of_reads hselections
    intro id hid
    exact read_of_keeps hsingle hopen hm (restrictions_defined t.kind.mem_columns_of_mem_zip)
      (Table.satisfies_identity (hvalues id hid))

end Queries

/-- Take the table of a kind whose elements take one row each in a new session, under no prefix or a
    plain one, and any batches filled with requests that merge columns into elements and remove elements
    by columns or by identifiers. The table is created; batches whose requests name columns of the table
    are filled and committed. Once they are, a query for everything gives exactly the elements that the
    requests make, one for each key and in ascending order of their keys, and a query for identifiers
    those that these stand for. -/
theorem query_simulates_elements {t : KindTable} (hsingle : t.layout.spansRows = false)
    (hplain : t.settings.PlainPrefix) {batches : List (List GraphWrite)} {steps : List ElementStep}
    (hsteps : List.Forall₂ (GraphWrite.StandsFor t.layout) batches.flatten steps) :
    ∃ created, t.init {} = (created, .ok ()) ∧
      ((∀ w ∈ batches.flatten, w.Known t.layout) →
        ∃ session, t.commitAll created batches = .ok session) ∧
      ∀ session, t.commitAll created batches = .ok session →
        (ElementTable.ofSteps t.layout steps).KeyedBy t.layout ∧
        (∀ offset, t.query session { kind := t.kind, offset } =
          .ok ((ElementTable.ofSteps t.layout steps).elements t.kind)) ∧
        ∀ ids offset, ids ≠ [] → (∀ id ∈ ids, ∃ values, t.layout.idShape.values id = .ok values) →
          t.query session { kind := t.kind, ids, offset } =
            .ok ((ElementTable.ofSteps t.layout steps).elementsOfIds t.layout ids) := by
  obtain ⟨created, hinit, hopen, hempty⟩ := keeps_init hplain (Layout.storesElements_empty t.layout)
  refine ⟨created, hinit, ?_, ?_⟩
  · intro hknown
    obtain ⟨session, hcommit, _⟩ := commitAll_of_standsFor hsteps hknown hopen hempty
    exact ⟨session, hcommit⟩
  · intro session hsession
    have hknown : ∀ w ∈ batches.flatten, w.Known t.layout := by
      intro w hw
      obtain ⟨b, b', hput⟩ := exists_put_of_commitAll hsession w hw
      obtain ⟨step, hstep⟩ := exists_standsFor hsteps w hw
      exact known_of_put hstep hput
    obtain ⟨session', hcommit, hopen', hkeeps⟩ := commitAll_of_standsFor hsteps hknown hopen hempty
    obtain rfl : session = session' := Except.ok.inj (hsession.symm.trans hcommit)
    have hkeyed : (ElementTable.ofSteps t.layout steps).KeyedBy t.layout := by
      obtain ⟨rows, _, hrows⟩ := hkeeps
      exact hrows.keyed
    refine ⟨hkeyed, query_elements hsingle hopen' hkeeps, ?_⟩
    intro ids offset hne hids
    exact query_elementsOfIds hsingle hopen' hkeeps hne hids offset

/-- Three property keys, of which one gets a further column, one is removed by a column and one by its
    identifier. -/
theorem query_simulates_property_keys :
    let t : KindTable := { kind := .propertyKey, settings := { tablePrefix := some "G7" } }
    let write (columns : List (Column × String)) : Request := ⟨⟨""⟩, .ofList columns, []⟩
    let batches : List (List GraphWrite) :=
      [[.insert (write [(.name, "age"), (.dataType, "INT")]),
          .insert (write [(.name, "email"), (.dataType, "TEXT")]),
          .insert (write [(.name, "old"), (.dataType, "INT")])],
        [.insert (write [(.cardinality, "SINGLE"), (.name, "age")]),
          .delete (write [(.dataType, "TEXT")]),
          .delete ⟨⟨"old"⟩, .empty, [.presence]⟩]]
    let age : Element :=
      ⟨.propertyKey, .ofList [(.name, "age"), (.dataType, "INT"), (.cardinality, "SINGLE")], []⟩
    ∃ created session, t.init {} = (created, .ok ()) ∧ t.commitAll created batches = .ok session ∧
      t.query session { kind := .propertyKey } = .ok [age] ∧
      t.query session { kind := .propertyKey, ids := [⟨"old"⟩, ⟨"age"⟩, ⟨"email"⟩] } = .ok [age] := by
  intro t write batches age
  have hplain : t.settings.PlainPrefix := by decide
  have hmerge {name : String} {columns : List (Column × String)}
      (hname : (SortedMap.ofList columns).get? .name = some name) :
      GraphWrite.StandsFor t.layout (.insert (write columns)) (.merge [name] (.ofList columns)) :=
    .merge rfl (congrArg (fun text => [text]) hname)
  have hremoved : GraphWrite.StandsFor t.layout (.delete (write [(.dataType, "TEXT")]))
      (.removeWith (.ofList [(.dataType, "TEXT")])) := .removeWith (by decide) rfl
  have hold : GraphWrite.StandsFor t.layout (.delete ⟨⟨"old"⟩, .empty, [.presence]⟩)
      (.removeById ⟨"old"⟩) := .removeById rfl (by simp) rfl
  have hsteps : List.Forall₂ (GraphWrite.StandsFor t.layout) batches.flatten _ :=
    .cons (hmerge rfl) (.cons (hmerge rfl) (.cons (hmerge rfl)
      (.cons (hmerge rfl) (.cons hremoved (.cons hold .nil)))))
  obtain ⟨created, hinit, hexists, hqueries⟩ := query_simulates_elements rfl hplain hsteps
  obtain ⟨session, hcommit⟩ := hexists (by decide)
  obtain ⟨_, hall, hids⟩ := hqueries session hcommit
  refine ⟨created, session, hinit, hcommit, ?_, ?_⟩
  · rw [hall 0]
    decide +kernel
  · have hvalues : ∀ id ∈ [⟨"old"⟩, ⟨"age"⟩, ⟨"email"⟩],
        ∃ values, t.layout.idShape.values id = .ok values := fun id _ => ⟨[id.text], rfl⟩
    rw [hids _ 0 (by simp) hvalues]
    decide +kernel

end KindTable

end GraphTables
