import GraphTables.Proofs.Graph.Requests
import GraphTables.Proofs.Query.Rows

namespace GraphTables

namespace PropertyGraph

private theorem entries_filter_id (g : PropertyGraph) (id : List String) :
    (g.filter (· == id)).elements.entries = ((g.elements.get? id).map (id, ·)).toList := by
  apply SortedMap.eq_of_ascending (g.filter (· == id)).elements.ascending
  · cases g.elements.get? id <;> simp [Ascending]
  · rintro ⟨id', properties⟩
    have hmem : (id', properties) ∈ (g.filter (· == id)).elements.entries ↔
        g.elements.get? id' = some properties ∧ id' = id := by
      rw [← SortedMap.get?_eq_some_iff, filter, SortedMap.get?_filter, Option.filter_eq_some_iff,
        beq_iff_eq]
    rw [hmem, Option.mem_toList, Option.map_eq_some_iff]
    constructor
    · rintro ⟨hget, rfl⟩
      exact ⟨properties, hget, rfl⟩
    · rintro ⟨properties', hget, heq⟩
      cases heq
      exact ⟨hget, rfl⟩

end PropertyGraph

namespace KindTable

variable {t : KindTable}

/-- A request that stands for steps performs them. -/
theorem performs_of_means (hl : t.layout.PropertyRows) {w : GraphWrite} {steps : List GraphStep}
    (h : w.Means t.layout steps) : t.Performs t.layout.Represents w (·.applyAll steps) := by
  intro b hb
  cases h with
  | set hnames hcells hne =>
    obtain ⟨inserts, hok, hsimulates⟩ := inserts_of_names hl hnames hcells hne
    exact ⟨_, put_insert hb hok, hsimulates⟩
  | removeById hid hr hkeys hne =>
    obtain ⟨deletes, hok, hsimulates⟩ := deletes_of_id hl hid hr hkeys hne
    exact ⟨_, put_delete hb hok, hsimulates⟩
  | removeByKeys hnames hcells hwhole =>
    obtain ⟨deletes, hok, hsimulates⟩ := deletes_element hl hnames hcells hwhole
    exact ⟨_, put_delete hb hok, hsimulates⟩
  | removeProperties hnames hcells hproperties hne hpresence =>
    obtain ⟨deletes, hok, hsimulates⟩ :=
      deletes_properties hl hnames hcells hproperties hne hpresence
    exact ⟨_, put_delete hb hok, hsimulates⟩

private theorem performs_of_meanAll (hl : t.layout.PropertyRows) {writes : List GraphWrite}
    {steps : List GraphStep} (h : GraphWrite.MeanAll t.layout writes steps) :
    ∃ changes, List.Forall₂ (t.Performs t.layout.Represents) writes changes ∧
      ∀ g, changes.foldl (fun g change => change g) g = g.applyAll steps := by
  induction h with
  | nil => exact ⟨[], .nil, fun _ => rfl⟩
  | @cons w writes steps later hw _ ih =>
    obtain ⟨changes, hchanges, hall⟩ := ih
    refine ⟨(·.applyAll steps) :: changes, .cons (performs_of_means hl hw) hchanges, fun g => ?_⟩
    rw [List.foldl_cons, hall, PropertyGraph.applyAll_append]

/-- Committing batches does to the graph what all their requests do, one after the other. -/
theorem commitAll_of_meanAll (hl : t.layout.PropertyRows) {batches : List (List GraphWrite)}
    {steps : List GraphStep} (h : GraphWrite.MeanAll t.layout batches.flatten steps)
    {session : Session} (hopen : session.closed = false) {g : PropertyGraph}
    (hg : t.Holds session.store g) :
    ∃ session', t.commitAll session batches = .ok session' ∧ session'.closed = false ∧
      t.Holds session'.store (g.applyAll steps) := by
  obtain ⟨changes, hperforms, hall⟩ := performs_of_meanAll hl h
  rw [← hall]
  exact commitAll_of_performs hperforms hopen hg

/-- A select by texts in some columns gives the elements of the part of the graph whose rows have
    them. -/
theorem read_of_holds (hl : t.layout.PropertyRows) {session : Session}
    (hopen : session.closed = false) {g : PropertyGraph} (hg : t.Holds session.store g)
    (g' : PropertyGraph) (pairs : List (Column × String)) (hit : List String → String → Prop)
    [∀ id name, Decidable (hit id name)] (hcolumns : ∀ e ∈ pairs, e.1 ∈ t.layout.columns)
    (hhit : ∀ id name value, id.length = t.layout.identity.length →
      ((∀ e ∈ pairs, (t.layout.rowCells id name value).get? e.1 = some e.2) ↔ hit id name))
    (hg' : ∀ id name, g'.property? id name = if hit id name then g.property? id name else none) :
    t.read session { table := t.name, clauses := Clause.equalities pairs } =
      .ok (t.layout.elementsOf g') := by
  obtain ⟨rows, htable, hrows⟩ := hg
  have hfiltered : t.layout.Represents
      (rows.filter fun _ row => Table.satisfies (Clause.equalities pairs) row) g' := by
    apply hrows.filter
    intro id name
    rw [hg']
    cases hproperty : g.property? id name with
    | none => split <;> rfl
    | some value =>
      have hsatisfies := hrows.satisfies_iff hhit hproperty
      split
      next h => rw [Option.filter_some, hsatisfies.2 h]; rfl
      next h => rw [Option.filter_some, Bool.eq_false_iff.2 fun hs => h (hsatisfies.1 hs)]; rfl
  have hread := read_eq_ok hopen htable (s := { table := t.name, clauses := Clause.equalities pairs }) rfl
    (restrictions_defined hcolumns) (by simp)
  rw [hread, Table.selectRecords_plain]
  exact congrArg Except.ok (hfiltered.fold_ofRecord hl)

/-- A query for everything gives all elements, in ascending order of their identities. -/
theorem query_all (hl : t.layout.PropertyRows) {session : Session}
    (hopen : session.closed = false) {g : PropertyGraph} (hg : t.Holds session.store g)
    (offset : UInt64) :
    t.query session { kind := t.kind, offset } = .ok (t.layout.elementsOf g) := by
  have hread := read_of_holds hl hopen hg g [] (fun _ _ => True) (by simp) (by simp) (by simp)
  have hselections : t.planner.selections [] = .ok ([()].map fun _ => []) := rfl
  rw [query_of_reads hselections fun _ _ => hread, List.flatMap_singleton]

/-- A query for identifiers gives the element of each, in the order asked for, if it is there. -/
theorem query_ids (hl : t.layout.PropertyRows) {session : Session}
    (hopen : session.closed = false) {g : PropertyGraph} (hg : t.Holds session.store g)
    {ids : List (List String)} (hne : ids ≠ [])
    (hids : ∀ id ∈ ids, id.length = t.layout.identity.length) (offset : UInt64) :
    t.query session { kind := t.kind, ids := ids.map .composite, offset } =
      .ok (ids.filterMap fun id => (g.elements.get? id).map (t.layout.elementOf id)) := by
  have hselections : t.planner.selections (ids.map .composite) =
      .ok (ids.map fun id => Clause.equalities (t.layout.identity.zip id)) :=
    Planner.selections_of_several hl.several hne fun id hid => Layout.pairs_composite hl (hids id hid)
  have hread (id : List String) (hid : id ∈ ids) :
      t.read session { table := t.name, clauses := Clause.equalities (t.layout.identity.zip id) } =
        .ok ((g.elements.get? id).map (t.layout.elementOf id)).toList := by
    have helements : t.layout.elementsOf (g.filter (· == id)) =
        ((g.elements.get? id).map (t.layout.elementOf id)).toList := by
      rw [Layout.elementsOf, PropertyGraph.entries_filter_id]
      cases g.elements.get? id <;> rfl
    rw [← helements]
    apply read_of_holds hl hopen hg _ _ fun id' _ => id' = id
    · exact mem_columns_of_identity hl fun _ => Iff.rfl
    · intro id' name value hid'
      exact Layout.forall_identity_rowCells_iff hl (hids id hid) hid' name value
    · intro id' name
      rw [PropertyGraph.property?_filter]
      simp only [beq_iff_eq]
  rw [query_of_reads hselections hread, List.filterMap_eq_flatMap_toList]

/-- Take the table of vertices or edges in a new session, under no prefix or a plain one, and any batches
    filled with requests that write and delete elements and properties. The table is created, every
    batch is filled and committed, and then a query for everything gives exactly the elements of the
    graph that the requests make, in ascending order of their identities and each with its properties
    in ascending order of their keys; a query for identifiers gives the elements of these. -/
theorem query_simulates_graph {t : KindTable} (hkind : t.kind = .vertex ∨ t.kind = .edge)
    (hplain : t.settings.PlainPrefix) {batches : List (List GraphWrite)} {steps : List GraphStep}
    (hmeans : GraphWrite.MeanAll t.layout batches.flatten steps) :
    ∃ created session, t.init {} = (created, .ok ()) ∧ t.commitAll created batches = .ok session ∧
      (∀ offset, t.query session { kind := t.kind, offset } =
        .ok (t.layout.elementsOf (.ofSteps steps))) ∧
      ∀ ids offset, ids ≠ [] → (∀ id ∈ ids, id.length = t.layout.identity.length) →
        t.query session { kind := t.kind, ids := ids.map .composite, offset } =
          .ok (ids.filterMap fun id =>
            ((PropertyGraph.ofSteps steps).elements.get? id).map (t.layout.elementOf id)) := by
  have hl : t.layout.PropertyRows := Kind.propertyRows_layout hkind
  obtain ⟨created, hinit, hopen, hempty⟩ := keeps_init hplain (Layout.represents_empty t.layout)
  obtain ⟨session, hcommit, hopen', hgraph⟩ := commitAll_of_meanAll hl hmeans hopen hempty
  refine ⟨created, session, hinit, hcommit, query_all hl hopen' hgraph, ?_⟩
  intro ids offset hne hids
  exact query_ids hl hopen' hgraph hne hids offset

/-- Two vertices, of which one loses a property and the other is removed by its identifier. -/
theorem query_simulates_two_vertices :
    let t : KindTable := { kind := .vertex, settings := { tablePrefix := some "G7" } }
    let marko := ["person", "a\x1fb"]
    let lop := ["software", ""]
    let write (id : List String) (cells : List Property) : Request :=
      ⟨⟨""⟩, t.layout.identityCells id, cells⟩
    let cell (name value : String) : Property := ⟨.propertyKey, name, .propertyValue, value⟩
    let batches : List (List GraphWrite) :=
      [[.insert (write marko [cell "name" "marko", cell "age" "29"]),
          .insert (write lop [.presence])],
        [.delete (write marko [cell "name" ""]),
          .delete ⟨.composite lop, .empty, [.presence]⟩]]
    ∃ created session, t.init {} = (created, .ok ()) ∧ t.commitAll created batches = .ok session ∧
      t.query session { kind := .vertex } =
        .ok [⟨.vertex, t.layout.identityCells marko, [cell "age" "29"]⟩] ∧
      t.query session { kind := .vertex, ids := [.composite lop, .composite marko] } =
        .ok [⟨.vertex, t.layout.identityCells marko, [cell "age" "29"]⟩] := by
  intro t marko lop write cell batches
  have hplain : t.settings.PlainPrefix := by
    intro p hp
    obtain rfl : "G7" = p := Option.some.inj hp
    exact List.all_eq_true.1 (by decide)
  have hmarko : GraphWrite.Means t.layout
      (.insert (write marko [cell "name" "marko", cell "age" "29"]))
      [.setProperty marko "name" "marko", .setProperty marko "age" "29"] :=
    .set ⟨rfl, rfl⟩ (List.forall_mem_cons.2 ⟨⟨rfl, rfl⟩, List.forall_mem_singleton.2 ⟨rfl, rfl⟩⟩)
      (by simp [write])
  have hlop : GraphWrite.Means t.layout (.insert (write lop [.presence]))
      [.setProperty lop "~exist" ""] :=
    .set ⟨rfl, rfl⟩ (List.forall_mem_singleton.2 ⟨rfl, rfl⟩) (by simp [write])
  have hname : GraphWrite.Means t.layout (.delete (write marko [cell "name" ""]))
      [.removeProperty marko "name"] :=
    .removeProperties ⟨rfl, rfl⟩ (List.forall_mem_singleton.2 ⟨by decide, by decide⟩)
      (List.forall_mem_singleton.2 rfl) (by simp [write]) (by decide)
  have hremoved : GraphWrite.Means t.layout (.delete ⟨.composite lop, .empty, [.presence]⟩)
      [.removeElement lop] := .removeById rfl rfl rfl (by simp)
  have hmeans : GraphWrite.MeanAll t.layout batches.flatten _ :=
    .cons hmarko (.cons hlop (.cons hname (.cons hremoved .nil)))
  obtain ⟨created, session, hinit, hcommit, hall, hids⟩ :=
    query_simulates_graph (.inl rfl) hplain hmeans
  refine ⟨created, session, hinit, hcommit, ?_, ?_⟩
  · rw [hall 0]
    decide +kernel
  · have hfound := hids [lop, marko] 0 (by simp) (by simp [marko, lop]; decide)
    rw [List.map_cons, List.map_singleton] at hfound
    rw [hfound]
    decide +kernel

end KindTable

end GraphTables
