import GraphTables.Proofs.Query.Filtering

namespace GraphTables

namespace IdShape

/-- The identifier has a text for each identity column: a single column takes it whole, several take a
    part each. -/
def Fits (shape : IdShape) (id : ElementId) : Prop :=
  shape.columns.length = 1 ∨ id.parts.length = shape.columns.length

instance (shape : IdShape) (id : ElementId) : Decidable (shape.Fits id) :=
  inferInstanceAs (Decidable (_ ∨ _))

/-- The first identifier that does not fit. -/
def misfit? (shape : IdShape) (ids : List ElementId) : Option ElementId :=
  ids.find? fun id => ¬shape.Fits id

variable {shape : IdShape} {id : ElementId}

theorem misfit?_eq_none_iff {ids : List ElementId} :
    shape.misfit? ids = none ↔ ∀ id ∈ ids, shape.Fits id := by
  simp [misfit?, List.find?_eq_none]

theorem exists_values_of_fits (h : shape.Fits id) : ∃ values, shape.values id = .ok values := by
  unfold values
  split
  · exact ⟨_, rfl⟩
  next hseveral =>
    dsimp only
    rw [if_pos (h.resolve_left hseveral)]
    exact ⟨_, rfl⟩

private theorem values_of_not_fits (h : ¬shape.Fits id) :
    shape.values id = .error (.invalidId id shape.columns.length id.parts.length) := by
  rw [Fits, not_or] at h
  unfold values
  rw [if_neg h.1]
  dsimp only
  rw [if_neg h.2]

/-- Several columns take the parts of an identifier that fits. -/
theorem values_of_fits (hseveral : shape.columns.length ≠ 1) (h : shape.Fits id) :
    shape.values id = .ok id.parts := by
  unfold values
  rw [if_neg hseveral]
  dsimp only
  rw [if_pos (h.resolve_left hseveral)]

end IdShape

namespace Query

/-- All columns that a query names: those of its conditions, then those it is ordered by. -/
def columns (q : Query) : List Column :=
  (q.conditions.flatMap Condition.leaves).map Leaf.column ++ q.orders.map (·.1)

/-- The first alternative or inequality in the conditions of a query. -/
def unsupported? (q : Query) : Option Unsupported := q.conditions.findSome? Condition.unsupported?

theorem unsupported?_eq_none_iff {q : Query} :
    q.unsupported? = none ↔ ∀ c ∈ q.conditions, c.Supported := by
  simp only [unsupported?, List.findSome?_eq_none_iff, Condition.unsupported?_eq_none_iff]

/-- The first column that a query names and a table does not have. -/
def undefined? (q : Query) (l : Layout) : Option Column := q.columns.find? fun c => c ∉ l.columns

theorem undefined?_eq_none_iff {q : Query} {l : Layout} :
    q.undefined? l = none ↔ ∀ c ∈ q.columns, c ∈ l.columns := by
  simp [undefined?, List.find?_eq_none]

end Query

namespace Planner

variable {p : Planner} {ids : List ElementId}

/-- An identifier that does not fit leaves a query without a plan. -/
theorem selections_of_misfit? {id : ElementId} (h : p.shape.misfit? ids = some id) :
    p.selections ids = .error (.invalidId id p.shape.columns.length id.parts.length) := by
  have hmisfit : ¬p.shape.Fits id := by simpa using List.find?_some h
  have hgood : ∀ i ∈ ids, decide (¬p.shape.Fits i) = false → ∃ clauses, p.idClauses i = .ok clauses := by
    intro i _ hfits
    obtain ⟨values, hvalues⟩ := IdShape.exists_values_of_fits (by simpa using hfits)
    rw [idClauses, IdShape.pairs, hvalues]
    exact ⟨_, rfl⟩
  have hbad : p.idClauses id = .error (.invalidId id p.shape.columns.length id.parts.length) := by
    rw [idClauses, IdShape.pairs, IdShape.values_of_not_fits hmisfit]
    rfl
  unfold selections
  split
  · cases h
  next column _ hcolumns =>
    have hone : p.shape.columns.length = 1 := congrArg List.length hcolumns
    exact absurd (.inl hone) hmisfit
  · exact mapM_eq_error h hgood hbad

/-- Identifiers that fit several columns make a selection each, of the columns and their parts. -/
theorem selections_of_fits (hseveral : p.shape.columns.length ≠ 1) (hne : ids ≠ [])
    (hfits : ∀ id ∈ ids, p.shape.Fits id) :
    p.selections ids = .ok (ids.map fun id => Clause.equalities (p.shape.columns.zip id.parts)) := by
  have hpairs : ∀ id ∈ ids, p.shape.pairs id = .ok (p.shape.columns.zip id.parts) := by
    intro id hid
    rw [IdShape.pairs, IdShape.values_of_fits hseveral (hfits id hid)]
    rfl
  have hselections := selections_of_several hseveral hne hpairs
  rwa [List.map_id'] at hselections

/-- A plan has at least one select. -/
theorem selections_ne_nil {selections : List (List Clause)} (h : p.selections ids = .ok selections) :
    selections ≠ [] := by
  unfold Planner.selections at h
  split at h
  · cases h
    simp
  · cases h
    simp
  next hne _ =>
    obtain ⟨id, rest, rfl⟩ := List.exists_cons_of_ne_nil hne
    rw [List.mapM_cons] at h
    obtain ⟨clauses, _, h⟩ := bind_eq_ok_iff.1 h
    obtain ⟨others, _, h⟩ := bind_eq_ok_iff.1 h
    cases h
    simp

end Planner

namespace KindTable

variable {t : KindTable} {session : Session}

private theorem mem_columns_schema_iff {c : Column} : c.text ∈ t.schema.columns ↔ c ∈ t.layout.columns := by
  refine ⟨fun h => ?_, mem_columns_schema⟩
  obtain ⟨d, hd, htext⟩ := List.mem_map.1 h
  exact Column.text_injective htext ▸ hd

/-- The first column that a select for a query names in vain is the first such column of the query:
    identity columns are always there. -/
theorem find?_columns_selectOf {q : Query} {clauses : List Clause} {condition : Option Clause}
    (hclauses : ∀ r ∈ Clause.restrictionsOf clauses, ∃ c ∈ t.layout.identity, r.column = c.text)
    (hcondition : Condition.Expressed (q.conditions.flatMap Condition.leaves) condition.toList) :
    (t.planner.selectOf q (clauses ++ condition.toList)).columns.find?
        (fun c => !t.schema.columns.contains c) = (q.undefined? t.layout).map Column.text := by
  have hcolumns : (t.planner.selectOf q (clauses ++ condition.toList)).columns =
      (Clause.restrictionsOf clauses).map Restriction.column ++ q.columns.map Column.text := by
    simp only [Select.columns, Select.restrictions, Planner.selectOf, Query.columns,
      Clause.restrictionsOf_append, List.map_append, hcondition.columns, List.map_map,
      List.append_assoc]
    rfl
  have hidentity : ((Clause.restrictionsOf clauses).map Restriction.column).find?
      (fun c => !t.schema.columns.contains c) = none := by
    rw [List.find?_eq_none, List.forall_mem_map]
    intro r hr
    have hdefined := columns_defined (t := t) (fun c hc => (t.kind.roleOf_of_mem_identity c hc).1)
      (hclauses r hr)
    simpa using hdefined
  rw [hcolumns, List.find?_append, hidentity, Option.none_or, List.find?_map, Query.undefined?]
  congr 2
  funext c
  simp [mem_columns_schema_iff]

/-- A select that names a column in vain is refused for it. -/
theorem read_of_undefined (hopen : session.closed = false) {rows : SortedMap (List String) Record}
    (htable : session.store.tables.get? (Text.lowercase t.name) = some ⟨t.schema, rows⟩)
    {s : Select} (hs : s.table = t.name) {column : String}
    (hcolumn : s.columns.find? (fun c => !t.schema.columns.contains c) = some column) :
    t.read session s =
      .error (.store (.invalid (.undefinedColumn column (Text.lowercase t.name)))) := by
  have hfound : session.store.table s.table = .ok ⟨t.schema, rows⟩ := by
    rw [hs]
    exact Store.table_eq_ok_iff.2 htable
  have hselect := Table.select_eq_error (t := ⟨t.schema, rows⟩) hcolumn
  rw [read, Session.select_of_table hopen hfound, hselect]
  rfl

/-- A query whose conditions and identifiers are in order reads each of its selects. -/
theorem query_of_selections (session : Session) {q : Query} (hkind : q.kind = t.kind)
    (hsupported : ∀ c ∈ q.conditions, c.Supported) (hfits : ∀ id ∈ q.ids, t.layout.idShape.Fits id) :
    ∃ (condition : Option Clause) (selections : List (List Clause)),
      Condition.Expressed (q.conditions.flatMap Condition.leaves) condition.toList ∧
      t.planner.selections q.ids = .ok selections ∧
      t.query session q = (selections.mapM fun clauses =>
        t.read session (t.planner.selectOf q (clauses ++ condition.toList))).map List.flatten := by
  obtain ⟨condition, hcondition, hexpressed⟩ := Condition.conjunction_of_supported hsupported
  obtain ⟨selections, hselections⟩ := t.planner.exists_selections fun id hid =>
    IdShape.exists_values_of_fits (hfits id hid)
  exact ⟨condition, selections, hexpressed, hselections,
    query_eq_mapM session hkind hcondition hselections⟩

/-- If all selects for a query fail alike, the query fails so: there is at least one. -/
theorem query_of_reads_fail {q : Query} (hkind : q.kind = t.kind)
    (hsupported : ∀ c ∈ q.conditions, c.Supported) (hfits : ∀ id ∈ q.ids, t.layout.idShape.Fits id)
    {e : GraphError} (hread : ∀ (clauses : List Clause) (condition : Option Clause),
      (∀ r ∈ Clause.restrictionsOf clauses, ∃ c ∈ t.layout.identity, r.column = c.text) →
      Condition.Expressed (q.conditions.flatMap Condition.leaves) condition.toList →
      t.read session (t.planner.selectOf q (clauses ++ condition.toList)) = .error e) :
    t.query session q = .error e := by
  obtain ⟨condition, selections, hexpressed, hselections, hquery⟩ :=
    query_of_selections session hkind hsupported hfits
  obtain ⟨clauses, rest, rfl⟩ := List.exists_cons_of_ne_nil (Planner.selections_ne_nil hselections)
  have hidentity := Planner.column_of_mem_selections hselections (List.mem_cons_self (l := rest))
  rw [hquery, List.mapM_cons, hread clauses condition hidentity hexpressed]
  rfl

/-- The first fault of a query that is put to the table of a kind, if it has any. -/
def fault? (t : KindTable) (closed : Bool) (q : Query) : Option GraphError :=
  if q.kind ≠ t.kind then some (.otherKind q.kind t.kind)
  else
    match q.unsupported? with
    | some u => some (.unsupported u)
    | none =>
      match t.layout.idShape.misfit? q.ids with
      | some id => some (.element (.invalidId id t.layout.identity.length id.parts.length))
      | none =>
        if closed then some (.store .closed)
        else (q.undefined? t.layout).map fun c =>
          .store (.invalid (.undefinedColumn c.text (Text.lowercase t.name)))

/-- The faults that a query can have, each only if it has none of those before. -/
theorem fault?_eq_some_iff {closed : Bool} {q : Query} {e : GraphError} :
    t.fault? closed q = some e ↔
      q.kind ≠ t.kind ∧ e = .otherKind q.kind t.kind ∨
      q.kind = t.kind ∧
        ((∃ u, q.unsupported? = some u ∧ e = .unsupported u) ∨
        q.unsupported? = none ∧
          ((∃ id, t.layout.idShape.misfit? q.ids = some id ∧
            e = .element (.invalidId id t.layout.identity.length id.parts.length)) ∨
          t.layout.idShape.misfit? q.ids = none ∧
            (closed = true ∧ e = .store .closed ∨
            closed = false ∧ ∃ c, q.undefined? t.layout = some c ∧
              e = .store (.invalid (.undefinedColumn c.text (Text.lowercase t.name)))))) := by
  unfold fault?
  split
  next hkind => simp [hkind, eq_comm]
  next hkind =>
    have hkind : q.kind = t.kind := Decidable.not_not.1 hkind
    cases q.unsupported? with
    | some u => simp [hkind, eq_comm]
    | none =>
      cases t.layout.idShape.misfit? q.ids with
      | some id => simp [hkind, eq_comm]
      | none => cases closed <;> simp [hkind, eq_comm (a := e)]

theorem fault?_eq_none_iff {closed : Bool} {q : Query} :
    t.fault? closed q = none ↔
      q.kind = t.kind ∧ q.unsupported? = none ∧ t.layout.idShape.misfit? q.ids = none ∧
        closed = false ∧ q.undefined? t.layout = none := by
  unfold fault?
  split
  next hkind => simp [hkind]
  next hkind =>
    have hkind : q.kind = t.kind := Decidable.not_not.1 hkind
    cases q.unsupported? with
    | some u => simp
    | none =>
      cases t.layout.idShape.misfit? q.ids with
      | some id => simp
      | none => cases closed <;> simp [hkind]

private theorem query_of_fault (h : t.Created session) {q : Query} {e : GraphError}
    (hfault : t.fault? session.closed q = some e) : t.query session q = .error e := by
  obtain ⟨hkind, rfl⟩ | ⟨hkind, ⟨u, hunsupported, rfl⟩ | ⟨hnone, hfault⟩⟩ :=
    fault?_eq_some_iff.1 hfault
  · rw [query, if_neg hkind]
  · rw [query, if_pos hkind, Planner.plan, Condition.conjunction,
      Condition.joinClauses_of_unsupported? none hunsupported]
    rfl
  · have hsupported := Query.unsupported?_eq_none_iff.1 hnone
    obtain ⟨id, hmisfit, rfl⟩ | ⟨hnone, ⟨hclosed, rfl⟩ | ⟨hopen, c, hc, rfl⟩⟩ := hfault
    · obtain ⟨condition, hcondition, _⟩ := Condition.conjunction_of_supported hsupported
      have hselections := Planner.selections_of_misfit? (p := t.planner) hmisfit
      rw [query, if_pos hkind, Planner.plan_eq _ hcondition, hselections]
      rfl
    · exact query_of_reads_fail hkind hsupported (IdShape.misfit?_eq_none_iff.1 hnone)
        fun _ _ _ _ => read_of_closed hclosed _
    · obtain ⟨rows, htable, _⟩ := h.exists_rows
      apply query_of_reads_fail hkind hsupported (IdShape.misfit?_eq_none_iff.1 hnone)
      intro clauses condition hidentity hexpressed
      apply read_of_undefined hopen htable rfl
      rw [find?_columns_selectOf hidentity hexpressed, hc]
      rfl

/-- The elements that one select for a query finds in a table. -/
def found (t : KindTable) (q : Query) (table : Table) (clauses : List Clause) : List Element :=
  t.layout.fold ((table.selectRecords (t.planner.selectOf q clauses)).map t.layout.ofRecord)

/-- A query without faults gives what its selects find, one after the other. -/
theorem query_of_no_fault (h : t.Created session) {q : Query}
    (hfault : t.fault? session.closed q = none) :
    ∃ rows condition selections,
      session.store.table t.name = .ok ⟨t.schema, rows⟩ ∧ Table.Intact ⟨t.schema, rows⟩ ∧
      Condition.Expressed (q.conditions.flatMap Condition.leaves) condition ∧
      t.planner.selections q.ids = .ok selections ∧
      t.query session q =
        .ok (selections.flatMap fun clauses => t.found q ⟨t.schema, rows⟩ (clauses ++ condition)) := by
  obtain ⟨hkind, hsupported, hfits, hopen, hcolumns⟩ := fault?_eq_none_iff.1 hfault
  obtain ⟨rows, htable, hintact⟩ := h.exists_rows
  obtain ⟨condition, selections, hexpressed, hselections, hquery⟩ :=
    query_of_selections session hkind (Query.unsupported?_eq_none_iff.1 hsupported)
      (IdShape.misfit?_eq_none_iff.1 hfits)
  have hread : ∀ clauses ∈ selections,
      t.read session (t.planner.selectOf q (clauses ++ condition.toList)) =
        .ok (t.found q ⟨t.schema, rows⟩ (clauses ++ condition.toList)) := by
    intro clauses hclauses
    have hidentity := Planner.column_of_mem_selections hselections hclauses
    have hdefined := find?_columns_selectOf hidentity hexpressed
    rw [hcolumns, Option.map_none, List.find?_eq_none, Select.columns, List.forall_mem_append,
      List.forall_mem_map, List.forall_mem_map] at hdefined
    apply read_eq_ok hopen htable rfl
    · intro r hr
      simpa using hdefined.1 r hr
    · intro o ho
      simpa using hdefined.2 o ho
  refine ⟨rows, condition.toList, selections, Store.table_eq_ok_iff.2 htable, hintact, hexpressed,
    hselections, ?_⟩
  rw [hquery, mapM_eq_ok_map hread]
  rfl

/-- A query on a created table fails for its first fault, and only for a fault. -/
theorem query_eq_error_iff (h : t.Created session) {q : Query} {e : GraphError} :
    t.query session q = .error e ↔ t.fault? session.closed q = some e := by
  refine ⟨fun hquery => ?_, query_of_fault h⟩
  cases hfault : t.fault? session.closed q with
  | some f =>
    rw [query_of_fault h hfault] at hquery
    exact congrArg some (Except.error.inj hquery)
  | none =>
    obtain ⟨rows, condition, selections, _, _, _, _, hfound⟩ := query_of_no_fault h hfault
    rw [hfound] at hquery
    cases hquery

theorem exists_query_iff (h : t.Created session) {q : Query} :
    (∃ elements, t.query session q = .ok elements) ↔ t.fault? session.closed q = none := by
  constructor
  · rintro ⟨elements, helements⟩
    by_contra hfault
    obtain ⟨e, he⟩ := Option.ne_none_iff_exists'.1 hfault
    rw [query_of_fault h he] at helements
    cases helements
  · intro hfault
    obtain ⟨rows, condition, selections, _, _, _, _, hfound⟩ := query_of_no_fault h hfault
    exact ⟨_, hfound⟩

/-- The exact outcome of a query on a created table. A query for another kind is refused; else one with
    an alternative or an inequality in a condition; else one with an identifier that does not fit, for the
    first such; else any, if the session is closed; else one that names a column that the table does not
    have; all others give elements. So no row is ever found undecodable, and whether and why a query fails
    does not depend on the rows. -/
theorem query_outcome (h : t.Created session) (q : Query) :
    (t.query session q = .error (.otherKind q.kind t.kind) ↔ q.kind ≠ t.kind) ∧
      (q.kind = t.kind →
        ((∃ u, t.query session q = .error (.unsupported u)) ↔ ∃ c ∈ q.conditions, ¬c.Supported) ∧
        ((∀ c ∈ q.conditions, c.Supported) →
          (∀ id expected actual,
            t.query session q = .error (.element (.invalidId id expected actual)) ↔
              q.ids.find? (fun id => ¬t.layout.idShape.Fits id) = some id ∧
                expected = t.layout.identity.length ∧ actual = id.parts.length) ∧
          ((∀ id ∈ q.ids, t.layout.idShape.Fits id) →
            (t.query session q = .error (.store .closed) ↔ session.closed = true) ∧
            (session.closed = false →
              ((∃ r, t.query session q = .error (.store (.invalid r))) ↔
                ∃ c ∈ q.columns, c ∉ t.layout.columns) ∧
              ((∃ elements, t.query session q = .ok elements) ↔
                ∀ c ∈ q.columns, c ∈ t.layout.columns))))) ∧
      (∀ name, t.query session q ≠ .error (.element (.unknownColumn name))) ∧
      ∀ other, t.Created other → other.closed = session.closed →
        ∀ e, t.query session q = .error e ↔ t.query other q = .error e := by
  have hsome {α : Type} {x : Option α} {p : Prop} (hp : x = none ↔ ¬p) : (∃ a, x = some a) ↔ p := by
    rw [← not_iff_not, ← hp]
    cases x <;> simp
  have hunsupported : (∃ u, q.unsupported? = some u) ↔ ∃ c ∈ q.conditions, ¬c.Supported :=
    hsome (by simp [Query.unsupported?_eq_none_iff])
  have hundefined : (∃ c, q.undefined? t.layout = some c) ↔ ∃ c ∈ q.columns, c ∉ t.layout.columns :=
    hsome (by simp [Query.undefined?_eq_none_iff])
  simp only [exists_query_iff h, fault?_eq_none_iff, ne_eq, query_eq_error_iff h]
  refine ⟨?_, fun hkind => ⟨?_, fun hsupported => ?_⟩, ?_, ?_⟩
  · simp [fault?_eq_some_iff]
  · simp [fault?_eq_some_iff, hkind, hunsupported]
  · have hsupported := Query.unsupported?_eq_none_iff.2 hsupported
    refine ⟨fun id expected actual => ?_, fun hfits => ?_⟩
    · simp [fault?_eq_some_iff, hkind, hsupported, IdShape.misfit?]
    · have hfits := IdShape.misfit?_eq_none_iff.2 hfits
      refine ⟨?_, fun hopen => ⟨?_, ?_⟩⟩
      · simp [fault?_eq_some_iff, hkind, hsupported, hfits]
      · simp [fault?_eq_some_iff, hkind, hsupported, hfits, hopen, hundefined]
      · simp [hkind, hsupported, hfits, hopen, Query.undefined?_eq_none_iff]
  · intro name
    simp [fault?_eq_some_iff]
  · intro other hother hclosed e
    rw [query_eq_error_iff hother, hclosed]

/-- The first of two identifiers that do not fit decides, before a column that vertices do not have. Without
    identifiers the column does. A query without faults gives those of the people it asks for who have a name
    behind `k`. -/
theorem query_outcome_people :
    let q : Query :=
      { kind := .vertex
        ids := [.composite ["person", "29"], .composite ["person"], .composite ["a", "b", "c"]]
        conditions := [.relation .name .eq (.text "vadas")] }
    let named : Query :=
      { kind := .vertex
        ids := [.composite ["person", "29"], .composite ["person", "x"], .composite ["person", "4"]]
        conditions := [.relation .propertyKey .eq (.text "name"), .relation .propertyValue .gt (.text "k")] }
    people.Created .people ∧
      people.query .people q = .error (.element (.invalidId (.composite ["person"]) 2 1)) ∧
      (∃ r, people.query .people { q with ids := [] } = .error (.store (.invalid r))) ∧
      people.query .people named = .ok [person "29" [("name", "vadas")], person "x" [("name", "lop")]] := by
  intro q named
  obtain ⟨_, houtcome, _⟩ := query_outcome created_people q
  obtain ⟨_, houtcome⟩ := houtcome rfl
  obtain ⟨hmisfit, _⟩ := houtcome (by decide)
  obtain ⟨_, houtcome', _⟩ := query_outcome created_people { q with ids := [] }
  obtain ⟨_, houtcome'⟩ := houtcome' rfl
  obtain ⟨_, hfitting⟩ := houtcome' (by decide)
  obtain ⟨_, hopen⟩ := hfitting (by simp)
  obtain ⟨hundefined, _⟩ := hopen rfl
  refine ⟨created_people, (hmisfit _ _ _).2 (by decide +kernel), hundefined.2 ?_, by decide +kernel⟩
  exact ⟨.name, by decide, by decide⟩

end KindTable

end GraphTables
