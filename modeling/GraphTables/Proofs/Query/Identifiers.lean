import GraphTables.Proofs.Query.Distinctness
import Mathlib.Data.List.Nodup

namespace GraphTables

/-- The query for other identifiers. -/
def Query.forIds (q : Query) (ids : List ElementId) : Query := { q with ids }

/-- Elements that are identified by one column take one row each, under the text of that column. -/
theorem Kind.single_identity {k : Kind} (h : k.layout.identity.length = 1) :
    ∃ c ∈ k.layout.elementColumns, k.layout.identity = [c] ∧ k.layout.primaryKey = [c] ∧
      k.layout.spansRows = false := by
  revert h
  cases k <;> decide

namespace KindTable

variable {t : KindTable} {session : Session} {q : Query} {ids ids' : List ElementId}

/-- What identifiers a query asks for does not matter for its kind and its conditions: they are refused, or
    the selects for the identifiers are read. -/
theorem query_forIds (session : Session) (q : Query) :
    (∃ e, ∀ ids, t.query session (q.forIds ids) = .error e) ∨
      ∃ condition : Option Clause, ∀ ids selections, t.planner.selections ids = .ok selections →
        t.query session (q.forIds ids) = (selections.mapM fun clauses =>
          t.read session (t.planner.selectOf q (clauses ++ condition.toList))).map List.flatten := by
  by_cases hkind : q.kind = t.kind
  · cases hcondition : Condition.conjunction q.conditions with
    | error u =>
      refine .inl ⟨.unsupported u, fun ids => ?_⟩
      have hqueried : (q.forIds ids).kind = t.kind := hkind
      have hconjunction : Condition.conjunction (q.forIds ids).conditions = .error u := hcondition
      rw [query, if_pos hqueried, Planner.plan, hconjunction]
      rfl
    | ok condition =>
      exact .inr ⟨condition, fun ids selections hselections =>
        query_eq_mapM session (q := q.forIds ids) hkind hcondition hselections⟩
  · refine .inl ⟨.otherKind q.kind t.kind, fun ids => ?_⟩
    have hother : ¬(q.forIds ids).kind = t.kind := hkind
    rw [query, if_neg hother]
    rfl

/-- A query for the identifiers of two lists gives what the queries for the one and for the other give. It
    fails if one of them does. -/
theorem query_append (session : Session) (q : Query) (hseveral : t.layout.identity.length ≠ 1)
    (hne : ids ≠ []) (hne' : ids' ≠ []) (hfits : ∀ id ∈ ids ++ ids', t.layout.idShape.Fits id) :
    t.query session (q.forIds (ids ++ ids')) = (do
      let elements ← t.query session (q.forIds ids)
      let elements' ← t.query session (q.forIds ids')
      .ok (elements ++ elements')) := by
  rcases t.query_forIds session q with ⟨e, hrefused⟩ | ⟨condition, hread⟩
  · rw [hrefused, hrefused, hrefused]
    rfl
  · obtain ⟨hleft, hright⟩ := List.forall_mem_append.1 hfits
    have hall : ids ++ ids' ≠ [] := List.append_ne_nil_of_left_ne_nil hne ids'
    rw [hread _ _ (Planner.selections_of_fits (p := t.planner) hseveral hall hfits),
      hread _ _ (Planner.selections_of_fits (p := t.planner) hseveral hne hleft),
      hread _ _ (Planner.selections_of_fits (p := t.planner) hseveral hne' hright), List.map_append, mapM_flatten_append]

/-- The clauses that pick the elements of identifiers in a single column. -/
def idsClauses (c : Column) (ids : List ElementId) : List Clause :=
  [.leaf (.oneOf c.text (ids.map fun id => .text id.text))]

/-- Neither the order of identifiers in a single column matters nor how often one is repeated. -/
theorem query_congr_ids (session : Session) (q : Query) (hsingle : t.layout.identity.length = 1)
    (hne : ids ≠ []) (hne' : ids' ≠ []) (hsame : ∀ id, id ∈ ids' ↔ id ∈ ids) :
    t.query session (q.forIds ids') = t.query session (q.forIds ids) := by
  obtain ⟨c, hidentity⟩ := List.length_eq_one_iff.1 hsingle
  rcases t.query_forIds session q with ⟨e, hrefused⟩ | ⟨condition, hread⟩
  · rw [hrefused, hrefused]
  · -- Both selects name the same columns, and a row satisfies the one if it satisfies the other.
    have hselect (table : Table) :
        table.select (t.planner.selectOf q (idsClauses c ids' ++ condition.toList)) =
          table.select (t.planner.selectOf q (idsClauses c ids ++ condition.toList)) := by
      refine table.select_congr ?_ (fun row => ?_) rfl rfl
      · simp [Select.restrictions, Planner.selectOf, idsClauses, Clause.restrictionsOf,
          Clause.restrictions, Restriction.column]
      · have hclauses : Table.satisfies (idsClauses c ids') row =
            Table.satisfies (idsClauses c ids) row := by
          rw [Bool.eq_iff_iff, idsClauses, idsClauses, Table.satisfies_oneOf_iff,
            Table.satisfies_oneOf_iff]
          simp only [hsame]
        simp only [Planner.selectOf, Table.satisfies_append, hclauses]
    have hone : t.read session (t.planner.selectOf q (idsClauses c ids' ++ condition.toList)) =
        t.read session (t.planner.selectOf q (idsClauses c ids ++ condition.toList)) := by
      rw [read, read, Session.select_congr session hselect rfl]
    have hids {ids : List ElementId} (hne : ids ≠ []) :=
      hread ids [idsClauses c ids] (Planner.selections_of_single hidentity hne)
    simp only [hids hne', hids hne, List.mapM_cons, hone]

/-- The rows of a table with a single key column differ in it. -/
theorem nodup_texts {rows : SortedMap (List String) Record} (hintact : Table.Intact ⟨t.schema, rows⟩)
    {c : Column} (hkey : t.layout.primaryKey = [c]) :
    (rows.values.map fun row => row.get? c.text).Nodup := by
  rw [List.Nodup, List.pairwise_map]
  apply (Layout.pairwise_keyed (t := ⟨t.schema, rows⟩) (keyed_of_intact hintact)).imp
  rintro a b ⟨key, key', ha, hb, hlt⟩ heq
  rw [hkey, List.map_singleton] at ha hb
  obtain rfl : key = key' := (List.map_inj_right fun _ _ => Option.some.inj).1 (by rw [← ha, heq, hb])
  have hself : compare key key = .eq := Std.ReflCmp.compare_self
  rw [hself] at hlt
  cases hlt

private theorem fault?_forIds {closed : Bool} (hfits : ∀ id ∈ ids, t.layout.idShape.Fits id) :
    t.fault? closed (q.forIds ids) = t.fault? closed (q.forIds []) := by
  have hfit := IdShape.misfit?_eq_none_iff.2 hfits
  unfold fault? Query.forIds
  dsimp only
  rw [hfit]
  rfl

/-- What a select without a limit finds of elements that take one row each. -/
theorem mem_found_iff (hspans : t.layout.spansRows = false) (hlimit : q.limit = none) {table : Table}
    {clauses : List Clause} {e : Element} :
    e ∈ t.found q table clauses ↔ ∃ row ∈ table.rows.values, Table.satisfies clauses row = true ∧
      t.layout.ofRecord row = e := by
  have hnotSpanning : ¬t.layout.spansRows = true := by simp [hspans]
  have hunlimited : (t.planner.selectOf q clauses).limit = none := congrArg (Option.map _) hlimit
  rw [found, Layout.fold, if_neg hnotSpanning, List.mem_map]
  constructor
  · rintro ⟨row, hrow, he⟩
    obtain ⟨hstored, hsatisfies⟩ := Table.mem_of_mem_selectRecords hrow
    exact ⟨row, hstored, hsatisfies, he⟩
  · rintro ⟨row, hstored, hsatisfies, he⟩
    exact ⟨row, table.mem_selectRecords hunlimited hstored hsatisfies, he⟩

/-- It finds each of them once, if a column of them tells the rows apart. -/
theorem nodup_found_of_texts (hspans : t.layout.spansRows = false) (hlimit : q.limit = none)
    {table : Table} {c : Column} (hc : c ∈ t.layout.elementColumns)
    (htexts : (table.rows.values.map fun row => row.get? c.text).Nodup) (clauses : List Clause) :
    (t.found q table clauses).Nodup := by
  have hnotSpanning : ¬t.layout.spansRows = true := by simp [hspans]
  have hunlimited : (t.planner.selectOf q clauses).limit = none := congrArg (Option.map _) hlimit
  have htext : (fun e : Element => e.columns.get? c) ∘ t.layout.ofRecord = fun row => row.get? c.text := by
    funext row
    exact t.kind.get?_ofRecord row hc
  rw [found, Layout.fold, if_neg hnotSpanning, Table.selectRecords_unlimited _ hunlimited]
  apply List.Nodup.of_map fun e : Element => e.columns.get? c
  rw [List.map_map, htext, ((stableSort_perm _ _).map _).nodup_iff]
  exact htexts.sublist (List.filter_sublist.map _)

/-- A query for identifiers in a single column finds each row that it asks for and accepts, once. -/
theorem query_of_single (h : t.Created session) (hsingle : t.layout.identity.length = 1)
    (hlimit : q.limit = none) (hfault : t.fault? session.closed (q.forIds []) = none) :
    ∃ (rows : List Record) (c : Column), ∀ ids, ids ≠ [] → ∃ elements,
      t.query session (q.forIds ids) = .ok elements ∧ elements.Nodup ∧
        ∀ e, e ∈ elements ↔ ∃ row ∈ rows, (∃ id ∈ ids, row.get? c.text = some id.text) ∧
          q.accepts row = true ∧ t.layout.ofRecord row = e := by
  obtain ⟨c, hc, hidentity, hkey, hspans⟩ := t.kind.single_identity hsingle
  obtain ⟨rows, htable, hintact⟩ := h.exists_rows
  refine ⟨rows.values, c, fun ids hne => ?_⟩
  have hfits : ∀ id ∈ ids, t.layout.idShape.Fits id := fun id _ => .inl hsingle
  obtain ⟨rows', condition, selections, htable', _, hexpressed, hselections, hquery⟩ :=
    query_of_no_fault h ((fault?_forIds hfits).trans hfault)
  rw [Store.table_eq_ok_iff, htable] at htable'
  cases htable'
  obtain rfl : [idsClauses c ids] = selections :=
    Except.ok.inj ((Planner.selections_of_single hidentity hne).symm.trans hselections)
  rw [List.flatMap_singleton] at hquery
  have hnodup := nodup_texts hintact hkey
  refine ⟨_, hquery, nodup_found_of_texts (q := q.forIds ids) hspans hlimit hc hnodup _, fun e => ?_⟩
  rw [mem_found_iff (q := q.forIds ids) hspans hlimit]
  simp only [satisfies_select hexpressed, Bool.and_eq_true, idsClauses, Table.satisfies_oneOf_iff,
    and_assoc]
  rfl

/-- Queries for identifiers agree with queries for each of them, whatever their conditions and orders.

    * By several identity columns, with or without a limit: a query for the identifiers of two lists gives
      what the query for the one gives and then what the query for the other does.
    * By a single identity column, without a limit: a query for identifiers gives exactly the elements that
      queries for the single identifiers give, each once. Permuting or repeating identifiers changes
      nothing.

    On an open session a query with supported conditions, whose columns are all columns of the table, gives
    elements for any fitting identifiers. -/
theorem query_for_each_id (h : t.Created session) (q : Query) :
    (t.layout.identity.length ≠ 1 → ∀ ids ids', ids ≠ [] → ids' ≠ [] →
        (∀ id ∈ ids ++ ids', t.layout.idShape.Fits id) →
        t.query session (q.forIds (ids ++ ids')) = (do
          let elements ← t.query session (q.forIds ids)
          let elements' ← t.query session (q.forIds ids')
          .ok (elements ++ elements'))) ∧
      (t.layout.identity.length = 1 → q.limit = none → ∀ ids, ids ≠ [] →
        (∀ elements, t.query session (q.forIds ids) = .ok elements → elements.Nodup ∧
          ∀ e, e ∈ elements ↔
            ∃ id ∈ ids, ∃ found, t.query session (q.forIds [id]) = .ok found ∧ e ∈ found) ∧
        ∀ ids', ids' ≠ [] → (∀ id, id ∈ ids' ↔ id ∈ ids) →
          t.query session (q.forIds ids') = t.query session (q.forIds ids)) ∧
      (session.closed = false → q.kind = t.kind → (∀ c ∈ q.conditions, c.Supported) →
        (∀ c ∈ q.columns, c ∈ t.layout.columns) → ∀ ids, (∀ id ∈ ids, t.layout.idShape.Fits id) →
        ∃ elements, t.query session (q.forIds ids) = .ok elements) := by
  refine ⟨fun hseveral ids ids' hne hne' hfits => query_append session q hseveral hne hne' hfits,
    fun hsingle hlimit ids hne => ⟨fun elements helements => ?_, fun ids' hne' hsame =>
      query_congr_ids session q hsingle hne hne' hsame⟩, ?_⟩
  · have hfits : ∀ id ∈ ids, t.layout.idShape.Fits id := fun id _ => .inl hsingle
    have hfault := (exists_query_iff h).1 ⟨elements, helements⟩
    rw [fault?_forIds hfits] at hfault
    obtain ⟨rows, c, hfound⟩ := query_of_single h hsingle hlimit hfault
    obtain ⟨all, hall, hnodup, hmem⟩ := hfound ids hne
    obtain rfl := Except.ok.inj (helements.symm.trans hall)
    refine ⟨hnodup, fun e => ?_⟩
    rw [hmem]
    constructor
    · rintro ⟨row, hrow, ⟨id, hid, htext⟩, haccepts, he⟩
      obtain ⟨found, hquery, _, hone⟩ := hfound [id] (List.cons_ne_nil _ _)
      exact ⟨id, hid, found, hquery, (hone e).2 ⟨row, hrow, ⟨id, by simp, htext⟩, haccepts, he⟩⟩
    · rintro ⟨id, hid, found, hquery, he⟩
      obtain ⟨found', hquery', _, hone⟩ := hfound [id] (List.cons_ne_nil _ _)
      obtain rfl := Except.ok.inj (hquery.symm.trans hquery')
      obtain ⟨row, hrow, ⟨id', hid', htext⟩, haccepts, he⟩ := (hone e).1 he
      obtain rfl := List.mem_singleton.1 hid'
      exact ⟨row, hrow, ⟨id', hid, htext⟩, haccepts, he⟩
  · intro hopen hkind hsupported hcolumns ids hfits
    exact (exists_query_iff h).2 (fault?_eq_none_iff.2 ⟨hkind,
      Query.unsupported?_eq_none_iff.2 hsupported, IdShape.misfit?_eq_none_iff.2 hfits, hopen,
      Query.undefined?_eq_none_iff.2 hcolumns⟩)

/-- A table of property keys. -/
def propertyKeys : KindTable := { kind := .propertyKey }

end KindTable

/-- A session with two property keys. -/
def Session.propertyKeys : Session where
  store.tables := SortedMap.empty.insert "property_keys" ⟨KindTable.propertyKeys.schema,
    .ofList [(["age"], .ofList [("name", "age"), ("data_type", "INT")]),
      (["nick"], .ofList [("name", "nick"), ("data_type", "TEXT")])]⟩

namespace KindTable

private theorem created_propertyKeys : propertyKeys.Created .propertyKeys := by
  have hplain : propertyKeys.settings.PlainPrefix := by decide
  have hname : Text.lowercase propertyKeys.name = "property_keys" := by decide +kernel
  have hinit := init_new hplain
  have hpresent : ((propertyKeys.init {}).1.store.schema? propertyKeys.name).isSome := by
    rw [hinit, Store.schema?, SortedMap.get?_insert, if_pos rfl]
    rfl
  have hcreated : propertyKeys.Created (propertyKeys.init {}).1 := .init .new rfl rfl rfl hpresent
  have hexecute : (propertyKeys.init {}).1.execute (.batch
      [.insert ((Insert.into "property_keys").setAll [("name", .text "age"), ("data_type", .text "INT")]),
        .insert ((Insert.into "property_keys").setAll
          [("name", .text "nick"), ("data_type", .text "TEXT")])]) = .ok (.propertyKeys, {}) := by
    rw [hinit, hname]
    decide +kernel
  exact hcreated.execute hexecute (by decide +kernel)

/-- Two people are found one after the other, each by a select whose limit leaves it whole. Two property keys
    are found in the order of their types, alike in whatever order they are asked for, and once, though one of
    them is asked for twice. -/
theorem query_for_each_id_people_and_keys :
    let vadas : ElementId := .composite ["person", "29"]
    let josh : ElementId := .composite ["person", "4"]
    let someone : Query := { kind := .vertex, limit := some 1 }
    let sorted : Query := { kind := .propertyKey, orders := [(.dataType, .desc)] }
    let age : ElementId := ⟨"age"⟩
    let nick : ElementId := ⟨"nick"⟩
    let key (name dataType : String) : Element :=
      ⟨.propertyKey, .ofList [(.name, name), (.dataType, dataType)], []⟩
    let keys := [key "nick" "TEXT", key "age" "INT"]
    (people.Created .people ∧
      people.query .people (someone.forIds [josh, vadas]) = (do
        let first ← people.query .people (someone.forIds [josh])
        let second ← people.query .people (someone.forIds [vadas])
        .ok (first ++ second)) ∧
      people.query .people (someone.forIds [josh, vadas]) =
        .ok [person "4" [("city", "Bonn"), ("name", "josh")],
          person "29" [("city", "Oslo"), ("name", "vadas")]]) ∧
      propertyKeys.Created .propertyKeys ∧
        propertyKeys.query .propertyKeys (sorted.forIds [age, nick, age]) = .ok keys ∧ keys.Nodup ∧
        propertyKeys.query .propertyKeys (sorted.forIds [nick, age]) = .ok keys := by
  intro vadas josh someone sorted age nick key keys
  have hsame : ∀ id, id ∈ [nick, age] ↔ id ∈ [age, nick, age] := by
    intro id
    simp only [List.mem_cons, List.not_mem_nil, or_false]
    tauto
  obtain ⟨hseveral, _⟩ := query_for_each_id created_people someone
  have happend := hseveral (by decide) [josh] [vadas] (by simp) (by simp) (by decide +kernel)
  have hpeople : people.query .people (someone.forIds [josh, vadas]) =
      .ok [person "4" [("city", "Bonn"), ("name", "josh")],
        person "29" [("city", "Oslo"), ("name", "vadas")]] := by
    decide +kernel
  obtain ⟨_, hsingle, _⟩ := query_for_each_id created_propertyKeys sorted
  obtain ⟨hfound, hcongr⟩ := hsingle rfl rfl [age, nick, age] (List.cons_ne_nil _ _)
  have hkeys : propertyKeys.query .propertyKeys (sorted.forIds [age, nick, age]) = .ok keys := by
    decide +kernel
  obtain ⟨hnodup, _⟩ := hfound keys hkeys
  have hpermuted := (hcongr [nick, age] (List.cons_ne_nil _ _) hsame).trans hkeys
  exact ⟨⟨created_people, happend, hpeople⟩, created_propertyKeys, hkeys, hnodup, hpermuted⟩

end KindTable

end GraphTables
