import GraphTables.Proofs.Query.Filtering
import Mathlib.Algebra.Group.Nat.Defs

namespace GraphTables

/-- Lists with the same first `n` members agree as far as `n` and the second list go. -/
theorem take_min_of_take_eq {α : Type} {part all : List α} {n : Nat}
    (h : part.take n = all.take n) :
    min n all.length ≤ part.length ∧
      part.take (min n all.length) = all.take (min n all.length) := by
  have hlength := congrArg List.length h
  rw [List.length_take, List.length_take] at hlength
  have htake := congrArg (List.take (min n all.length)) h
  have hmin : min (min n all.length) n = min n all.length := by omega
  rw [List.take_take, List.take_take, hmin] at htake
  exact ⟨by omega, htake⟩

namespace KindTable

variable {t : KindTable} {session : Session}

/-- No element of the table has more rows than the settings say. -/
def FansOutIn (t : KindTable) (table : Table) : Prop :=
  ∀ row ∈ table.rows.values, (table.rows.values.filter fun row' =>
    t.layout.identityTexts row' = t.layout.identityTexts row).length ≤ t.settings.fanOut.toNat

instance (t : KindTable) (table : Table) : Decidable (t.FansOutIn table) :=
  inferInstanceAs (Decidable (∀ row ∈ table.rows.values, _ ≤ _))

/-- A query without identifiers is one select. -/
theorem query_without_ids {q : Query} (hkind : q.kind = t.kind) (hids : q.ids = [])
    {condition : Option Clause} (hcondition : Condition.conjunction q.conditions = .ok condition) :
    t.query session q = t.read session (t.planner.selectOf q condition.toList) := by
  have hselections : t.planner.selections q.ids = .ok [[]] := by
    rw [hids]
    rfl
  rw [query_eq_mapM session hkind hcondition hselections, List.mapM_cons, List.nil_append]
  cases t.read session (t.planner.selectOf q condition.toList) with
  | error e => rfl
  | ok elements => simp [bind, Except.bind, pure, Except.pure, Except.map]

/-- The rows of one element among those selected are no more than it may have. -/
theorem runs_bounded (hl : t.layout.PropertyRows) {table : Table} (hfan : t.FansOutIn table)
    {s : Select} {runs : List (Element × List Element)}
    (hruns : CutInRuns Element.identity ((table.selectRecords s).map t.layout.ofRecord) runs) :
    ∀ r ∈ runs, (r.1 :: r.2).length ≤ t.settings.fanOut.toNat := by
  intro r hr
  have hmem : r.1 ∈ (table.selectRecords s).map t.layout.ofRecord := hruns.mem_of_mem hr
  obtain ⟨row, hselect, hrow⟩ := List.mem_map.1 hmem
  have hselected : (r.1 :: r.2).length ≤ ((table.selectRecords s).filter fun row' =>
      t.layout.identityTexts row' = t.layout.identityTexts row).length := by
    have hlength := hruns.length_le hr
    rw [List.filter_map, List.length_map, ← hrow] at hlength
    rw [← hrow]
    simpa only [Function.comp_def, Layout.identity_ofRecord_eq_iff hl] using hlength
  have hstored := (table.selectRecords_subperm s).filter fun row' =>
    t.layout.identityTexts row' = t.layout.identityTexts row
  have hrows := hfan row ((table.selectRecords_subperm s).subset hselect)
  exact hselected.trans (hstored.length_le.trans hrows)

/-- A limit that leaves room for all rows of the first elements gives these, whole. -/
theorem fold_take (hl : t.layout.PropertyRows) {rows : SortedMap (List String) Record}
    (hintact : Table.Intact ⟨t.schema, rows⟩) (hfan : t.FansOutIn ⟨t.schema, rows⟩) {s : Select}
    (horderings : ∀ o ∈ s.orderings, ∃ c ∈ t.layout.elementColumns, o.column = c.text)
    {n m : Nat} (hm : n * t.settings.fanOut.toNat ≤ m) :
    (t.layout.fold (((Table.selectRecords ⟨t.schema, rows⟩ s).take m).map t.layout.ofRecord)).take n =
      (t.layout.fold ((Table.selectRecords ⟨t.schema, rows⟩ s).map t.layout.ofRecord)).take n := by
  obtain ⟨runs, hruns⟩ := exists_cutInRuns (grouped_ofRecord hintact hl.spansRows horderings)
  rw [Layout.fold, if_pos hl.spansRows, Layout.fold, if_pos hl.spansRows, List.map_take]
  exact Layout.foldRuns_take hruns (runs_bounded hl hfan hruns) hm

/-- If no vertex or edge of a created table has more rows than the settings say, a limit never drops or
    cuts an element: as far as the limit goes, the query gives the same elements with it as without it.
    Conditions may name any columns of the table, orders those of the identity. On an open session both
    queries give elements. -/
theorem query_limit {t : KindTable} {session : Session} (hkind : t.kind = .vertex ∨ t.kind = .edge)
    (h : t.Created session)
    (hfan : ∀ table, session.store.table t.name = .ok table → t.FansOutIn table) {q : Query}
    (hids : q.ids = []) (hsupported : ∀ c ∈ q.conditions, c.Supported)
    (hleaves : ∀ leaf ∈ q.conditions.flatMap Condition.leaves, leaf.column ∈ t.layout.columns)
    (horders : ∀ o ∈ q.orders, o.1 ∈ t.layout.identity) (hlimit : q.limit = none) (n : UInt64)
    (hn : n.toNat * t.settings.fanOut.toNat < 2 ^ 64) :
    (session.closed = false → q.kind = t.kind → ∃ all, t.query session q = .ok all) ∧
      ∀ all, t.query session q = .ok all →
        ∃ part, t.query session { q with limit := some n } = .ok part ∧
          min n.toNat all.length ≤ part.length ∧
          part.take (min n.toNat all.length) = all.take (min n.toNat all.length) := by
  have hl : t.layout.PropertyRows := Kind.propertyRows_layout hkind
  obtain ⟨condition, hcondition, hexpressed⟩ := Condition.conjunction_of_supported hsupported
  obtain ⟨rows, htable, hintact⟩ := h.exists_rows
  have hfan := hfan _ (Store.table_eq_ok_iff.2 htable)
  let s := t.planner.selectOf q condition.toList
  have hunlimited : s.limit = none := congrArg (Option.map _) hlimit
  have horderings : ∀ o ∈ s.orderings, ∃ c ∈ t.layout.elementColumns, o.column = c.text := by
    rw [Layout.elementColumns, if_pos hl.spansRows]
    exact orderings_of_orders horders _
  have hsorted : ∀ o ∈ s.orderings, o.column ∈ t.schema.columns := fun o ho =>
    columns_defined t.elementColumns_subset (horderings o ho)
  have hclauses : ∀ r ∈ s.restrictions, r.column ∈ t.schema.columns :=
    restrictions_defined_of_leaves hexpressed hleaves
  constructor
  · intro hopen hqueried
    rw [query_without_ids hqueried hids hcondition]
    exact ⟨_, read_eq_ok hopen htable rfl hclauses hsorted⟩
  · intro all hall
    have hqueried : q.kind = t.kind := by
      by_contra hother
      rw [query, if_neg hother] at hall
      cases hall
    have hopen : session.closed = false := by
      by_contra hclosed
      rw [query_without_ids hqueried hids hcondition, read_of_closed (by simpa using hclosed)] at hall
      cases hall
    have hread := read_eq_ok hopen htable (s := s) rfl hclauses hsorted
    rw [query_without_ids hqueried hids hcondition, hread] at hall
    obtain rfl := Except.ok.inj hall
    have hlimited := read_eq_ok hopen htable
      (s := { s with limit := some (scaledLimit t.settings.fanOut n) }) rfl hclauses hsorted
    have hroom : n.toNat * t.settings.fanOut.toNat ≤ (scaledLimit t.settings.fanOut n).toNat := by
      have hsize : UInt64.size = 2 ^ 64 := rfl
      rw [toNat_scaledLimit]
      omega
    rw [Table.selectRecords_limit _ hunlimited] at hlimited
    have htake := fold_take hl hintact hfan horderings hroom
    refine ⟨_, ?_, take_min_of_take_eq htake⟩
    rw [query_without_ids (q := { q with limit := some n }) hqueried hids hcondition]
    exact hlimited

/-- The first two of three people, each with both properties. -/
theorem query_limit_people :
    let q : Query := { kind := .vertex, orders := [(.primaryValues, .desc)] }
    let person (number city name : String) : Element :=
      ⟨.vertex, .ofList [(.label, "person"), (.primaryValues, number)],
        [⟨.propertyKey, "city", .propertyValue, city⟩, ⟨.propertyKey, "name", .propertyValue, name⟩]⟩
    people.Created .people ∧ people.query .people q =
        .ok [person "x" "Riga" "lop", person "4" "Bonn" "josh", person "29" "Oslo" "vadas"] ∧
      ∃ part, people.query .people { q with limit := some 2 } = .ok part ∧ 2 ≤ part.length ∧
        part.take 2 = [person "x" "Riga" "lop", person "4" "Bonn" "josh"] := by
  intro q person
  have hfan : ∀ table, Session.people.store.table people.name = .ok table → people.FansOutIn table := by
    intro table htable
    rw [Store.table_eq_ok_iff, lowercase_name_people] at htable
    cases htable
    decide +kernel
  have hall : people.query .people q =
      .ok [person "x" "Riga" "lop", person "4" "Bonn" "josh", person "29" "Oslo" "vadas"] := by
    decide +kernel
  obtain ⟨_, hlimit⟩ := query_limit (.inl rfl) created_people hfan (q := q) rfl (by simp [q])
    (by simp [q]) (by decide) rfl 2 (by decide)
  obtain ⟨part, hpart, hlength, htake⟩ := hlimit _ hall
  exact ⟨created_people, hall, part, hpart, hlength, htake⟩

end KindTable

end GraphTables
