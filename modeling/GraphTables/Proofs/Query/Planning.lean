import GraphTables.Proofs.Query.Outcome
import GraphTables.Proofs.Query.Translation
import Mathlib.Algebra.Group.Nat.Defs

namespace GraphTables

namespace IdShape

variable {shape : IdShape}

private theorem fits_iff_of_several (hseveral : shape.columns.length ≠ 1) {id : ElementId} :
    shape.Fits id ↔ id.parts.length = shape.columns.length :=
  or_iff_right hseveral

private theorem misfit?_eq_some_iff {ids : List ElementId} {id : ElementId} :
    shape.misfit? ids = some id ↔ shape.columns.length ≠ 1 ∧
      ids.find? (fun id => id.parts.length ≠ shape.columns.length) = some id := by
  by_cases hone : shape.columns.length = 1
  · have hnone : shape.misfit? ids = none := misfit?_eq_none_iff.2 fun _ _ => .inl hone
    simp [hnone, hone]
  · simp only [misfit?, fits_iff_of_several hone, ne_eq, hone, not_false_eq_true, true_and]

end IdShape

namespace Planner

variable {p : Planner} {q : Query}

/-- A condition that the store cannot express leaves a query without a plan. -/
theorem plan_eq_unsupported_iff {u : Unsupported} :
    p.plan q = .error (.unsupported u) ↔ Condition.conjunction q.conditions = .error u := by
  cases hcondition : Condition.conjunction q.conditions with
  | error v =>
    have hplan : p.plan q = .error (.unsupported v) := by
      rw [plan, hcondition]
      rfl
    simp [hplan]
  | ok condition =>
    rw [p.plan_eq hcondition]
    cases p.selections q.ids <;> simp [mapError_ok, mapError_error, Except.map]

/-- A query with supported conditions fails for the first identifier that does not fit. -/
theorem plan_eq_element_iff (hsupported : ∀ c ∈ q.conditions, c.Supported) {e : ElementError} :
    p.plan q = .error (.element e) ↔ ∃ id, p.shape.misfit? q.ids = some id ∧
      e = .invalidId id p.shape.columns.length id.parts.length := by
  obtain ⟨condition, hcondition, _⟩ := Condition.conjunction_of_supported hsupported
  rw [p.plan_eq hcondition]
  cases hmisfit : p.shape.misfit? q.ids with
  | some id =>
    rw [selections_of_misfit? hmisfit, mapError_error]
    simp [Except.map, eq_comm]
  | none =>
    obtain ⟨selections, hselections⟩ := p.exists_selections fun id hid =>
      IdShape.exists_values_of_fits (IdShape.misfit?_eq_none_iff.1 hmisfit id hid)
    rw [hselections, mapError_ok]
    simp [Except.map]

/-- The store cannot express some part of a condition exactly if there is a first such part. -/
theorem exists_unsupported_iff :
    (∃ u, p.plan q = .error (.unsupported u)) ↔
      ∃ c ∈ q.conditions, ∃ node ∈ c.nodes, node.isRefused = true := by
  constructor
  · rintro ⟨u, hplan⟩
    have hfirst := Condition.conjunction_eq_error_iff.1 (plan_eq_unsupported_iff.1 hplan)
    obtain ⟨c, hc, hnode⟩ := List.mem_flatMap.1 (List.mem_of_find?_eq_some hfirst)
    exact ⟨c, hc, u.node, hnode, List.find?_some hfirst⟩
  · rintro ⟨c, hc, node, hnode, hrefused⟩
    by_contra hnone
    have hsupported : ∀ c ∈ q.conditions, c.Supported := by
      rw [← Query.unsupported?_eq_none_iff]
      by_contra hsome
      obtain ⟨u, hu⟩ := Option.ne_none_iff_exists'.1 hsome
      exact hnone ⟨u, plan_eq_unsupported_iff.2 (Condition.joinClauses_of_unsupported? none hu)⟩
    have hnot := Condition.supported_iff_nodes.1 (hsupported c hc) node hnode
    rw [hrefused] at hnot
    cases hnot

/-- The selects for supported conditions and identifiers that fit. Behind the restrictions of its selection,
    each has those of the comparisons; apart from the restrictions, they are alike. -/
theorem plan_of_fits (hsupported : ∀ c ∈ q.conditions, c.Supported)
    (hfits : ∀ id ∈ q.ids, p.shape.Fits id) :
    ∃ selects selections condition, p.plan q = .ok selects ∧ p.selections q.ids = .ok selections ∧
      List.Forall₂ (fun leaf r => leaf.restriction? = some r) (q.conditions.flatMap Condition.leaves)
        condition ∧
      (selects.map Select.restrictions =
        selections.map fun clauses => Clause.restrictionsOf clauses ++ condition) ∧
      ∀ s ∈ selects, s.table = p.table ∧ s.orderings = (q.orders.map fun o => ⟨o.1.text, o.2⟩) ∧
        s.limit = q.limit.map (scaledLimit p.fanOut) := by
  obtain ⟨selections, hselections⟩ := p.exists_selections fun id hid =>
    IdShape.exists_values_of_fits (hfits id hid)
  have hcomparisons : ∀ leaf ∈ q.conditions.flatMap Condition.leaves, leaf.op ≠ .neq := by
    intro leaf hleaf
    obtain ⟨c, hc, hleaf⟩ := List.mem_flatMap.1 hleaf
    exact Condition.op_ne_neq_of_mem_leaves (hsupported c hc) hleaf
  have hplan := p.plan_eq (Condition.conjunction_eq_flat hsupported)
  rw [hselections, mapError_ok] at hplan
  refine ⟨_, selections, _, hplan, hselections, Leaf.forall₂_restriction? hcomparisons, ?_, ?_⟩
  · rw [List.map_map]
    apply List.map_congr_left
    intro clauses _
    rw [Function.comp_apply, Select.restrictions, selectOf, Clause.restrictionsOf_append,
      Clause.restrictionsOf_flat]
  · rw [List.forall_mem_map]
    exact fun clauses _ => ⟨rfl, rfl, rfl⟩

/-- The exact plan of a query, for any table, any identity columns and any fan-out.

    * There is no plan if a condition has an alternative or an inequality in it, whatever the identifiers
      are. The first such part of the conditions is refused.
    * Else, there is none if the number of identity columns is not one and some identifier has another
      number of parts. The first such identifier is refused.
    * Else, there is one select, restricted by the comparisons of the conditions alone, if no identifiers
      are given; one for all identifiers, if there is one identity column; and otherwise one for each, in
      their order and as often as they are given, with an equality for each column. The comparisons follow
      in all of them, in their order. Every select is from the table, in the order asked for, and has a
      limit exactly if the query has one: so many times larger, as far as 64 bits go.
    * The offset has no effect. -/
theorem plan_outcome (p : Planner) (q : Query) :
    ((∃ u, p.plan q = .error (.unsupported u)) ↔
        ∃ c ∈ q.conditions, ∃ node ∈ c.nodes, node.isRefused = true) ∧
      (∀ u, p.plan q = .error (.unsupported u) ↔
        (q.conditions.flatMap Condition.nodes).find? Condition.isRefused = some u.node) ∧
      ((∀ c ∈ q.conditions, ∀ node ∈ c.nodes, node.isRefused = false) →
        (∀ e, p.plan q = .error (.element e) ↔ p.shape.columns.length ≠ 1 ∧
          ∃ id, q.ids.find? (fun id => id.parts.length ≠ p.shape.columns.length) = some id ∧
            e = .invalidId id p.shape.columns.length id.parts.length) ∧
        ((p.shape.columns.length = 1 ∨ ∀ id ∈ q.ids, id.parts.length = p.shape.columns.length) →
          ∃ selects condition, p.plan q = .ok selects ∧
            List.Forall₂ (fun leaf r => leaf.restriction? = some r)
              (q.conditions.flatMap Condition.leaves) condition ∧
            (q.ids = [] → selects.map Select.restrictions = [condition]) ∧
            (q.ids ≠ [] → ∀ column, p.shape.columns = [column] → selects.map Select.restrictions =
              [.oneOf column.text (q.ids.map fun id => .text id.text) :: condition]) ∧
            (q.ids ≠ [] → p.shape.columns.length ≠ 1 →
              selects.map Select.restrictions = q.ids.map fun id =>
                (p.shape.columns.zip id.parts).map (fun e => .compare e.1.text .eq (.text e.2)) ++
                  condition) ∧
            ∀ s ∈ selects, s.table = p.table ∧
              s.orderings = (q.orders.map fun o => ⟨o.1.text, o.2⟩) ∧
              s.limit.map UInt64.toNat =
                q.limit.map fun n => min (n.toNat * p.fanOut.toNat) (2 ^ 64 - 1))) ∧
      ∀ offset, p.plan { q with offset } = p.plan q := by
  refine ⟨exists_unsupported_iff,
    fun u => plan_eq_unsupported_iff.trans Condition.conjunction_eq_error_iff,
    fun hnodes => ?_, fun offset => rfl⟩
  have hsupported : ∀ c ∈ q.conditions, c.Supported := fun c hc =>
    Condition.supported_iff_nodes.2 (hnodes c hc)
  constructor
  · intro e
    simp only [plan_eq_element_iff hsupported, IdShape.misfit?_eq_some_iff, and_assoc, exists_and_left]
  · intro hparts
    have hfits : ∀ id ∈ q.ids, p.shape.Fits id := fun id hid => hparts.imp_right fun h => h id hid
    obtain ⟨selects, selections, condition, hplan, hselections, hcondition, hrestrictions, halike⟩ :=
      plan_of_fits hsupported hfits
    refine ⟨selects, condition, hplan, hcondition, fun hnone => ?_, fun hne column hcolumn => ?_,
      fun hne hseveral => ?_, fun s hs => ?_⟩
    · rw [hnone] at hselections
      cases hselections
      rw [hrestrictions]
      rfl
    · rw [selections_of_single hcolumn hne] at hselections
      cases hselections
      rw [hrestrictions]
      rfl
    · rw [selections_of_fits hseveral hne hfits] at hselections
      cases hselections
      simp only [hrestrictions, List.map_map, Function.comp_def, Clause.restrictionsOf_equalities]
    · obtain ⟨htable, horderings, hlimit⟩ := halike s hs
      refine ⟨htable, horderings, ?_⟩
      rw [hlimit, Option.map_map]
      congr 1
      funext n
      exact toNat_scaledLimit p.fanOut n

/-- One person asked for twice, and limits that are scaled and cut off. An identifier of one part has no plan,
    and an inequality none whatever the identifiers are. -/
theorem plan_outcome_vertices :
    let p : Planner := ⟨"vertices", ⟨[.label, .primaryValues]⟩, 100⟩
    let marko : ElementId := .composite ["person", "marko"]
    let q : Query :=
      { kind := .vertex, ids := [marko, marko]
        conditions := [.relation .label .eq (.symbol "person")], limit := some 7 }
    let other : Condition := .relation .label .neq (.symbol "person")
    let select : List Restriction :=
      [.compare "label" .eq (.text "person"), .compare "primary_values" .eq (.text "marko"),
        .compare "label" .eq (.text "person")]
    (∃ selects, p.plan q = .ok selects ∧ selects.map Select.restrictions = [select, select] ∧
        ∀ s ∈ selects, s.limit.map UInt64.toNat = some 700) ∧
      (∃ selects, p.plan { q with ids := [], limit := some 0x8000000000000000 } = .ok selects ∧
        selects.map Select.restrictions = [[.compare "label" .eq (.text "person")]] ∧
        ∀ s ∈ selects, s.limit.map UInt64.toNat = some (2 ^ 64 - 1)) ∧
      p.plan { q with ids := [marko, ⟨"josh"⟩] } = .error (.element (.invalidId ⟨"josh"⟩ 2 1)) ∧
      ∃ u, p.plan { q with ids := [⟨"josh"⟩], conditions := [other] } = .error (.unsupported u) := by
  intro p marko q other select
  have hnodes : ∀ c ∈ q.conditions, ∀ node ∈ c.nodes, node.isRefused = false := by decide
  have hcondition {condition : List Restriction}
      (h : List.Forall₂ (fun leaf r => Leaf.restriction? leaf = some r)
        (q.conditions.flatMap Condition.leaves) condition) :
      condition = [.compare "label" .eq (.text "person")] := by
    obtain ⟨r, rest, hr, hrest, rfl⟩ := List.forall₂_cons_left_iff.1 h
    cases hr
    cases hrest
    rfl
  refine ⟨?_, ?_, ?_, ?_⟩
  · obtain ⟨_, _, hplanned, _⟩ := plan_outcome p q
    obtain ⟨selects, condition, hplan, hleaves, _, _, hseveral, halike⟩ :=
      (hplanned hnodes).2 (.inr (by decide))
    rw [hcondition hleaves] at hseveral
    refine ⟨selects, hplan, (hseveral (by decide) (by decide)).trans (by decide), fun s hs => ?_⟩
    exact (halike s hs).2.2
  · obtain ⟨_, _, hplanned, _⟩ := plan_outcome p { q with ids := [], limit := some 0x8000000000000000 }
    obtain ⟨selects, condition, hplan, hleaves, hnone, _, _, halike⟩ :=
      (hplanned hnodes).2 (.inr (by decide))
    rw [hcondition hleaves] at hnone
    exact ⟨selects, hplan, hnone rfl, fun s hs => (halike s hs).2.2.trans (by decide +kernel)⟩
  · obtain ⟨_, _, hplanned, _⟩ := plan_outcome p { q with ids := [marko, ⟨"josh"⟩] }
    exact ((hplanned hnodes).1 _).2 ⟨by decide, ⟨"josh"⟩, by decide, by decide⟩
  · obtain ⟨hrefused, _⟩ := plan_outcome p { q with ids := [⟨"josh"⟩], conditions := [other] }
    exact hrefused.2 ⟨other, List.mem_singleton_self _, other, List.mem_singleton_self _, rfl⟩

end Planner

end GraphTables
