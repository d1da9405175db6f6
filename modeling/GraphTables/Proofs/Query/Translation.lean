import GraphTables.Proofs.Query.Conditions
import GraphTables.Store.Table

namespace GraphTables

/-- The comparison as a condition. -/
def Leaf.condition (leaf : Leaf) : Condition := .relation leaf.column leaf.op leaf.value

private theorem Leaf.toClause_condition {leaf : Leaf} {r : Restriction} (h : leaf.restriction? = some r) :
    leaf.condition.toClause = .ok (.leaf r) := by
  obtain ⟨comparison, hcomparison, rfl⟩ := Option.map_eq_some_iff.1 h
  rw [condition, Condition.toClause, hcomparison]

/-- What is refused, as the part of the condition that it is. -/
def Unsupported.node : Unsupported → Condition
  | inequality column value => .relation column .neq value
  | disjunction left right => .or left right

/-- What a refusal says before it shows the refused condition. -/
def Unsupported.reason : Unsupported → String
  | inequality column _ => "unsupported predicate: inequality on " ++ column.text
  | disjunction _ _ => "unsupported predicate: disjunction"

private theorem Unsupported.message_eq (u : Unsupported) :
    u.message = u.reason ++ ": " ++ u.node.display := by
  cases u <;> rfl

private theorem Unsupported.node_injective {u v : Unsupported} (h : u.node = v.node) : u = v := by
  cases u <;> cases v <;> cases h <;> rfl

namespace Condition

/-- Comparisons that statements know are translated one by one. -/
theorem forall₂_toClause {ls : List Leaf} (h : ∀ leaf ∈ ls, leaf.op ≠ .neq) :
    List.Forall₂ (fun leaf clause => leaf.condition.toClause = .ok clause) ls
      ((ls.filterMap Leaf.restriction?).map .leaf) := by
  rw [List.forall₂_map_right_iff]
  exact (Leaf.forall₂_restriction? h).imp fun _ _ => Leaf.toClause_condition

private theorem exists_toClause_iff {c : Condition} : (∃ clause, c.toClause = .ok clause) ↔ c.Supported := by
  constructor
  · rintro ⟨clause, hclause⟩
    cases hc : c.unsupported? with
    | none => exact unsupported?_eq_none_iff.1 hc
    | some u =>
      rw [toClause_of_unsupported? hc] at hclause
      cases hclause
  · intro h
    obtain ⟨clause, hclause, _⟩ := toClause_of_supported h
    exact ⟨clause, hclause⟩

/-- The clause of a conjunction lists the clauses of its comparisons. -/
theorem toClause_and {left right : Condition} {clause : Clause}
    (h : (and left right).toClause = .ok clause) (hsupported : (and left right).Supported) :
    ∃ operands, clause = .all operands ∧
      List.Forall₂ (fun leaf operand => leaf.condition.toClause = .ok operand)
        (and left right).leaves operands := by
  obtain ⟨l, hl, hleft⟩ := toClause_of_supported hsupported.1
  obtain ⟨r, hr, hright⟩ := toClause_of_supported hsupported.2
  rw [toClause, hl, hr] at h
  cases h
  refine ⟨_, rfl, ?_⟩
  have hoperands := forall₂_toClause fun _ hleaf => op_ne_neq_of_mem_leaves hsupported hleaf
  rw [leaves, List.filterMap_append] at hoperands
  rw [Clause.restrictions_of_flat hleft, Clause.restrictions_of_flat hright]
  exact hoperands

/-- All parts of a condition from left to right, each before the parts of its own. -/
def nodes : Condition → List Condition
  | relation column op value => [relation column op value]
  | and left right => and left right :: (left.nodes ++ right.nodes)
  | or left right => or left right :: (left.nodes ++ right.nodes)

/-- The condition itself is an alternative or an inequality, whatever its parts are. -/
def isRefused : Condition → Bool
  | relation _ op _ => op == .neq
  | and _ _ => false
  | or _ _ => true

private theorem map_node_unsupported? (c : Condition) :
    c.unsupported?.map Unsupported.node = c.nodes.find? isRefused := by
  induction c with
  | relation column op value =>
    rw [unsupported?, nodes, List.find?_singleton, isRefused]
    split
    next hop =>
      rw [hop]
      rfl
    next hop =>
      rw [if_neg (by simpa using hop)]
      rfl
  | and left right ihl ihr =>
    rw [nodes, List.find?_cons_of_neg (by simp [isRefused]), List.find?_append, ← ihl, ← ihr, unsupported?]
    cases left.unsupported? <;> rfl
  | or left right => rfl

theorem supported_iff_nodes {c : Condition} :
    c.Supported ↔ ∀ node ∈ c.nodes, node.isRefused = false := by
  have hnone : c.nodes.find? isRefused = none ↔ ∀ node ∈ c.nodes, node.isRefused = false := by
    simp [List.find?_eq_none]
  rw [← hnone, ← map_node_unsupported?, Option.map_eq_none_iff, unsupported?_eq_none_iff]

private theorem toClause_eq_error_iff {c : Condition} {u : Unsupported} :
    c.toClause = .error u ↔ c.nodes.find? isRefused = some u.node := by
  rw [← map_node_unsupported?]
  cases hc : c.unsupported? with
  | none =>
    obtain ⟨clause, hclause, _⟩ := toClause_of_supported (unsupported?_eq_none_iff.1 hc)
    simp [hclause]
  | some v =>
    rw [toClause_of_unsupported? hc, Option.map_some, Option.some_inj, Except.error.injEq]
    exact ⟨congrArg Unsupported.node, Unsupported.node_injective⟩

theorem conjunction_eq_error_iff {conditions : List Condition} {u : Unsupported} :
    conjunction conditions = .error u ↔
      (conditions.flatMap nodes).find? isRefused = some u.node := by
  have hfirst : (conditions.flatMap nodes).find? isRefused =
      (conditions.findSome? unsupported?).map Unsupported.node := by
    rw [List.find?_flatMap, List.map_findSome?]
    congr 1
    funext c
    exact (map_node_unsupported? c).symm
  rw [hfirst]
  cases hc : conditions.findSome? unsupported? with
  | none =>
    have hsupported : ∀ c ∈ conditions, c.Supported := fun c hmem =>
      unsupported?_eq_none_iff.1 (List.findSome?_eq_none_iff.1 hc c hmem)
    rw [conjunction_eq_flat hsupported]
    simp
  | some v =>
    rw [conjunction, joinClauses_of_unsupported? none hc, Option.map_some, Option.some_inj,
      Except.error.injEq]
    exact ⟨congrArg Unsupported.node, Unsupported.node_injective⟩

/-- The order in which conditions make their comparisons does not matter to any row. -/
theorem satisfies_of_perm {first second : List Condition} (hfirst : ∀ c ∈ first, c.Supported)
    (hsecond : ∀ c ∈ second, c.Supported)
    (hperm : (first.flatMap leaves).Perm (second.flatMap leaves)) :
    ∃ a b, conjunction first = .ok a ∧ conjunction second = .ok b ∧
      ∀ row, Table.satisfies a.toList row = Table.satisfies b.toList row := by
  obtain ⟨a, ha, hexpressed⟩ := conjunction_of_supported hfirst
  obtain ⟨b, hb, hexpressed'⟩ := conjunction_of_supported hsecond
  refine ⟨a, b, ha, hb, fun row => ?_⟩
  rw [Table.satisfies, Table.satisfies, hexpressed.holds, hexpressed'.holds, hperm.all_eq]

/-- Which clause conditions have, and why they have none.

    * A condition has a clause exactly if no part of it is an alternative or an inequality. A lone
      comparison becomes a lone restriction. A conjunction, however nested, becomes a conjunction of the
      clauses of its comparisons, from left to right.
    * Otherwise it is refused for the first such part, a condition coming before its own parts and the left
      ones before the right ones, and the message shows this part. A list of conditions is refused for the
      first such part of its conditions.
    * Lists of conditions that make the same comparisons in the same order have the same clause, however
      these are grouped. If they make them in different orders, their clauses hold of the same rows. -/
theorem translation :
    (∀ c : Condition,
      ((∃ clause, c.toClause = .ok clause) ↔ c.Supported) ∧
        (c.Supported ↔ ∀ node ∈ c.nodes, node.isRefused = false) ∧
        (∀ clause, c.toClause = .ok clause →
          (∀ column op value, c = relation column op value →
            ∃ comparison, op.comparison? = some comparison ∧
              clause = .leaf (.compare column.text comparison value.literal)) ∧
          ∀ left right, c = and left right →
            ∃ operands, clause = .all operands ∧
              List.Forall₂ (fun leaf operand => leaf.condition.toClause = .ok operand)
                c.leaves operands) ∧
        ∀ u, c.toClause = .error u ↔ c.nodes.find? isRefused = some u.node) ∧
      (∀ u : Unsupported, u.message = u.reason ++ ": " ++ u.node.display) ∧
      (∀ conditions u, conjunction conditions = .error u ↔
        (conditions.flatMap nodes).find? isRefused = some u.node) ∧
      ∀ first second : List Condition, (∀ c ∈ first, c.Supported) → (∀ c ∈ second, c.Supported) →
        (first.flatMap leaves = second.flatMap leaves →
          ∃ clause, conjunction first = .ok clause ∧ conjunction second = .ok clause) ∧
        ((first.flatMap leaves).Perm (second.flatMap leaves) →
          ∃ a b, conjunction first = .ok a ∧ conjunction second = .ok b ∧
            ∀ row, Table.satisfies a.toList row = Table.satisfies b.toList row) := by
  refine ⟨fun c => ⟨exists_toClause_iff, supported_iff_nodes, fun clause hclause => ⟨?_, ?_⟩,
      fun u => toClause_eq_error_iff⟩,
    Unsupported.message_eq, fun conditions u => conjunction_eq_error_iff,
    fun first second hfirst hsecond => ⟨fun hleaves => ?_, satisfies_of_perm hfirst hsecond⟩⟩
  · rintro column op value rfl
    rw [toClause] at hclause
    cases hop : op.comparison? with
    | none =>
      rw [hop] at hclause
      cases hclause
    | some comparison =>
      rw [hop] at hclause
      cases hclause
      exact ⟨comparison, rfl, rfl⟩
  · rintro left right rfl
    exact toClause_and hclause (exists_toClause_iff.1 ⟨clause, hclause⟩)
  · refine ⟨_, conjunction_eq_flat hfirst, ?_⟩
    rw [hleaves]
    exact conjunction_eq_flat hsecond

/-- Three comparisons, grouped and ordered in several ways, and conditions that are refused. The first of
    these has an inequality before an alternative, the second an alternative with an inequality in it. -/
theorem translation_grouped :
    let knows := relation .label .eq (.text "knows")
    let later := relation .sortValues .gt (.int 2)
    let upTo := relation .targetVertex .lte (.text "z")
    let other := relation .label .neq (.text "created")
    (∃ clause, conjunction [and (and knows later) upTo] = .ok clause ∧
        conjunction [knows, and later upTo] = .ok clause) ∧
      (∃ a b, conjunction [and knows later, upTo] = .ok a ∧ conjunction [upTo, and later knows] = .ok b ∧
        ∀ row, Table.satisfies a.toList row = Table.satisfies b.toList row) ∧
      (∃ operands, (and knows (and later upTo)).toClause = .ok (.all operands) ∧ operands.length = 3) ∧
      (and (and knows other) (or knows later)).toClause =
        .error (.inequality .label (.text "created")) ∧
      (and (or other later) other).toClause = .error (.disjunction other later) := by
  intro knows later upTo other
  obtain ⟨heach, _, _, hlists⟩ := translation
  have hsame := (hlists [and (and knows later) upTo] [knows, and later upTo] (by decide) (by decide)).1 rfl
  have hperm : ([and knows later, upTo].flatMap leaves).Perm ([upTo, and later knows].flatMap leaves) := by
    decide
  have hrows := (hlists [and knows later, upTo] [upTo, and later knows] (by decide) (by decide)).2 hperm
  refine ⟨hsame, hrows, ?_, ?_, ?_⟩
  · obtain ⟨hexists, _, hshape, _⟩ := heach (and knows (and later upTo))
    obtain ⟨clause, hclause⟩ := hexists.2 (by decide)
    obtain ⟨operands, hoperands, hleaves⟩ := (hshape clause hclause).2 _ _ rfl
    refine ⟨operands, ?_, hleaves.length_eq.symm⟩
    rw [hclause, hoperands]
  · obtain ⟨_, _, _, hrefused⟩ := heach (and (and knows other) (or knows later))
    exact (hrefused _).2 (by decide)
  · obtain ⟨_, _, _, hrefused⟩ := heach (and (or other later) other)
    exact (hrefused _).2 (by decide)

end Condition

end GraphTables
