import GraphTables.Element
import GraphTables.Proofs.Except
import GraphTables.Query.Condition
import Mathlib.Data.List.Forall2

namespace GraphTables

/-- The comparison holds between operands that stand in the given order. -/
def Relation.accepts : Relation → Ordering → Bool
  | eq, o => o == .eq
  | gt, o => o == .gt
  | gte, o => o != .lt
  | lt, o => o == .lt
  | lte, o => o != .gt
  | neq, o => o != .eq

private theorem Relation.accepts_comparison? {op : Relation} {comparison : Comparison}
    (h : op.comparison? = some comparison) : comparison.accepts = op.accepts := by
  cases op <;> cases h <;> rfl

private theorem Relation.exists_comparison {op : Relation} (h : op ≠ .neq) :
    ∃ comparison, op.comparison? = some comparison := by
  cases op with
  | neq => exact absurd rfl h
  | eq | gt | gte | lt | lte => exact ⟨_, rfl⟩

/-- The order of a text relative to an operand: texts, symbols and identifiers are compared as texts,
    numbers and truth values as what the text reads as. -/
def Value.order? : Value → String → Option Ordering
  | text s, cell => some (compare cell s)
  | symbol s, cell => some (compare cell s)
  | id i, cell => some (compare cell i.text)
  | int i, cell => (Literal.int i).compareCell cell
  | float x, cell => (Literal.float x).compareCell cell
  | bool b, cell => (Literal.bool b).compareCell cell

private theorem Value.compareCell_literal (v : Value) (cell : String) :
    v.literal.compareCell cell = v.order? cell := by
  cases v <;> rfl

/-- A conjunction of restrictions, without nested conjunctions. One restriction stands alone. -/
def Clause.flat : List Restriction → Option Clause
  | [] => none
  | [r] => some (leaf r)
  | r :: s :: rest => some (all ((r :: s :: rest).map leaf))

theorem Clause.restrictionsOf_flat (rs : List Restriction) :
    restrictionsOf (flat rs).toList = rs := by
  cases rs with
  | nil => rfl
  | cons r rest =>
    cases rest with
    | nil => simp [flat, restrictionsOf, restrictions]
    | cons s rest =>
      rw [flat, Option.toList_some, restrictionsOf, restrictionsOf, List.append_nil, restrictions,
        restrictionsOf_map_leaf]

theorem Clause.restrictions_of_flat {rs : List Restriction} {a : Clause} (h : flat rs = some a) :
    a.restrictions = rs := by
  have hrestrictions := restrictionsOf_flat rs
  rwa [h, Option.toList_some, restrictionsOf, restrictionsOf, List.append_nil] at hrestrictions

/-- Clauses of restrictions are joined to the clause of all the restrictions. -/
theorem Clause.flat_append {rs ss : List Restriction} {a b : Clause} (ha : flat rs = some a)
    (hb : flat ss = some b) : flat (rs ++ ss) = some (a.and b) := by
  rw [and, restrictions_of_flat ha, restrictions_of_flat hb]
  cases rs with
  | nil => cases ha
  | cons r rest =>
    cases ss with
    | nil => cases hb
    | cons s more => cases rest <;> rfl

/-- A comparison of one column, as conditions are made of. -/
structure Leaf where
  column : Column
  op : Relation
  value : Value
deriving DecidableEq

/-- The column is set, and its text compares to the operand as it should. -/
def Leaf.accepts (leaf : Leaf) (cell? : Option String) : Bool :=
  cell?.any fun text => (leaf.value.order? text).any leaf.op.accepts

/-- The comparison holds of an element. -/
def Leaf.holds (leaf : Leaf) (e : Element) : Bool := leaf.accepts (e.columns.get? leaf.column)

/-- The restriction that a comparison becomes, if statements know it. -/
def Leaf.restriction? (leaf : Leaf) : Option Restriction :=
  leaf.op.comparison?.map fun comparison => .compare leaf.column.text comparison leaf.value.literal

/-- The restriction of a comparison is of its column, and holds of the rows of which the comparison does. -/
theorem Leaf.exists_restriction {leaf : Leaf} (h : leaf.op ≠ .neq) :
    ∃ r, leaf.restriction? = some r ∧ r.column = leaf.column.text ∧
      ∀ cell?, r.holds cell? = leaf.accepts (cell? leaf.column.text) := by
  obtain ⟨column, op, value⟩ := leaf
  obtain ⟨comparison, hcomparison⟩ := Relation.exists_comparison h
  refine ⟨.compare column.text comparison value.literal, ?_, rfl, fun cell? => ?_⟩
  · rw [restriction?, hcomparison, Option.map_some]
  · have haccepts : (Restriction.compare column.text comparison value.literal).acceptsCell =
        fun text => (value.order? text).any op.accepts := by
      funext text
      rw [Restriction.acceptsCell, Value.compareCell_literal,
        Relation.accepts_comparison? hcomparison]
    rw [Restriction.holds, Restriction.column, haccepts, accepts]

/-- Comparisons that statements know become restrictions one by one. -/
theorem Leaf.forall₂_restriction? {ls : List Leaf} (h : ∀ leaf ∈ ls, leaf.op ≠ .neq) :
    List.Forall₂ (fun leaf r => leaf.restriction? = some r) ls (ls.filterMap restriction?) := by
  induction ls with
  | nil => exact .nil
  | cons leaf rest ih =>
    rw [List.forall_mem_cons] at h
    obtain ⟨r, hr, _⟩ := exists_restriction h.1
    rw [List.filterMap_cons_some hr]
    exact .cons hr (ih h.2)

namespace Condition

/-- The comparisons of a condition, from left to right. -/
def leaves : Condition → List Leaf
  | relation column op value => [⟨column, op, value⟩]
  | and left right => left.leaves ++ right.leaves
  | or left right => left.leaves ++ right.leaves

/-- The condition has neither alternatives nor inequalities. -/
def Supported : Condition → Prop
  | relation _ op _ => op ≠ .neq
  | and left right => left.Supported ∧ right.Supported
  | or _ _ => False

instance decidableSupported : (c : Condition) → Decidable c.Supported
  | relation _ op _ => inferInstanceAs (Decidable (op ≠ .neq))
  | and left right =>
    have := decidableSupported left
    have := decidableSupported right
    inferInstanceAs (Decidable (left.Supported ∧ right.Supported))
  | or _ _ => .isFalse id

/-- The first alternative or inequality of a condition, from left to right. -/
def unsupported? : Condition → Option Unsupported
  | relation column op value => if op = .neq then some (.inequality column value) else none
  | and left right => left.unsupported?.or right.unsupported?
  | or left right => some (.disjunction left right)

theorem op_ne_neq_of_mem_leaves {c : Condition} (h : c.Supported) {leaf : Leaf}
    (hleaf : leaf ∈ c.leaves) : leaf.op ≠ .neq := by
  induction c with
  | relation column op value =>
    rw [leaves, List.mem_singleton] at hleaf
    rw [hleaf]
    exact h
  | and left right ihl ihr =>
    rw [leaves, List.mem_append] at hleaf
    exact hleaf.elim (ihl h.1) (ihr h.2)
  | or left right => cases h

theorem unsupported?_eq_none_iff {c : Condition} : c.unsupported? = none ↔ c.Supported := by
  induction c with
  | relation column op value => simp [unsupported?, Supported]
  | and left right ihl ihr => rw [unsupported?, Option.or_eq_none_iff, ihl, ihr, Supported]
  | or left right => simp [unsupported?, Supported]

/-- The restrictions that the comparisons of a condition become, from left to right. -/
def restrictions (c : Condition) : List Restriction := c.leaves.filterMap Leaf.restriction?

/-- The clause of a supported condition has the restrictions of its comparisons, and no more structure. -/
theorem toClause_of_supported {c : Condition} (h : c.Supported) :
    ∃ clause, c.toClause = .ok clause ∧ Clause.flat c.restrictions = some clause := by
  induction c with
  | relation column op value =>
    obtain ⟨comparison, hcomparison⟩ := Relation.exists_comparison h
    refine ⟨.leaf (.compare column.text comparison value.literal), ?_, ?_⟩
    · rw [toClause, hcomparison]
    · simp [restrictions, leaves, Leaf.restriction?, hcomparison, Clause.flat]
  | and left right ihl ihr =>
    obtain ⟨l, hl, hleft⟩ := ihl h.1
    obtain ⟨r, hr, hright⟩ := ihr h.2
    refine ⟨l.and r, ?_, ?_⟩
    · rw [toClause, hl, hr]
      rfl
    · rw [restrictions, leaves, List.filterMap_append]
      exact Clause.flat_append hleft hright
  | or left right => cases h

private theorem joinClauses_of_supported {before : Option Clause} {rs : List Restriction}
    (hbefore : Clause.flat rs = before) {conditions : List Condition}
    (h : ∀ c ∈ conditions, c.Supported) :
    joinClauses before conditions = .ok (Clause.flat (rs ++ conditions.flatMap restrictions)) := by
  induction conditions generalizing before rs with
  | nil => rw [List.flatMap_nil, List.append_nil, hbefore, joinClauses]
  | cons c rest ih =>
    rw [List.forall_mem_cons] at h
    obtain ⟨clause, hclause, hflat⟩ := toClause_of_supported h.1
    have hjoined : Clause.flat (rs ++ c.restrictions) = some (before.elim clause (·.and clause)) := by
      cases before with
      | none =>
        have hrs := Clause.restrictionsOf_flat rs
        rw [hbefore] at hrs
        rw [← hrs]
        exact hflat
      | some a => exact Clause.flat_append hbefore hflat
    rw [joinClauses, hclause, List.flatMap_cons, ← List.append_assoc, ← ih hjoined h.2]
    rfl

/-- The clause of supported conditions has the restrictions of their comparisons, and no more structure. -/
theorem conjunction_eq_flat {conditions : List Condition} (h : ∀ c ∈ conditions, c.Supported) :
    conjunction conditions =
      .ok (Clause.flat ((conditions.flatMap leaves).filterMap Leaf.restriction?)) := by
  have hnone : Clause.flat [] = none := rfl
  rw [conjunction, joinClauses_of_supported hnone h, List.nil_append, List.filterMap_flatMap]
  rfl

/-- The clauses compare the columns of the comparisons, and hold of a row exactly if these do. -/
structure Expressed (leaves : List Leaf) (clauses : List Clause) : Prop where
  columns : (Clause.restrictionsOf clauses).map Restriction.column =
    leaves.map fun leaf => leaf.column.text
  holds : ∀ cell?, Clause.holdAll cell? clauses =
    leaves.all fun leaf => leaf.accepts (cell? leaf.column.text)

private theorem expressed_of_restrictions {ls : List Leaf} (h : ∀ leaf ∈ ls, leaf.op ≠ .neq)
    {clauses : List Clause} (hclauses : Clause.restrictionsOf clauses = ls.filterMap Leaf.restriction?) :
    Expressed ls clauses := by
  have hleaves : (ls.filterMap Leaf.restriction?).map Restriction.column =
        (ls.map fun leaf => leaf.column.text) ∧
      ∀ cell?, ((ls.filterMap Leaf.restriction?).all fun r => r.holds cell?) =
        ls.all fun leaf => leaf.accepts (cell? leaf.column.text) := by
    clear hclauses
    induction ls with
    | nil => exact ⟨rfl, fun _ => rfl⟩
    | cons leaf rest ih =>
      rw [List.forall_mem_cons] at h
      obtain ⟨r, hr, hcolumn, hholds⟩ := Leaf.exists_restriction h.1
      obtain ⟨hcolumns, hall⟩ := ih h.2
      rw [List.filterMap_cons_some hr]
      refine ⟨?_, fun cell? => ?_⟩
      · rw [List.map_cons, List.map_cons, hcolumn, hcolumns]
      · rw [List.all_cons, List.all_cons, hholds, hall]
  constructor
  · rw [hclauses, hleaves.1]
  · intro cell?
    rw [Clause.holdAll_eq_all, hclauses, hleaves.2]

/-- Conditions that are all supported have a conjunction of their comparisons. -/
theorem conjunction_of_supported {conditions : List Condition} (h : ∀ c ∈ conditions, c.Supported) :
    ∃ clause, conjunction conditions = .ok clause ∧
      Expressed (conditions.flatMap leaves) clause.toList := by
  refine ⟨_, conjunction_eq_flat h, expressed_of_restrictions ?_ (Clause.restrictionsOf_flat _)⟩
  intro leaf hleaf
  obtain ⟨c, hc, hleaf⟩ := List.mem_flatMap.1 hleaf
  exact op_ne_neq_of_mem_leaves (h c hc) hleaf

/-- A condition that is not supported is refused for its first alternative or inequality. -/
theorem toClause_of_unsupported? {c : Condition} {u : Unsupported} (h : c.unsupported? = some u) :
    c.toClause = .error u := by
  induction c with
  | relation column op value =>
    rw [unsupported?] at h
    split at h
    next hop =>
      cases h
      rw [hop]
      rfl
    next => cases h
  | and left right ihl ihr =>
    rw [unsupported?] at h
    rw [toClause]
    cases hleft : left.unsupported? with
    | some v =>
      rw [hleft] at h
      cases h
      rw [ihl hleft]
      rfl
    | none =>
      rw [hleft, Option.none_or] at h
      obtain ⟨clause, hclause, _⟩ := toClause_of_supported (unsupported?_eq_none_iff.1 hleft)
      rw [hclause, ihr h]
      rfl
  | or left right =>
    cases h
    rfl

theorem joinClauses_of_unsupported? (before : Option Clause) {conditions : List Condition}
    {u : Unsupported} (h : conditions.findSome? unsupported? = some u) :
    joinClauses before conditions = .error u := by
  induction conditions generalizing before with
  | nil => cases h
  | cons c rest ih =>
    rw [List.findSome?_cons] at h
    rw [joinClauses]
    cases hc : c.unsupported? with
    | some v =>
      rw [hc] at h
      cases h
      rw [toClause_of_unsupported? hc]
      rfl
    | none =>
      rw [hc] at h
      obtain ⟨clause, hclause, _⟩ := toClause_of_supported (unsupported?_eq_none_iff.1 hc)
      rw [hclause]
      exact ih _ h

end Condition

end GraphTables
