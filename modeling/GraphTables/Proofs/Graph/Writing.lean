import GraphTables.Proofs.Batch.Carrying
import GraphTables.Proofs.Graph.Scan

namespace GraphTables

namespace KindTable

/-- The store has the table, and its rows stand for the graph. -/
abbrev Holds (t : KindTable) (store : Store) (g : PropertyGraph) : Prop :=
  t.Keeps t.layout.Represents store g

/-- Wherever the table holds a graph, the statements are taken and do to it what the steps do. -/
def Simulates (t : KindTable) (statements : List Statement) (steps : List GraphStep) : Prop :=
  t.Carries t.layout.Represents statements (·.applyAll steps)

variable {t : KindTable}

theorem simulates_nil (t : KindTable) : t.Simulates [] [] := carries_nil

theorem Simulates.append {statements later : List Statement} {steps after : List GraphStep}
    (h : t.Simulates statements steps) (h' : t.Simulates later after) :
    t.Simulates (statements ++ later) (steps ++ after) := by
  have happend : (fun g : PropertyGraph => g.applyAll (steps ++ after)) =
      (fun g => g.applyAll after) ∘ fun g => g.applyAll steps := by
    funext g
    exact PropertyGraph.applyAll_append g steps after
  unfold Simulates
  rw [happend]
  exact Carries.append h h'

theorem simulates_map {α : Type} {xs : List α} {statement : α → Statement} {step : α → GraphStep}
    (h : ∀ x ∈ xs, t.Simulates [statement x] [step x]) :
    t.Simulates (xs.map statement) (xs.map step) := by
  induction xs with
  | nil => exact simulates_nil t
  | cons x xs ih =>
    have hx := h x (by simp)
    exact hx.append (ih fun y hy => h y (List.mem_cons_of_mem _ hy))

/-- Inserting the row of a property sets the property. -/
theorem simulates_insert (hl : t.layout.PropertyRows) {i : Insert} (htable : i.table = t.name)
    {id : List String} {name value : String} (hid : id.length = t.layout.identity.length)
    (hi : i.Sets (t.layout.rowCells id name value)) :
    t.Simulates [.insert i] [.setProperty id name value] := by
  apply carries_of_modifyTable fun table => table.insert i
  · intro store
    rw [← htable]
    rfl
  · intro rows g hrows
    have hcolumns : ∀ c, ((t.layout.rowCells id name value).get? c).isSome → c ∈ t.layout.columns := by
      intro c hc
      by_contra hmem
      rw [Layout.get?_rowCells_of_not_mem hl hid name value hmem] at hc
      cases hc
    have hinsert := insert_of_sets hi hcolumns (Layout.map_primaryKey_rowCells hl hid name value) rows
    -- An earlier row of the property has cells in the same columns, so none of them is left.
    have hrow : i.overlay ((rows.get? (id ++ [name])).getD .empty) =
        t.layout.rowOf id name value := by
      have hover (old : SortedMap Column String)
          (hold : ∀ c, c ∉ t.layout.columns → old.get? c = none) :
          i.overlay (Record.ofColumns old) = t.layout.rowOf id name value := by
        rw [hi.overlay, Layout.rowOf]
        congr 1
        apply SortedMap.ext_get?
        intro c
        rw [SortedMap.get?_insertAll_entries]
        by_cases hc : c ∈ t.layout.columns
        · obtain ⟨text, htext⟩ :=
            Layout.get?_rowCells_of_mem hl hid name value hc
          rw [htext, Option.some_or]
        · rw [hold c hc, Option.or_none]
      rw [hrows.get?_append]
      cases hproperty : g.property? id name with
      | none => exact hover .empty fun _ _ => rfl
      | some value' =>
        exact hover (t.layout.rowCells id name value') fun c hc =>
          Layout.get?_rowCells_of_not_mem hl hid name value' hc
    rw [hrow] at hinsert
    exact ⟨_, hinsert, hrows.setProperty hid⟩

/-- Deleting the rows with given texts in some columns removes the properties whose rows have them. -/
theorem simulates_delete {pairs : List (Column × String)} {step : GraphStep}
    (hit : List String → String → Prop) [∀ id name, Decidable (hit id name)] (hne : pairs ≠ [])
    (hcolumns : ∀ e ∈ pairs, e.1 ∈ t.layout.columns)
    (hhit : ∀ id name value, id.length = t.layout.identity.length →
      ((∀ e ∈ pairs, (t.layout.rowCells id name value).get? e.1 = some e.2) ↔ hit id name))
    (hstep : ∀ (g : PropertyGraph) id name,
      (g.apply step).property? id name = if hit id name then none else g.property? id name) :
    t.Simulates [.delete ⟨t.name, Clause.equalities pairs⟩] [step] := by
  apply carries_of_modifyTable fun table => table.delete ⟨t.name, Clause.equalities pairs⟩
  · intro store
    rfl
  · intro rows g hrows
    refine ⟨_, delete_of_equalities hne hcolumns rows, ?_⟩
    apply hrows.filter
    intro id name
    have hstep : (g.applyAll [step]).property? id name = if hit id name then none else g.property? id name :=
      hstep g id name
    rw [hstep]
    cases hproperty : g.property? id name with
    | none => split <;> rfl
    | some value =>
      have hsatisfies := hrows.satisfies_iff hhit hproperty
      split
      next h => rw [Option.filter_some, hsatisfies.2 h]; rfl
      next h => rw [Option.filter_some, Bool.eq_false_iff.2 fun hs => h (hsatisfies.1 hs)]; rfl

variable {pairs : List (Column × String)} {id : List String}

theorem mem_columns_of_identity (hl : t.layout.PropertyRows)
    (hpairs : ∀ e, e ∈ pairs ↔ e ∈ t.layout.identity.zip id) :
    ∀ e ∈ pairs, e.1 ∈ t.layout.columns := by
  intro e he
  have hidentity := (List.of_mem_zip ((hpairs e).1 he)).1
  exact (hl.roleOf_identity hidentity).1

/-- Deleting the rows of an identity removes the element. -/
theorem simulates_deleteElement (hl : t.layout.PropertyRows)
    (hid : id.length = t.layout.identity.length)
    (hpairs : ∀ e, e ∈ pairs ↔ e ∈ t.layout.identity.zip id) :
    t.Simulates [.delete ⟨t.name, Clause.equalities pairs⟩] [.removeElement id] := by
  apply simulates_delete fun id' _ => id' = id
  · obtain ⟨e, he⟩ := List.exists_mem_of_ne_nil _ (hl.zip_identity_ne_nil hid)
    exact List.ne_nil_of_mem ((hpairs e).2 he)
  · exact mem_columns_of_identity hl hpairs
  · intro id' name value hid'
    rw [← Layout.forall_identity_rowCells_iff hl hid hid' name value]
    simp only [hpairs]
  · intro g id' name
    exact PropertyGraph.property?_removeElement g id id' name

/-- Deleting the row of a property removes the property. -/
theorem simulates_deleteProperty (hl : t.layout.PropertyRows)
    (hid : id.length = t.layout.identity.length)
    (hpairs : ∀ e, e ∈ pairs ↔ e ∈ t.layout.identity.zip id) (name : String) :
    t.Simulates [.delete ⟨t.name, Clause.equalities (pairs ++ [(.propertyKey, name)])⟩]
      [.removeProperty id name] := by
  apply simulates_delete (fun id' name' => id' = id ∧ name' = name) (by simp)
  · rw [List.forall_mem_append, List.forall_mem_singleton]
    exact ⟨mem_columns_of_identity hl hpairs, by simp [hl.columns]⟩
  · intro id' name' value hid'
    obtain ⟨_, hname, _⟩ := Layout.rowCells_parts hl hid' name' value
    rw [List.forall_mem_append, List.forall_mem_singleton, hname, Option.some_inj,
      ← Layout.forall_identity_rowCells_iff hl hid hid' name' value]
    simp only [hpairs]
  · intro g id' name'
    exact PropertyGraph.property?_removeProperty g id id' name name'

end KindTable

end GraphTables
