import GraphTables.Proofs.Store.Deletion
import GraphTables.Proofs.Store.Selection

namespace GraphTables

namespace Clause

mutual

/-- The clause taken apart: its leaves as clauses of their own, from left to right. -/
def leaves : Clause → List Clause
  | leaf r => [leaf r]
  | all operands => leavesOf operands

/-- Clauses taken apart one after the other. -/
def leavesOf : List Clause → List Clause
  | [] => []
  | c :: cs => c.leaves ++ leavesOf cs

end

mutual

/-- The leaves of a clause are the restrictions that it lists. -/
theorem leaves_eq_map (c : Clause) : c.leaves = c.restrictions.map leaf :=
  match c with
  | leaf r => by rw [leaves, restrictions, List.map_singleton]
  | all operands => by rw [leaves, restrictions, leavesOf_eq_map]

theorem leavesOf_eq_map (cs : List Clause) : leavesOf cs = (restrictionsOf cs).map leaf :=
  match cs with
  | [] => by rw [leavesOf, restrictionsOf, List.map_nil]
  | c :: cs => by rw [leavesOf, restrictionsOf, List.map_append, leaves_eq_map, leavesOf_eq_map]

end

private theorem and_eq_all (a b : Clause) : a.and b = all (a.leaves ++ b.leaves) := by
  rw [and, List.map_append, leaves_eq_map, leaves_eq_map]

theorem leaves_and (a b : Clause) : (a.and b).leaves = a.leaves ++ b.leaves := by
  rw [leaves_eq_map, restrictions_and, List.map_append, leaves_eq_map, leaves_eq_map]

private theorem exists_leaf_of_mem_leaves {c l : Clause} (h : l ∈ c.leaves) : ∃ r, l = leaf r := by
  rw [leaves_eq_map] at h
  obtain ⟨r, _, rfl⟩ := List.mem_map.1 h
  exact ⟨r, rfl⟩

/-- A clause holds of a row exactly if all its leaves do. -/
theorem holds_iff_leaves (cell? : String → Option String) (c : Clause) :
    c.holds cell? = true ↔ ∀ l ∈ c.leaves, l.holds cell? = true := by
  rw [leaves_eq_map, List.forall_mem_map, holds_eq_all, List.all_eq_true]
  simp only [holds]

end Clause

private theorem Table.satisfies_of_restrictions {cs ds : List Clause}
    (h : Clause.restrictionsOf cs = Clause.restrictionsOf ds) (row : Record) :
    satisfies cs row = satisfies ds row := by
  rw [satisfies, satisfies, Clause.holdAll_eq_all, Clause.holdAll_eq_all, h]

/-- Selects with the same restrictions are executed alike, whatever the session has, and fail alike. -/
theorem Session.execute_select_congr (session : Session) {s u : Select} (htable : s.table = u.table)
    (horderings : s.orderings = u.orderings) (hlimit : s.limit = u.limit)
    (hrestrictions : s.restrictions = u.restrictions) :
    session.execute (.select s) = session.execute (.select u) := by
  have hselect (t : Table) : t.select s = t.select u :=
    t.select_congr (congrArg _ hrestrictions) (Table.satisfies_of_restrictions hrestrictions) horderings
      hlimit
  unfold execute
  dsimp only
  rw [session.select_congr hselect htable]

/-- What nesting does to clauses, whatever is nested in what.

    * Two clauses are conjoined to one list of their leaves, first those of the one and then those of the other,
      so conjoining is associative.
    * Taking a clause apart and listing its restrictions give the same leaves in the same order, and the clause
      holds of a stored row exactly if all of them hold.
    * Selects of one table with the same orderings, limit and restrictions have the same result or the same
      error, on every session. -/
theorem Clause.conjunctions :
    (∀ a b : Clause, a.and b = all (a.leaves ++ b.leaves) ∧ ∀ l ∈ a.leaves ++ b.leaves, ∃ r, l = leaf r) ∧
      (∀ a b c : Clause, (a.and b).and c = a.and (b.and c)) ∧
      (∀ c : Clause, c.leaves = c.restrictions.map leaf) ∧
      (∀ (c : Clause) (row : Record), c.holds row.get? = true ↔ ∀ l ∈ c.leaves, l.holds row.get? = true) ∧
      ∀ s u : Select, s.table = u.table → s.orderings = u.orderings → s.limit = u.limit →
        s.restrictions = u.restrictions →
          ∀ session : Session, session.execute (.select s) = session.execute (.select u) := by
  refine ⟨fun a b => ⟨and_eq_all a b, fun l hl => ?_⟩, fun a b c => ?_, leaves_eq_map,
    fun c row => holds_iff_leaves row.get? c, ?_⟩
  · rcases List.mem_append.1 hl with hleft | hright
    · exact exists_leaf_of_mem_leaves hleft
    · exact exists_leaf_of_mem_leaves hright
  · rw [and_eq_all (a.and b), and_eq_all a (b.and c), leaves_and, leaves_and, List.append_assoc]
  · intro s u htable horderings hlimit hrestrictions session
    exact session.execute_select_congr htable horderings hlimit hrestrictions

/-- Selects from the notes by conjunctions with empty ones in them, against the same restrictions side by side. In
    the second pair a restriction is of a column that the table does not have. -/
theorem Clause.conjunctions_noted :
    let title := leaf (.compare "title" .eq (.text "a"))
    let body := leaf (.oneOf "body" [.text "b", .int 3])
    let author := leaf (.compare "author" .gt (.text "a"))
    let run (clauses : List Clause) := Session.noted.execute (.select { table := "Notes", clauses })
    (title.and (all [])).and (all [all [body]]) = all [title, body] ∧
      run [all [title, all []], all [all [body]]] = run [title, body] ∧
      run [title, body] =
        .ok (.noted, ⟨["title", "body"], [⟨[("title", some "a"), ("body", some "b")]⟩]⟩) ∧
      run [all [all [], title], author] = run [title, author] ∧
      run [title, author] = .error (.invalid (.undefinedColumn "author" "notes")) := by
  intro title body author run
  obtain ⟨hconjoin, hassoc, _, _, hexecute⟩ := conjunctions
  refine ⟨?_, ?_, by decide +kernel, ?_, by decide +kernel⟩
  · rw [hassoc, (hconjoin title _).1]
    rfl
  · exact hexecute { table := "Notes", clauses := [all [title, all []], all [all [body]]] }
      { table := "Notes", clauses := [title, body] } rfl rfl rfl rfl .noted
  · exact hexecute { table := "Notes", clauses := [all [all [], title], author] }
      { table := "Notes", clauses := [title, author] } rfl rfl rfl rfl .noted

end GraphTables
