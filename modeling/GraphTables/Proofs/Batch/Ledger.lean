import GraphTables.Workspace

namespace GraphTables

/-- A use of the batches of a workspace, or of its session. -/
inductive BatchAction where
  | add (batch : String) (statement : Statement)
  | extend (batch : String) (statements : List Statement)
  | discard (batch : String)
  | commit (batch : String)
  | close

/-- The statements that the action adds, with the batch they go to. -/
def BatchAction.added : BatchAction → List (String × Statement)
  | add batch statement => [(batch, statement)]
  | extend batch statements => statements.map (batch, ·)
  | discard _ => []
  | commit _ => []
  | close => []

/-- What became of a statement: it waits in its batch, or went with the discard or the successful
    commit of a number. -/
inductive Fate where
  | pending
  | discarded (number : Nat)
  | applied (number : Nat)
deriving DecidableEq

/-- A statement that was added to a batch. -/
structure Addition where
  batch : String
  statement : Statement
  fate : Fate := .pending

/-- All statements added so far, in the order of adding: which batch each went to, and its one fate. -/
abbrev Ledger := List Addition

namespace Ledger

/-- Enter new statements of a batch. -/
def enter (l : Ledger) (batch : String) (statements : List Statement) : Ledger :=
  l ++ statements.map fun s => { batch, statement := s }

/-- Give all waiting statements of a batch a fate. -/
def settle (l : Ledger) (batch : String) (fate : Fate) : Ledger :=
  l.map fun a => if a.batch = batch ∧ a.fate = .pending then { a with fate } else a

/-- The statements of one fate. -/
def withFate (l : Ledger) (fate : Fate) : Ledger := l.filter fun a => a.fate = fate

/-- The statements waiting in a batch. -/
def pendingIn (l : Ledger) (batch : String) : Ledger :=
  l.filter fun a => a.batch = batch ∧ a.fate = .pending

theorem map_statement_enter (l : Ledger) (batch : String) (statements : List Statement) :
    (l.enter batch statements).map (fun a => (a.batch, a.statement)) =
      l.map (fun a => (a.batch, a.statement)) ++ statements.map (batch, ·) := by
  simp [enter, Function.comp_def]

theorem map_statement_settle (l : Ledger) (batch : String) (fate : Fate) :
    (l.settle batch fate).map (fun a => (a.batch, a.statement)) =
      l.map fun a => (a.batch, a.statement) := by
  unfold settle
  rw [List.map_map]
  apply List.map_congr_left
  intro a _
  by_cases ha : a.batch = batch ∧ a.fate = .pending <;> simp [ha]

theorem pendingIn_enter_self (l : Ledger) (batch : String) (statements : List Statement) :
    (l.enter batch statements).pendingIn batch =
      l.pendingIn batch ++ statements.map fun s => { batch, statement := s } := by
  unfold enter pendingIn
  rw [List.filter_append]
  congr 1
  rw [List.filter_eq_self]
  intro a ha
  obtain ⟨s, _, rfl⟩ := List.mem_map.1 ha
  simp

theorem pendingIn_enter_of_ne (l : Ledger) {batch other : String} (hne : other ≠ batch)
    (statements : List Statement) : (l.enter batch statements).pendingIn other = l.pendingIn other := by
  unfold enter pendingIn
  have hnil : (statements.map fun s => ({ batch, statement := s } : Addition)).filter
      (fun a => a.batch = other ∧ a.fate = .pending) = [] := by
    rw [List.filter_eq_nil_iff]
    intro a ha
    obtain ⟨s, _, rfl⟩ := List.mem_map.1 ha
    simp [hne.symm]
  rw [List.filter_append, hnil, List.append_nil]

theorem withFate_enter (l : Ledger) (batch : String) (statements : List Statement) {fate : Fate}
    (hfate : fate ≠ .pending) : (l.enter batch statements).withFate fate = l.withFate fate := by
  unfold enter withFate
  have hnil : (statements.map fun s => ({ batch, statement := s } : Addition)).filter
      (fun a => a.fate = fate) = [] := by
    rw [List.filter_eq_nil_iff]
    intro a ha
    obtain ⟨s, _, rfl⟩ := List.mem_map.1 ha
    simp [hfate.symm]
  rw [List.filter_append, hnil, List.append_nil]

theorem pendingIn_settle_self (l : Ledger) (batch : String) {fate : Fate} (hfate : fate ≠ .pending) :
    (l.settle batch fate).pendingIn batch = [] := by
  unfold settle pendingIn
  rw [List.filter_eq_nil_iff]
  intro a ha
  obtain ⟨a', _, rfl⟩ := List.mem_map.1 ha
  by_cases ha' : a'.batch = batch ∧ a'.fate = .pending
  · simp [ha', hfate]
  · simp [ha']

theorem pendingIn_settle_of_ne (l : Ledger) {batch other : String} (hne : other ≠ batch)
    {fate : Fate} : (l.settle batch fate).pendingIn other = l.pendingIn other := by
  unfold settle pendingIn
  induction l with
  | nil => rfl
  | cons a rest ih =>
    rw [List.map_cons, List.filter_cons, List.filter_cons, ih]
    by_cases ha : a.batch = batch ∧ a.fate = .pending
    · simp [ha, hne.symm]
    · simp [ha]

/-- Settling leaves settled statements alone. -/
theorem withFate_settle_of_ne (l : Ledger) (batch : String) {fate other : Fate}
    (hother : other ≠ .pending) (hne : other ≠ fate) :
    (l.settle batch fate).withFate other = l.withFate other := by
  unfold settle withFate
  induction l with
  | nil => rfl
  | cons a rest ih =>
    rw [List.map_cons, List.filter_cons, List.filter_cons, ih]
    by_cases ha : a.batch = batch ∧ a.fate = .pending
    · simp [ha, hne.symm, hother.symm]
    · simp [ha]

/-- A fate that no statement had yet falls to exactly the statements waiting in the batch. -/
theorem withFate_settle_self (l : Ledger) (batch : String) {fate : Fate}
    (hfresh : l.withFate fate = []) :
    (l.settle batch fate).withFate fate =
      (l.pendingIn batch).map fun a => ⟨batch, a.statement, fate⟩ := by
  unfold settle withFate pendingIn at *
  induction l with
  | nil => rfl
  | cons a rest ih =>
    rw [List.filter_cons] at hfresh
    split at hfresh
    · cases hfresh
    next hfate =>
      rw [List.map_cons, List.filter_cons, List.filter_cons, ih hfresh]
      by_cases ha : a.batch = batch ∧ a.fate = .pending
      · simp [ha]
      · simp [ha, hfate]

/-- The lists tell, one for each number, which statements have the fate of that number, and in which
    batch they had waited. -/
def Records (l : Ledger) (fate : Nat → Fate) (lists : List (String × List Statement)) : Prop :=
  ∀ n, l.withFate (fate n) =
    (lists[n]?).elim [] fun list => list.2.map fun s => ⟨list.1, s, fate n⟩

theorem Records.enter {l : Ledger} {fate : Nat → Fate} {lists : List (String × List Statement)}
    (h : l.Records fate lists) (hfate : ∀ n, fate n ≠ .pending) (batch : String)
    (statements : List Statement) : (l.enter batch statements).Records fate lists := by
  intro n
  rw [withFate_enter l batch statements (hfate n)]
  exact h n

theorem Records.settle_of_ne {l : Ledger} {fate : Nat → Fate}
    {lists : List (String × List Statement)} (h : l.Records fate lists)
    (hfate : ∀ n, fate n ≠ .pending) (batch : String) {other : Fate} (hne : ∀ n, fate n ≠ other) :
    (l.settle batch other).Records fate lists := by
  intro n
  rw [withFate_settle_of_ne l batch (hfate n) (hne n)]
  exact h n

/-- Settling the statements that wait in a batch records them under the next number. -/
theorem Records.settle {l : Ledger} {fate : Nat → Fate} {lists : List (String × List Statement)}
    (h : l.Records fate lists) (hfate : ∀ n, fate n ≠ .pending)
    (hinjective : ∀ m n, fate m = fate n → m = n) {batch : String} {statements : List Statement}
    (hpending : l.pendingIn batch = statements.map fun s => { batch, statement := s }) :
    (l.settle batch (fate lists.length)).Records fate (lists ++ [(batch, statements)]) := by
  intro n
  by_cases hn : n = lists.length
  · subst hn
    have hfresh : l.withFate (fate lists.length) = [] := by
      rw [h lists.length, List.getElem?_eq_none (Nat.le_refl _)]
      rfl
    rw [withFate_settle_self l batch hfresh, hpending]
    simp [Function.comp_def]
  · have hne : fate n ≠ fate lists.length := fun heq => hn (hinjective _ _ heq)
    rw [withFate_settle_of_ne l batch (hfate n) hne, h n]
    congr 1
    by_cases hlt : n < lists.length
    · rw [List.getElem?_append_left hlt]
    · rw [List.getElem?_eq_none (by omega), List.getElem?_eq_none (by simp; omega)]

end Ledger

end GraphTables
