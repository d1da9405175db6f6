import GraphTables.Proofs.Batch.Commit
import GraphTables.Proofs.Batch.Ledger
import GraphTables.Proofs.Store.Integrity

namespace GraphTables

namespace Workspace

theorem batch_insert (w : Workspace) (session : Session) (name query : String) (b : PendingBatch) :
    batch { session, batches := w.batches.insert name b } query =
      if query = name then b else w.batch query := by
  unfold batch
  rw [SortedMap.get?_insert]
  split <;> rfl

private theorem batch_append (w : Workspace) (name query : String) (statements : List Statement) :
    (w.append name statements).batch query =
      if query = name then (w.batch name).append statements else w.batch query :=
  w.batch_insert w.session name query _

private theorem batch_discard (w : Workspace) (name query : String) :
    (w.discard name).batch query = if query = name then (w.batch name).discard else w.batch query :=
  w.batch_insert w.session name query _

/-- A successful commit does to the session what the waiting statements do one after the other, and
    empties its own batch only. -/
theorem commit_eq_ok {w w' : Workspace} {name : String} (h : w.commit name = (w', .ok ())) :
    w.session.closed = false ∧
      w.session.executeAll (w.batch name).statements = (w'.session, .ok ()) ∧
      ∀ query, w'.batch query = if query = name then (w.batch name).discard else w.batch query := by
  unfold commit at h
  cases hcommit : (w.batch name).commit w.session with
  | error e =>
    rw [hcommit] at h
    cases h
  | ok result =>
    obtain ⟨b, session⟩ := result
    rw [hcommit] at h
    cases h
    obtain ⟨hopen, _, hexecute, rfl⟩ := PendingBatch.commit_eq_ok_iff.1 hcommit
    exact ⟨hopen, hexecute, fun query => w.batch_insert session name query _⟩

/-- A failed commit changes nothing. -/
theorem commit_eq_error {w w' : Workspace} {name : String} {e : GraphError}
    (h : w.commit name = (w', .error e)) :
    w' = w ∧ (w.batch name).commit w.session = .error e := by
  unfold commit at h
  cases hcommit : (w.batch name).commit w.session with
  | error e' =>
    rw [hcommit] at h
    cases h
    exact ⟨rfl, rfl⟩
  | ok result =>
    rw [hcommit] at h
    cases h

end Workspace

theorem Session.executeAll_append {session session' : Session} {before : List Statement}
    (h : session.executeAll before = (session', .ok ())) (after : List Statement) :
    session.executeAll (before ++ after) = session'.executeAll after := by
  induction before generalizing session with
  | nil =>
    cases h
    rfl
  | cons s rest ih =>
    rw [executeAll] at h
    rw [List.cons_append, executeAll]
    cases hexecute : session.execute s with
    | error e =>
      rw [hexecute] at h
      cases h
    | ok result =>
      rw [hexecute] at h
      exact ih h

private theorem Session.closed_executeAll (session : Session) (statements : List Statement) :
    (session.executeAll statements).1.closed = session.closed := by
  induction statements generalizing session with
  | nil => rfl
  | cons s rest ih =>
    rw [executeAll]
    cases hexecute : session.execute s with
    | error e => rfl
    | ok result =>
      obtain ⟨session', rows⟩ := result
      have hclosed : session'.closed = session.closed := by
        obtain rfl | ⟨_, _, _, rfl⟩ | ⟨_, _, _, _, _, rfl⟩ := execute_cases hexecute <;> rfl
      rw [← hclosed]
      exact ih session'

/-- A workspace in use, with a ledger of the statements added, and the lists of statements that each
    discard and each successful commit found in its batch. -/
structure BatchRun where
  workspace : Workspace
  ledger : Ledger := []
  discarded : List (String × List Statement) := []
  committed : List (String × List Statement) := []

namespace BatchRun

/-- The beginning: a session, and empty batches for tables. -/
def start (session : Session) (batches : List (String × String)) : BatchRun where
  workspace := batches.foldl (fun w b => w.openBatch b.1 b.2) { session }

def act (r : BatchRun) : BatchAction → BatchRun
  | .add batch statement =>
    { r with
      workspace := r.workspace.append batch [statement]
      ledger := r.ledger.enter batch [statement] }
  | .extend batch statements =>
    { r with
      workspace := r.workspace.append batch statements
      ledger := r.ledger.enter batch statements }
  | .discard batch =>
    { r with
      workspace := r.workspace.discard batch
      ledger := r.ledger.settle batch (.discarded r.discarded.length)
      discarded := r.discarded ++ [(batch, (r.workspace.batch batch).statements)] }
  | .commit batch =>
    match r.workspace.commit batch with
    | (workspace, .ok _) =>
      { r with
        workspace
        ledger := r.ledger.settle batch (.applied r.committed.length)
        committed := r.committed ++ [(batch, (r.workspace.batch batch).statements)] }
    | (workspace, .error _) => { r with workspace }
  | .close => { r with workspace := r.workspace.close }

def run (r : BatchRun) (actions : List BatchAction) : BatchRun := actions.foldl act r

/-- The ledger agrees with the workspace: what waits in a batch, what each discard and each successful
    commit took, and that the commits are all that happened to the store. -/
structure Balanced (session : Session) (r : BatchRun) : Prop where
  pending : ∀ batch, r.ledger.pendingIn batch =
    (r.workspace.batch batch).statements.map fun s => { batch, statement := s }
  discarded : r.ledger.Records .discarded r.discarded
  applied : r.ledger.Records .applied r.committed
  /-- The store is what the committed statements, one by one, make of the store at the start. -/
  store : session.executeAll (r.committed.flatMap (·.2)) =
    ({ session with store := r.workspace.session.store }, .ok ())
  closed : session.closed = true → r.workspace.session.closed = true

private theorem statements_start (session : Session) (batches : List (String × String)) (name : String) :
    ((start session batches).workspace.batch name).statements = [] := by
  have hopen (w : Workspace) (hw : (w.batch name).statements = []) :
      ((batches.foldl (fun w b => w.openBatch b.1 b.2) w).batch name).statements = [] := by
    induction batches generalizing w with
    | nil => exact hw
    | cons b rest ih =>
      apply ih
      unfold Workspace.openBatch
      rw [Workspace.batch, SortedMap.get?_insert]
      split
      · rfl
      · exact hw
  exact hopen { session } rfl

private theorem session_start (session : Session) (batches : List (String × String)) :
    (start session batches).workspace.session = session := by
  have hopen (w : Workspace) :
      (batches.foldl (fun w b => w.openBatch b.1 b.2) w).session = w.session := by
    induction batches generalizing w with
    | nil => rfl
    | cons b rest ih => exact ih _
  exact hopen { session }

private theorem balanced_start (session : Session) (batches : List (String × String)) :
    (start session batches).Balanced session := by
  refine ⟨fun batch => ?_, fun n => rfl, fun n => rfl, ?_, ?_⟩
  · rw [statements_start]
    rfl
  · rw [session_start]
    rfl
  · rw [session_start]
    exact id

private theorem Balanced.enter {session : Session} {r : BatchRun} (h : r.Balanced session) (batch : String)
    (statements : List Statement) :
    Balanced session { r with
      workspace := r.workspace.append batch statements
      ledger := r.ledger.enter batch statements } := by
  refine ⟨fun query => ?_, h.discarded.enter (by simp) batch statements,
    h.applied.enter (by simp) batch statements, h.store, h.closed⟩
  rw [Workspace.batch_append]
  split
  next heq =>
    subst heq
    rw [Ledger.pendingIn_enter_self, h.pending, PendingBatch.append, List.map_append]
  next hne => rw [Ledger.pendingIn_enter_of_ne _ hne, h.pending]

/-- A batch that was emptied has nothing pending, and the other batches have what they had. -/
theorem Balanced.pending_settle {session : Session} {r : BatchRun} (h : r.Balanced session)
    {w : Workspace} {batch : String} {fate : Fate} (hfate : fate ≠ .pending)
    (hw : ∀ query, w.batch query =
      if query = batch then (r.workspace.batch batch).discard else r.workspace.batch query)
    (query : String) : (r.ledger.settle batch fate).pendingIn query =
      (w.batch query).statements.map fun s => { batch := query, statement := s } := by
  rw [hw query]
  split
  next heq =>
    subst heq
    rw [Ledger.pendingIn_settle_self _ _ hfate]
    rfl
  next hne => rw [Ledger.pendingIn_settle_of_ne _ hne, h.pending]

/-- Every action leaves the ledger balanced. -/
theorem Balanced.act {session : Session} {r : BatchRun} (h : r.Balanced session) (a : BatchAction) :
    (r.act a).Balanced session := by
  cases a with
  | add batch statement => exact h.enter batch [statement]
  | extend batch statements => exact h.enter batch statements
  | discard batch =>
    exact ⟨h.pending_settle (by simp) (r.workspace.batch_discard batch),
      h.discarded.settle (by simp) (by simp) (h.pending batch),
      h.applied.settle_of_ne (by simp) batch (by simp), h.store, h.closed⟩
  | commit batch =>
    unfold BatchRun.act
    dsimp only
    split
    next w _ hcommit =>
      obtain ⟨hopen, hexecute, hbatches⟩ := Workspace.commit_eq_ok hcommit
      -- An open session has been open all along, so only its store can have changed.
      have hstart : session.closed = false := by
        refine Bool.eq_false_iff.2 fun hclosed => ?_
        rw [h.closed hclosed] at hopen
        cases hopen
      have hsession : r.workspace.session =
          { session with store := r.workspace.session.store } := by
        rw [hstart, ← hopen]
      have hw : w.session = { session with store := w.session.store } := by
        have hkept := Session.closed_executeAll r.workspace.session
          (r.workspace.batch batch).statements
        rw [hexecute, hopen] at hkept
        rw [hstart, ← hkept]
      refine ⟨h.pending_settle (by simp) hbatches, h.discarded.settle_of_ne (by simp) batch (by simp),
        h.applied.settle (by simp) (by simp) (h.pending batch), ?_, fun hclosed => ?_⟩
      · rw [List.flatMap_append, Session.executeAll_append h.store, ← hsession]
        rw [List.flatMap_singleton, hexecute, ← hw]
      · rw [hstart] at hclosed
        cases hclosed
    next w e hcommit =>
      obtain ⟨rfl, _⟩ := Workspace.commit_eq_error hcommit
      exact h
  | close => exact ⟨h.pending, h.discarded, h.applied, h.store, fun _ => rfl⟩

/-- Every statement added is applied by one successful commit, or is discarded, or still waits, in whatever
    order the batches are used. -/
theorem balanced_run {session : Session} {r : BatchRun} (h : r.Balanced session)
    (actions : List BatchAction) : (r.run actions).Balanced session := by
  induction actions generalizing r with
  | nil => exact h
  | cons a rest ih => exact ih (h.act a)

private theorem additions_act (r : BatchRun) (a : BatchAction) :
    (r.act a).ledger.map (fun a => (a.batch, a.statement)) =
      r.ledger.map (fun a => (a.batch, a.statement)) ++ a.added := by
  cases a with
  | add batch statement => exact Ledger.map_statement_enter _ _ _
  | extend batch statements => exact Ledger.map_statement_enter _ _ _
  | discard batch => simp [act, BatchAction.added, Ledger.map_statement_settle]
  | commit batch =>
    unfold act
    dsimp only
    split <;> simp [BatchAction.added, Ledger.map_statement_settle]
  | close => simp [act, BatchAction.added]

private theorem additions_run (r : BatchRun) (actions : List BatchAction) :
    (r.run actions).ledger.map (fun a => (a.batch, a.statement)) =
      r.ledger.map (fun a => (a.batch, a.statement)) ++ actions.flatMap BatchAction.added := by
  induction actions generalizing r with
  | nil => simp [run]
  | cons a rest ih =>
    rw [run, List.foldl_cons, ← run, ih, additions_act, List.flatMap_cons, List.append_assoc]

/-- Whatever was done with batches on one session, in any order, the ledger of all statements added is
    balanced: each waits in its batch, or was discarded, or was applied by the one commit that took it,
    and nothing else happened to the store. A commit that fails changes nothing, and a commit of
    nothing on an open session succeeds and changes nothing. -/
theorem run_applies_each_once (session : Session) (batches : List (String × String))
    (actions : List BatchAction) :
    let r := (start session batches).run actions
    r.ledger.map (fun a => (a.batch, a.statement)) = actions.flatMap BatchAction.added ∧
      r.Balanced session ∧
      ∀ name,
        let b := r.workspace.batch name
        let (w, result) := r.workspace.commit name
        (∀ e, result = .error e → w = r.workspace ∧
          if r.workspace.session.closed then e = .commitWhenClosed b.statements.length b.table
          else ∃ cause, r.workspace.session.execute (.batch b.statements) = .error cause ∧
            e = .commitFailed (b.statements.map Statement.render) cause) ∧
        (r.workspace.session.closed = true → ∃ e, result = .error e) ∧
        (r.workspace.session.closed = false → b.statements = [] →
          result = .ok () ∧ w.session = r.workspace.session ∧
            ∀ query, w.batch query = r.workspace.batch query) := by
  intro r
  refine ⟨?_, balanced_run (balanced_start session batches) actions, fun name => ?_⟩
  · have hempty : (start session batches).ledger = [] := rfl
    rw [additions_run, hempty]
    rfl
  · intro b
    split
    next w result hcommit =>
      refine ⟨?_, fun hclosed => ?_, fun hopen hempty => ?_⟩
      · rintro e rfl
        obtain ⟨hw, hfailed⟩ := Workspace.commit_eq_error hcommit
        refine ⟨hw, ?_⟩
        split
        next hclosed =>
          rw [PendingBatch.commit_of_closed hclosed] at hfailed
          cases hfailed
          rfl
        next hopen => exact PendingBatch.commit_eq_error_of_open (by simpa using hopen) hfailed
      · refine ⟨.commitWhenClosed b.statements.length b.table, ?_⟩
        rw [Workspace.commit, PendingBatch.commit_of_closed hclosed] at hcommit
        exact (congrArg Prod.snd hcommit).symm
      · have hcommitted := PendingBatch.commit_of_empty hopen hempty
        rw [Workspace.commit, hcommitted] at hcommit
        cases hcommit
        refine ⟨rfl, rfl, fun query => ?_⟩
        rw [Workspace.batch, SortedMap.get?_insert]
        split
        next heq =>
          subst heq
          rfl
        next => rfl

/-- Two batches of notes. The first is committed. The second has a deletion without clauses, so its commit
    fails, and it keeps what it has. After the session is closed nothing can be committed any more. -/
example :
    let session := (({} : Session).executeAll [.raw "CREATE TABLE notes(title text, PRIMARY KEY(title));"]).1
    let note (title : String) : Statement := .insert ((Insert.into "notes").setAll [("title", .text title)])
    let r := (start session [("first", "notes"), ("second", "notes")]).run
      [.add "first" (note "a"), .extend "second" [note "b", .delete ⟨"notes", []⟩], .commit "first",
        .commit "second", .close, .add "first" (note "c"), .commit "first"]
    (r.workspace.session.store.table "notes").map (·.rows.values) = .ok [.ofList [("title", "a")]] ∧
      r.ledger.map (fun a => (a.batch, a.statement.render, a.fate)) =
        [("first", (note "a").render, .applied 0), ("second", (note "b").render, .pending),
          ("second", "DELETE FROM notes;", .pending), ("first", (note "c").render, .pending)] ∧
      (r.workspace.batch "second").statements.map Statement.render =
        ["INSERT INTO notes (title) VALUES ('b');", "DELETE FROM notes;"] := by
  decide +kernel

end BatchRun

end GraphTables
