import GraphTables.Proofs.Store.Atomicity

namespace GraphTables

namespace PendingBatch

@[simp] theorem discard_of_empty {b : PendingBatch} (h : b.statements = []) : b.discard = b := by
  obtain ⟨table, statements⟩ := b
  cases h
  rfl

/-- A commit goes through exactly if the session is open and executes the statements as one batch,
    and it empties the batch. -/
theorem commit_eq_ok_iff {b b' : PendingBatch} {session session' : Session} :
    b.commit session = .ok (b', session') ↔
      session.closed = false ∧ (∀ m ∈ b.statements, session.Accepts m) ∧
        session.executeAll b.statements = (session', .ok ()) ∧ b' = b.discard := by
  unfold commit
  split
  next hclosed => simp [hclosed]
  next hopen =>
    have hopen : session.closed = false := by simpa using hopen
    split
    next hempty =>
      have hempty : b.statements = [] := by simpa using hempty
      constructor
      · intro h
        cases h
        exact ⟨hopen, by simp [hempty], by simp [hempty, Session.executeAll],
          (discard_of_empty hempty).symm⟩
      · rintro ⟨_, _, hexecute, rfl⟩
        rw [hempty] at hexecute
        cases hexecute
        rw [discard_of_empty hempty]
    next =>
      cases hresult : session.execute (.batch b.statements) with
      | ok result =>
        obtain ⟨session'', rows⟩ := result
        obtain ⟨haccept, hexecute, _⟩ := (Session.execute_batch_eq_ok_iff hopen).1 hresult
        constructor
        · intro h
          cases h
          exact ⟨hopen, haccept, hexecute, rfl⟩
        · rintro ⟨_, _, hexecute', rfl⟩
          rw [hexecute] at hexecute'
          cases hexecute'
          rfl
      | error e =>
        constructor
        · intro h
          cases h
        · rintro ⟨_, haccept, hexecute, _⟩
          have hok := (Session.execute_batch_eq_ok_iff hopen).2 ⟨haccept, hexecute, rfl⟩
          rw [hok] at hresult
          cases hresult

theorem commit_of_closed {b : PendingBatch} {session : Session} (hclosed : session.closed = true) :
    b.commit session = .error (.commitWhenClosed b.statements.length b.table) := by
  unfold commit
  rw [if_pos hclosed]

theorem commit_of_empty {b : PendingBatch} {session : Session} (hopen : session.closed = false)
    (hempty : b.statements = []) : b.commit session = .ok (b, session) := by
  rw [commit_eq_ok_iff, discard_of_empty hempty, hempty]
  exact ⟨hopen, by simp, rfl, rfl⟩

theorem commit_eq_error_of_open {b : PendingBatch} {session : Session} {e : GraphError}
    (hopen : session.closed = false) (h : b.commit session = .error e) :
    ∃ cause, session.execute (.batch b.statements) = .error cause ∧
      e = .commitFailed (b.statements.map Statement.render) cause := by
  unfold commit at h
  rw [if_neg (by simp [hopen])] at h
  split at h
  · cases h
  · cases hresult : session.execute (.batch b.statements) with
    | ok result =>
      rw [hresult] at h
      cases h
    | error cause =>
      rw [hresult] at h
      cases h
      exact ⟨cause, rfl, rfl⟩

/-- A commit on an open session fails by a statement that the session does not accept. -/
theorem exists_failsBatch_of_commit {b : PendingBatch} {session : Session} {e : GraphError}
    (hopen : session.closed = false) (h : b.commit session = .error e) :
    ∃ m ∈ b.statements, ∃ cause, ¬session.Accepts m ∧ session.FailsBatch m cause ∧
      e = .commitFailed (b.statements.map Statement.render) cause := by
  obtain ⟨cause, hexecute, he⟩ := commit_eq_error_of_open hopen h
  obtain ⟨before, m, after, hstatements, _, hm, hfails⟩ := Session.execute_batch_eq_error hopen hexecute
  exact ⟨m, by simp [hstatements], cause, hm, hfails, he⟩

theorem exists_commit_eq_error_iff {b : PendingBatch} {session : Session}
    (hopen : session.closed = false) :
    (∃ e, b.commit session = .error e) ↔ ¬∀ m ∈ b.statements, session.Accepts m := by
  constructor
  · rintro ⟨e, h⟩ haccept
    obtain ⟨m, hm, _, hrefused, _⟩ := exists_failsBatch_of_commit hopen h
    exact hrefused (haccept m hm)
  · intro hrefused
    cases h : b.commit session with
    | error e => exact ⟨e, rfl⟩
    | ok result => exact absurd (commit_eq_ok_iff.1 h).2.1 hrefused

/-- A batch that the store takes is committed. -/
theorem commit_of_applyMembers {b : PendingBatch} {session : Session} {store : Store}
    (hopen : session.closed = false) (h : session.store.applyMembers b.statements = .ok store) :
    b.commit session = .ok (b.discard, { session with store }) := by
  rw [commit_eq_ok_iff]
  have hexecute : session.execute (.batch b.statements) = .ok ({ session with store }, {}) := by
    rw [Session.execute_batch hopen, h]
    rfl
  obtain ⟨haccept, hall, _⟩ := (Session.execute_batch_eq_ok_iff hopen).1 hexecute
  exact ⟨hopen, haccept, hall, rfl⟩

end PendingBatch

end GraphTables
