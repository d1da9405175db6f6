import GraphTables.Proofs.Store.Mutation
import GraphTables.Workspace

namespace GraphTables

namespace Store

/-- A member goes through alike in stores with tables of the same shapes. -/
theorem applyMember_isOk_congr {s u : Store} (hshape : ∀ name, s.schema? name = u.schema? name)
    (member : Statement) :
    (∃ s', s.applyMember member = .ok s') ↔ ∃ u', u.applyMember member = .ok u' := by
  have herror := applyMember_eq_error_congr hshape member
  cases hs : s.applyMember member with
  | ok s' =>
    cases hu : u.applyMember member with
    | ok u' => simp
    | error e => simpa [hs] using (herror e).2 hu
  | error e =>
    have hu := (herror e).1 hs
    simp [hu]

/-- A batch goes through exactly if the store takes each member as it stands. -/
theorem applyMembers_isOk_iff {s : Store} {members : List Statement} :
    (∃ s', s.applyMembers members = .ok s') ↔
      ∀ m ∈ members, ∃ s', s.applyMember m = .ok s' := by
  induction members generalizing s with
  | nil => simp [applyMembers]
  | cons m rest ih =>
    rw [List.forall_mem_cons]
    constructor
    · rintro ⟨s', hall⟩
      obtain ⟨s1, hm, hrest⟩ := bind_eq_ok_iff.1 hall
      refine ⟨⟨s1, hm⟩, fun m' hm' => ?_⟩
      have hlater := ih.1 ⟨s', hrest⟩ m' hm'
      exact (applyMember_isOk_congr (schema?_of_applyMember hm) m').1 hlater
    · rintro ⟨⟨s1, hm⟩, hrest⟩
      have hlater : ∀ m' ∈ rest, ∃ s', s1.applyMember m' = .ok s' := fun m' hm' =>
        (applyMember_isOk_congr (schema?_of_applyMember hm) m').2 (hrest m' hm')
      obtain ⟨s', hall⟩ := ih.2 hlater
      exact ⟨s', bind_eq_ok_iff.2 ⟨s1, hm, hall⟩⟩

/-- A refused batch fails with the error of its first member that the store refuses as it
    stands. -/
theorem first_refused_of_applyMembers {s : Store} {members : List Statement} {e : StoreError}
    (h : s.applyMembers members = .error e) :
    ∃ before m after, members = before ++ m :: after ∧
      (∀ m' ∈ before, ∃ s', s.applyMember m' = .ok s') ∧ s.applyMember m = .error e := by
  induction members generalizing s with
  | nil => cases h
  | cons m rest ih =>
    rcases bind_eq_error_iff.1 h with hm | ⟨s1, hm, hrest⟩
    · exact ⟨[], m, rest, rfl, by simp, hm⟩
    · obtain ⟨before, bad, after, rfl, hbefore, hbad⟩ := ih hrest
      have hshape := schema?_of_applyMember hm
      refine ⟨m :: before, bad, after, rfl, ?_, (applyMember_eq_error_congr hshape bad e).1 hbad⟩
      rw [List.forall_mem_cons]
      exact ⟨⟨s1, hm⟩, fun m' hm' => (applyMember_isOk_congr hshape m').1 (hbefore m' hm')⟩

end Store

namespace Session

/-- The statement may stand in a batch, and is executed if it comes alone. -/
def Accepts (session : Session) (member : Statement) : Prop :=
  member.isMutation = true ∧ ∃ result, session.execute member = .ok result

/-- The error by which a member makes a batch fail: the one it gets alone, or, if it may not stand in
    a batch at all, a rejection that says so. -/
def FailsBatch (session : Session) (member : Statement) (e : StoreError) : Prop :=
  if member.isMutation then session.execute member = .error e
  else e = .invalid (.notBatchable member.render)

theorem withStore_eq_ok_iff {session session' : Session} {changed : Except StoreError Store}
    {rows : ResultSet} :
    session.withStore changed = .ok (session', rows) ↔
      ∃ store, changed = .ok store ∧ session' = { session with store } ∧ rows = {} := by
  unfold withStore
  rw [map_eq_ok_iff]
  simp only [Prod.mk.injEq, eq_comm]

theorem withStore_eq_error_iff {session : Session} {changed : Except StoreError Store}
    {e : StoreError} : session.withStore changed = .error e ↔ changed = .error e :=
  map_eq_error_iff

/-- A statement that may stand in a batch does alone what it does as a member. -/
theorem execute_eq_applyMember {session : Session} (hopen : session.closed = false)
    {member : Statement} (hmember : member.isMutation = true) :
    session.execute member = session.withStore (session.store.applyMember member) := by
  cases member with
  | insert i => simp [execute, hopen, Store.applyMember]
  | delete d => simp [execute, hopen, Store.applyMember]
  | select q => cases hmember
  | batch members => cases hmember
  | raw text => cases hmember

theorem execute_batch {session : Session} (hopen : session.closed = false)
    (members : List Statement) :
    session.execute (.batch members) = session.withStore (session.store.applyMembers members) := by
  simp [execute, hopen]

/-- A batch is executed exactly if its members are applied to the store, and does nothing else. -/
theorem execute_batch_iff_applyMembers {session session' : Session} (hopen : session.closed = false)
    {members : List Statement} {rows : ResultSet} :
    session.execute (.batch members) = .ok (session', rows) ↔
      session.store.applyMembers members = .ok session'.store ∧ session'.closed = false ∧
        rows = {} := by
  rw [execute_batch hopen, withStore_eq_ok_iff]
  constructor
  · rintro ⟨store, happly, rfl, rfl⟩
    exact ⟨happly, hopen, rfl⟩
  · rintro ⟨happly, hopen', rfl⟩
    refine ⟨session'.store, happly, ?_, rfl⟩
    rw [hopen, ← hopen']

private theorem isMutation_of_applyMember {s s' : Store} {member : Statement}
    (h : s.applyMember member = .ok s') : member.isMutation = true := by
  cases member with
  | insert i => rfl
  | delete d => rfl
  | select q => cases h
  | batch members => cases h
  | raw text => cases h

theorem accepts_iff {session : Session} (hopen : session.closed = false) {member : Statement} :
    session.Accepts member ↔ ∃ s', session.store.applyMember member = .ok s' := by
  constructor
  · rintro ⟨hmember, ⟨session', rows⟩, hresult⟩
    rw [execute_eq_applyMember hopen hmember, withStore_eq_ok_iff] at hresult
    obtain ⟨s', happly, _⟩ := hresult
    exact ⟨s', happly⟩
  · rintro ⟨s', happly⟩
    have hmember := isMutation_of_applyMember happly
    refine ⟨hmember, ({ session with store := s' }, {}), ?_⟩
    rw [execute_eq_applyMember hopen hmember, withStore_eq_ok_iff]
    exact ⟨s', happly, rfl, rfl⟩

theorem failsBatch_iff {session : Session} (hopen : session.closed = false) {member : Statement}
    {e : StoreError} :
    session.FailsBatch member e ↔ session.store.applyMember member = .error e := by
  unfold FailsBatch
  split
  next hmember => rw [execute_eq_applyMember hopen hmember, withStore_eq_error_iff]
  next hmember =>
    cases member with
    | insert i => exact absurd rfl hmember
    | delete d => exact absurd rfl hmember
    | select q => simp [Store.applyMember, eq_comm]
    | batch members => simp [Store.applyMember, eq_comm]
    | raw text => simp [Store.applyMember, eq_comm]

/-- Members that go through as a batch go through one after the other, to the same store. -/
theorem executeAll_of_applyMembers {session : Session} (hopen : session.closed = false)
    {members : List Statement} {s' : Store} (h : session.store.applyMembers members = .ok s') :
    session.executeAll members = ({ session with store := s' }, .ok ()) := by
  induction members generalizing session with
  | nil =>
    cases h
    rfl
  | cons m rest ih =>
    obtain ⟨s1, hm, hrest⟩ := bind_eq_ok_iff.1 h
    have hexecute : session.execute m = .ok ({ session with store := s1 }, {}) := by
      rw [execute_eq_applyMember hopen (isMutation_of_applyMember hm), withStore_eq_ok_iff]
      exact ⟨s1, hm, rfl, rfl⟩
    rw [executeAll, hexecute]
    exact ih hopen hrest

/-- A batch goes through exactly if its members all would alone, and does what they do one after the
    other. -/
theorem execute_batch_eq_ok_iff {session session' : Session} (hopen : session.closed = false)
    {members : List Statement} {rows : ResultSet} :
    session.execute (.batch members) = .ok (session', rows) ↔
      (∀ m ∈ members, session.Accepts m) ∧ session.executeAll members = (session', .ok ()) ∧
        rows = {} := by
  rw [execute_batch hopen, withStore_eq_ok_iff]
  constructor
  · rintro ⟨s', happly, rfl, rfl⟩
    refine ⟨fun m hm => ?_, executeAll_of_applyMembers hopen happly, rfl⟩
    exact (accepts_iff hopen).2 (Store.applyMembers_isOk_iff.1 ⟨s', happly⟩ m hm)
  · rintro ⟨haccept, hexecute, rfl⟩
    have hmembers : ∀ m ∈ members, ∃ s', session.store.applyMember m = .ok s' := fun m hm =>
      (accepts_iff hopen).1 (haccept m hm)
    obtain ⟨s', happly⟩ := Store.applyMembers_isOk_iff.2 hmembers
    rw [executeAll_of_applyMembers hopen happly] at hexecute
    exact ⟨s', happly, (congrArg Prod.fst hexecute).symm, rfl⟩

theorem execute_batch_eq_error {session : Session} (hopen : session.closed = false)
    {members : List Statement} {e : StoreError}
    (h : session.execute (.batch members) = .error e) :
    ∃ before m after, members = before ++ m :: after ∧
      (∀ m' ∈ before, session.Accepts m') ∧ ¬session.Accepts m ∧ session.FailsBatch m e := by
  rw [execute_batch hopen, withStore_eq_error_iff] at h
  obtain ⟨before, m, after, hmembers, hbefore, hm⟩ := Store.first_refused_of_applyMembers h
  refine ⟨before, m, after, hmembers, fun m' hm' => (accepts_iff hopen).2 (hbefore m' hm'), ?_,
    (failsBatch_iff hopen).2 hm⟩
  rw [accepts_iff hopen, hm]
  rintro ⟨s', hok⟩
  cases hok

end Session

/-- On an open session a batch of any statements is accepted exactly if each member is an insert or a
    deletion that the session would execute alone, whatever the others and their order. An accepted
    batch does what its members do one after the other. A refused one leaves the workspace as it was,
    and fails by its first unacceptable member. -/
theorem Workspace.execute_batch_atomic {w : Workspace} (hopen : w.session.closed = false)
    (members : List Statement) :
    ((∃ rows, (w.execute (.batch members)).2 = .ok rows) ↔
        ∀ m ∈ members, w.session.Accepts m) ∧
      (∀ rows, (w.execute (.batch members)).2 = .ok rows →
        w.session.executeAll members = ((w.execute (.batch members)).1.session, .ok ()) ∧
          (w.execute (.batch members)).1.batches = w.batches ∧ rows = {}) ∧
      (∀ e, (w.execute (.batch members)).2 = .error e →
        (w.execute (.batch members)).1 = w ∧
          ∃ before m after, members = before ++ m :: after ∧
            (∀ m' ∈ before, w.session.Accepts m') ∧ ¬w.session.Accepts m ∧
            w.session.FailsBatch m e) := by
  unfold Workspace.execute
  cases hresult : w.session.execute (.batch members) with
  | ok result =>
    obtain ⟨session', rows⟩ := result
    obtain ⟨haccept, hexecute, hrows⟩ := (Session.execute_batch_eq_ok_iff hopen).1 hresult
    refine ⟨⟨fun _ => haccept, fun _ => ⟨rows, rfl⟩⟩, ?_, ?_⟩
    · intro rows' hrows'
      cases hrows'
      exact ⟨hexecute, rfl, hrows⟩
    · intro e he
      cases he
  | error e =>
    obtain ⟨before, m, after, hmembers, hbefore, hm, hfails⟩ :=
      Session.execute_batch_eq_error hopen hresult
    refine ⟨⟨?_, ?_⟩, ?_, ?_⟩
    · rintro ⟨rows, hrows⟩
      cases hrows
    · intro haccept
      exact absurd (haccept m (by simp [hmembers])) hm
    · intro rows hrows
      cases hrows
    · intro e' he'
      cases he'
      exact ⟨rfl, before, m, after, hmembers, hbefore, hm, hfails⟩

/-- A session with one table, of notes by their titles. -/
def Session.notebook : Session :=
  (({} : Session).executeAll
    [.raw "CREATE TABLE Notes(title text, body text, PRIMARY KEY(title));"]).1

/-- A batch of a good insert and a deletion without clauses changes nothing. One of two good inserts and a
    deletion of the first row is executed, and leaves the second row. -/
theorem Workspace.execute_batch_atomic_notebook :
    let w : Workspace := { session := .notebook }
    let note (title body : String) : Statement :=
      .insert ((Insert.into "notes").setAll [("title", .text title), ("body", .text body)])
    let refused := [note "a" "b", .delete ⟨"NOTES", []⟩]
    let accepted := [note "a" "b", note "c" "d", .delete ⟨"NOTES", [.equals "title" "a"]⟩]
    w.session.closed = false ∧
      ((w.execute (.batch refused)).2 = .error (.invalid (.unrestrictedDelete "notes")) ∧
        (w.execute (.batch refused)).1 = w ∧ ¬∀ m ∈ refused, w.session.Accepts m) ∧
      (w.execute (.batch accepted)).2 = .ok {} ∧ (∀ m ∈ accepted, w.session.Accepts m) ∧
        w.session.executeAll accepted = ((w.execute (.batch accepted)).1.session, .ok ()) ∧
        (w.execute (.batch accepted)).1.session.select { table := "notes" } =
          .ok ⟨["title", "body"], [⟨[("title", some "c"), ("body", some "d")]⟩]⟩ := by
  intro w note refused accepted
  have hopen : w.session.closed = false := by decide +kernel
  have herror : (w.execute (.batch refused)).2 = .error (.invalid (.unrestrictedDelete "notes")) := by
    decide +kernel
  have hok : (w.execute (.batch accepted)).2 = .ok {} := by decide +kernel
  obtain ⟨hrefuses, _, hunchanged⟩ := execute_batch_atomic hopen refused
  obtain ⟨haccepts, hexecuted, _⟩ := execute_batch_atomic hopen accepted
  refine ⟨hopen, ⟨herror, (hunchanged _ herror).1, fun hall => ?_⟩, hok, haccepts.1 ⟨_, hok⟩,
    (hexecuted _ hok).1, by decide +kernel⟩
  obtain ⟨rows, hrows⟩ := hrefuses.2 hall
  rw [herror] at hrows
  cases hrows

end GraphTables
