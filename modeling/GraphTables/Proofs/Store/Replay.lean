import GraphTables.Proofs.Store.Deletion
import GraphTables.Proofs.Store.RowEffect

namespace GraphTables

namespace Store

variable {s : Store} {ours theirs : List Statement}

private theorem applyMembers_isOk_congr {u : Store} (hshape : ∀ name, s.schema? name = u.schema? name)
    {members : List Statement} (h : ∃ s', s.applyMembers members = .ok s') :
    ∃ u', u.applyMembers members = .ok u' :=
  applyMembers_isOk_iff.2 fun m hm =>
    (applyMember_isOk_congr hshape m).1 (applyMembers_isOk_iff.1 h m hm)

/-- None of the members inserts under a key, or deletes a key, that an insert of the batch is under. -/
def Spares (s : Store) (members batch : List Statement) : Prop :=
  ∀ i, .insert i ∈ batch → ∀ t, s.table i.table = .ok t →
    ∀ m ∈ members, s.effect i.table (t.keyOf i) m = .keep

private theorem Spares.keep_of_write {members batch : List Statement} (h : s.Spares members batch)
    {name : String} {key : List String} {i : Insert}
    (hwrite : .write i ∈ batch.map (s.effect name key)) :
    ∀ e ∈ members.map (s.effect name key), e = .keep := by
  obtain ⟨m, hm, heffect⟩ := List.mem_map.1 hwrite
  obtain ⟨rfl, hname, t, ht, rfl⟩ := eq_insert_of_effect heffect
  rw [List.forall_mem_map]
  intro m' hm'
  rw [← effect_eq_of_lowercase hname]
  exact h i hm t ht m' hm'

/-- A batch that was applied once can be applied again, and changes nothing then. -/
theorem applyMembers_again (hs : s.Intact) {members : List Statement} (hkey : s.DeletesByKey members)
    {s' : Store} (h : s.applyMembers members = .ok s') : s'.applyMembers members = .ok s' := by
  have hshape := schema?_of_applyMembers h
  have hs' := hs.applyMembers h
  obtain ⟨s2, hagain⟩ := applyMembers_isOk_congr (fun name => (hshape name).symm) ⟨s', h⟩
  -- All effects are told by the first store, so the second time adds the same effects to each row.
  suffices hsame : s2 = s' by rwa [hsame] at hagain
  refine (hs'.applyMembers hagain).ext hs' (schema?_of_applyMembers hagain) (fun name key => ?_)
    (indexes_of_applyMembers hagain)
  rw [row?_of_applyMembers_later hs' hshape hkey hagain, row?_of_applyMembers hs hkey h,
    RowEffect.applyAll_applyAll]

/-- Of two batches that the store takes and that spare each other's inserts, each can be applied after
    the other, and both orders lead to the same store. -/
theorem applyMembers_comm (hs : s.Intact) (hkey : s.DeletesByKey ours)
    (hkey' : s.DeletesByKey theirs) (hspare : s.Spares theirs ours) (hspare' : s.Spares ours theirs)
    {s1 s2 : Store} (hours : s.applyMembers ours = .ok s1) (htheirs : s.applyMembers theirs = .ok s2) :
    ∃ both, s1.applyMembers theirs = .ok both ∧ s2.applyMembers ours = .ok both := by
  have hshape1 := schema?_of_applyMembers hours
  have hshape2 := schema?_of_applyMembers htheirs
  have hs1 := hs.applyMembers hours
  have hs2 := hs.applyMembers htheirs
  obtain ⟨s12, h12⟩ := applyMembers_isOk_congr (fun name => (hshape1 name).symm) ⟨s2, htheirs⟩
  obtain ⟨s21, h21⟩ := applyMembers_isOk_congr (fun name => (hshape2 name).symm) ⟨s1, hours⟩
  suffices hsame : s21 = s12 from ⟨s12, h12, hsame ▸ h21⟩
  refine (hs2.applyMembers h21).ext (hs1.applyMembers h12) (fun name => ?_) (fun name key => ?_) ?_
  · rw [schema?_of_applyMembers h21, schema?_of_applyMembers h12, hshape1, hshape2]
  · rw [row?_of_applyMembers_later hs2 hshape2 hkey h21, row?_of_applyMembers hs hkey' htheirs,
      row?_of_applyMembers_later hs1 hshape1 hkey' h12, row?_of_applyMembers hs hkey hours]
    exact RowEffect.applyAll_comm (fun _ => hspare'.keep_of_write) (fun _ => hspare.keep_of_write) _
  · rw [indexes_of_applyMembers h21, indexes_of_applyMembers h12, indexes_of_applyMembers hours,
      indexes_of_applyMembers htheirs]

end Store

namespace Session

variable {session : Session}

/-- A batch that an open session has executed, with deletions on key columns only, is executed a second
    time without a change. A deletion on another column may find a row the first time and not the second. -/
theorem execute_batch_again (hreach : session.Reachable) (hopen : session.closed = false)
    {members : List Statement} (hkey : session.store.DeletesByKey members) {session' : Session}
    {rows : ResultSet} (h : session.execute (.batch members) = .ok (session', rows)) :
    session'.execute (.batch members) = .ok (session', {}) := by
  obtain ⟨happly, hopen', _⟩ := (execute_batch_iff_applyMembers hopen).1 h
  have hagain := Store.applyMembers_again (intact_of_reachable hreach).1 hkey happly
  exact (execute_batch_iff_applyMembers hopen').2 ⟨hagain, hopen', rfl⟩

private theorem table_noted {name : String} (hname : Text.lowercase name = "notes") {t : Table}
    (h : Session.noted.store.table name = .ok t) :
    t = ⟨⟨"notes", ["title", "body"], ["title"], []⟩,
      SortedMap.empty.insert ["a"] (.ofList [("title", "a"), ("body", "b")])⟩ := by
  rw [Store.table_eq_ok_iff, hname] at h
  exact Option.some.inj (h.symm.trans (by decide +kernel))

/-- A note comes in the place of two notes, one of which is its own earlier form. -/
theorem execute_batch_again_noted :
    let note : Insert := (Insert.into "Notes").setAll [("title", .text "b"), ("body", .text "c")]
    let byTitle : Delete := ⟨"NOTES", [.leaf (.oneOf "title" [.text "a", .text "b"])]⟩
    let members : List Statement := [.insert note, .delete byTitle, .insert note]
    ∃ session', Session.noted.execute (.batch members) = .ok (session', {}) ∧
      session' ≠ Session.noted ∧ session'.execute (.batch members) = .ok (session', {}) := by
  intro note byTitle members
  have hkey : Session.noted.store.DeletesByKey members := by
    intro d hd t ht r hr
    obtain rfl : d = byTitle := by simpa [members] using hd
    obtain rfl : r = .oneOf "title" [.text "a", .text "b"] := List.mem_singleton.1 hr
    rw [table_noted (by decide +kernel) ht]
    decide
  have hchange : ((Session.noted.execute (.batch members)).map fun result =>
      decide (result.1 = Session.noted)) = .ok false := by decide +kernel
  obtain ⟨⟨session', rows⟩, h, hne⟩ := map_eq_ok_iff.1 hchange
  obtain ⟨_, _, rfl⟩ := (execute_batch_iff_applyMembers rfl).1 h
  exact ⟨session', h, of_decide_eq_false hne, execute_batch_again reachable_noted rfl hkey h⟩

/-- The row that this batch deletes the first time has no body any more when it comes a second time. -/
example :
    let title : Insert := (Insert.into "notes").setAll [("title", .text "a")]
    let byBody : Delete := ⟨"notes", [.leaf (.compare "body" .eq (.text "b"))]⟩
    let batch : Statement := .batch [.insert title, .delete byBody]
    (Session.noted.executeAll [batch]).1.rowCount "notes" = .ok 0 ∧
      (Session.noted.executeAll [batch, batch]).1.rowCount "notes" = .ok 1 := by decide +kernel

/-- Two batches that an open session would execute, with deletions on key columns only, neither of which
    inserts a key that the other inserts or deletes, are both executed in either order, and lead to the
    same session. -/
theorem execute_batch_comm (hreach : session.Reachable) (hopen : session.closed = false)
    {ours theirs : List Statement} (hkey : session.store.DeletesByKey ours)
    (hkey' : session.store.DeletesByKey theirs) (hspare : session.store.Spares theirs ours)
    (hspare' : session.store.Spares ours theirs) {session1 session2 : Session} {rows1 rows2 : ResultSet}
    (hours : session.execute (.batch ours) = .ok (session1, rows1))
    (htheirs : session.execute (.batch theirs) = .ok (session2, rows2)) :
    ∃ both, session1.execute (.batch theirs) = .ok (both, {}) ∧
      session2.execute (.batch ours) = .ok (both, {}) := by
  obtain ⟨hours, hopen1, _⟩ := (execute_batch_iff_applyMembers hopen).1 hours
  obtain ⟨htheirs, hopen2, _⟩ := (execute_batch_iff_applyMembers hopen).1 htheirs
  obtain ⟨store, h12, h21⟩ := Store.applyMembers_comm (intact_of_reachable hreach).1 hkey hkey' hspare
    hspare' hours htheirs
  exact ⟨⟨store, false⟩, (execute_batch_iff_applyMembers hopen1).2 ⟨h12, rfl, rfl⟩,
    (execute_batch_iff_applyMembers hopen2).2 ⟨h21, rfl, rfl⟩⟩

/-- Two writers add a note each, and both delete a third note. -/
theorem execute_batch_comm_noted :
    let note (title : String) : Statement := .insert ((Insert.into "notes").setAll [("title", .text title)])
    let wipe : Statement := .delete ⟨"NOTES", [.leaf (.compare "title" .eq (.text "a"))]⟩
    let ours : List Statement := [note "b", wipe]
    let theirs : List Statement := [wipe, note "c"]
    ∃ session1 session2 both, Session.noted.execute (.batch ours) = .ok (session1, {}) ∧
      Session.noted.execute (.batch theirs) = .ok (session2, {}) ∧ session1 ≠ session2 ∧
      session1.execute (.batch theirs) = .ok (both, {}) ∧
      session2.execute (.batch ours) = .ok (both, {}) := by
  intro note wipe ours theirs
  have hsmall : Text.lowercase "notes" = "notes" := by decide +kernel
  have hkey {members : List Statement} (hmembers : ∀ d, .delete d ∈ members → .delete d = wipe) :
      Session.noted.store.DeletesByKey members := by
    intro d hd t ht r hr
    obtain rfl := Statement.delete.inj (hmembers d hd)
    obtain rfl : r = .compare "title" .eq (.text "a") := List.mem_singleton.1 hr
    rw [table_noted (by decide +kernel) ht]
    decide
  have hspare (title : String) {members batch : List Statement}
      (hbatch : ∀ i, .insert i ∈ batch → .insert i = note title)
      (hmembers : ∀ m ∈ members, Session.noted.store.effect "notes" [title] m = .keep) :
      Session.noted.store.Spares members batch := by
    intro i hi t ht
    obtain rfl := Statement.insert.inj (hbatch i hi)
    rw [table_noted hsmall ht]
    exact hmembers
  have hours : Session.noted.store.DeletesByKey ours := hkey (by simp [ours, note, wipe])
  have htheirs : Session.noted.store.DeletesByKey theirs := hkey (by simp [theirs, note, wipe])
  have hspares : Session.noted.store.Spares theirs ours :=
    hspare "b" (by simp [ours, note, wipe]) (by decide +kernel)
  have hspared : Session.noted.store.Spares ours theirs :=
    hspare "c" (by simp [theirs, note, wipe]) (by decide +kernel)
  have hchange : ((Session.noted.execute (.batch ours)).bind fun result =>
      (Session.noted.execute (.batch theirs)).map fun result' =>
        decide (result.1 = result'.1)) = .ok false := by decide +kernel
  obtain ⟨⟨session1, rows1⟩, h1, h⟩ := bind_eq_ok_iff.1 hchange
  obtain ⟨⟨session2, rows2⟩, h2, hne⟩ := map_eq_ok_iff.1 h
  obtain ⟨_, _, rfl⟩ := (execute_batch_iff_applyMembers rfl).1 h1
  obtain ⟨_, _, rfl⟩ := (execute_batch_iff_applyMembers rfl).1 h2
  obtain ⟨both, h12, h21⟩ :=
    execute_batch_comm reachable_noted rfl hours htheirs hspares hspared h1 h2
  exact ⟨session1, session2, both, h1, h2, of_decide_eq_false hne, h12, h21⟩

end Session

end GraphTables
