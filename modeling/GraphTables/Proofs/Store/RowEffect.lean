import GraphTables.Proofs.Store.Integrity

namespace GraphTables

/-- What a statement does to one row. -/
inductive RowEffect where
  | keep
  | erase
  | write (i : Insert)
deriving DecidableEq

namespace RowEffect

/-- The row afterwards, if there is one. -/
def apply : RowEffect → Option Record → Option Record
  | keep, row => row
  | erase, _ => none
  | write i, row => some (i.overlay (row.getD .empty))

/-- The row after several effects, one after the other. -/
def applyAll : List RowEffect → Option Record → Option Record
  | [], row => row
  | effect :: rest, row => applyAll rest (effect.apply row)

theorem applyAll_append (before after : List RowEffect) (row : Option Record) :
    applyAll (before ++ after) row = applyAll after (applyAll before row) := by
  induction before generalizing row with
  | nil => rfl
  | cons effect rest ih => exact ih _

private theorem applyAll_of_keep {effects : List RowEffect} (h : ∀ e ∈ effects, e = keep)
    (row : Option Record) : applyAll effects row = row := by
  induction effects with
  | nil => rfl
  | cons effect rest ih =>
    rw [List.forall_mem_cons] at h
    obtain ⟨rfl, hrest⟩ := h
    exact ih hrest

/-- After an erasure nothing of the earlier row is left. -/
theorem applyAll_of_erase {effects : List RowEffect} (h : erase ∈ effects) :
    ∃ left, ∀ row, applyAll effects row = left := by
  obtain ⟨before, after, rfl⟩ := List.append_of_mem h
  exact ⟨applyAll after none, fun row => applyAll_append before (erase :: after) row⟩

/-- Without writes no row comes into being. -/
theorem applyAll_none {effects : List RowEffect} (h : ∀ i, write i ∉ effects) :
    applyAll effects none = none := by
  induction effects with
  | nil => rfl
  | cons effect rest ih =>
    have hrest : ∀ i, write i ∉ rest := fun i hi => h i (List.mem_cons_of_mem _ hi)
    cases effect with
    | keep => exact ih hrest
    | erase => exact ih hrest
    | write i => exact absurd List.mem_cons_self (h i)

/-- Without writes a row is either there still or erased. -/
theorem applyAll_of_no_write {effects : List RowEffect} (h : ∀ i, write i ∉ effects)
    (row : Option Record) :
    applyAll effects row = if erase ∈ effects then none else row := by
  split
  next herase =>
    obtain ⟨before, after, rfl⟩ := List.append_of_mem herase
    rw [applyAll_append, applyAll]
    exact applyAll_none fun i hi => h i (by simp [hi])
  next herase =>
    refine applyAll_of_keep (fun e he => ?_) row
    cases e with
    | keep => rfl
    | erase => exact absurd he herase
    | write i => exact absurd he (h i)

/-- Without erasures all cells set stay set: a row is kept as it is, or the texts written last lie over
    its cells. -/
theorem applyAll_of_no_erase {effects : List RowEffect} (h : erase ∉ effects) :
    (∀ row, applyAll effects row = row) ∨
      ∃ written : String → Option String, ∀ row, ∃ left, applyAll effects row = some left ∧
        ∀ column, left.get? column = (written column).or ((row.getD .empty).get? column) := by
  induction effects with
  | nil => exact .inl fun row => rfl
  | cons effect rest ih =>
    rw [List.mem_cons, not_or] at h
    cases effect with
    | keep => exact ih h.2
    | erase => exact absurd rfl h.1
    | write i =>
      right
      rcases ih h.2 with hkeep | ⟨written, hwritten⟩
      · exact ⟨fun column => (i.get? column).map Literal.cell, fun row =>
          ⟨_, hkeep _, fun column => Insert.get?_overlay i _ column⟩⟩
      · refine ⟨fun column => (written column).or ((i.get? column).map Literal.cell), fun row => ?_⟩
        obtain ⟨left, hleft, hcells⟩ := hwritten ((write i).apply row)
        refine ⟨left, hleft, fun column => ?_⟩
        rw [hcells, Option.or_assoc, ← Insert.get?_overlay]
        rfl

/-- Repeating effects changes nothing more. -/
theorem applyAll_applyAll (effects : List RowEffect) (row : Option Record) :
    applyAll effects (applyAll effects row) = applyAll effects row := by
  by_cases herase : erase ∈ effects
  · obtain ⟨left, hleft⟩ := applyAll_of_erase herase
    rw [hleft, hleft]
  · rcases applyAll_of_no_erase herase with hkeep | ⟨written, hwritten⟩
    · exact hkeep _
    · obtain ⟨once, honce, honceCells⟩ := hwritten row
      obtain ⟨twice, htwice, htwiceCells⟩ := hwritten (some once)
      rw [honce, htwice]
      congr 1
      refine SortedMap.ext_get? fun column => ?_
      rw [htwiceCells, Option.getD_some, honceCells, ← Option.or_assoc, Option.or_self]

/-- Effects of which no side writes a row that the other side writes or erases can be exchanged. -/
theorem applyAll_comm {ours theirs : List RowEffect}
    (hours : ∀ i, write i ∈ ours → ∀ e ∈ theirs, e = keep)
    (htheirs : ∀ i, write i ∈ theirs → ∀ e ∈ ours, e = keep) (row : Option Record) :
    applyAll theirs (applyAll ours row) = applyAll ours (applyAll theirs row) := by
  -- Where one side writes, the other does nothing; where neither does, both can only erase.
  by_cases hwrite : ∃ i, write i ∈ ours
  · obtain ⟨i, hi⟩ := hwrite
    rw [applyAll_of_keep (hours i hi), applyAll_of_keep (hours i hi)]
  · by_cases hwrite' : ∃ i, write i ∈ theirs
    · obtain ⟨i, hi⟩ := hwrite'
      rw [applyAll_of_keep (htheirs i hi), applyAll_of_keep (htheirs i hi)]
    · rw [not_exists] at hwrite hwrite'
      simp only [applyAll_of_no_write hwrite, applyAll_of_no_write hwrite']
      split <;> split <;> rfl

end RowEffect

namespace Table

/-- The cell of a key column, as the key of a row tells it. -/
def cellOfKey (t : Table) (key : List String) (column : String) : Option String :=
  (t.schema.primaryKey.zip key).lookup column

/-- What a statement on the table does to the row of a key: an insert writes the row if it is under
    this key, a deletion erases it if its clauses hold of the key. -/
def effect (t : Table) (key : List String) : Statement → RowEffect
  | .insert i => if t.keyOf i = key then .write i else .keep
  | .delete d => if Clause.holdAll (t.cellOfKey key) d.clauses then .erase else .keep
  | .select _ => .keep
  | .batch _ => .keep
  | .raw _ => .keep

private theorem effect_congr {t u : Table} (h : t.schema = u.schema) (key : List String)
    (member : Statement) : t.effect key member = u.effect key member := by
  unfold effect keyOf cellOfKey
  rw [h]

private theorem eq_insert_of_effect {t : Table} {key : List String} {member : Statement} {i : Insert}
    (h : t.effect key member = .write i) : member = .insert i ∧ t.keyOf i = key := by
  cases member with
  | insert j =>
    rw [effect] at h
    split at h
    next hkey =>
      cases h
      exact ⟨rfl, hkey⟩
    next => cases h
  | delete d =>
    rw [effect] at h
    split at h <;> cases h
  | select q => cases h
  | batch members => cases h
  | raw text => cases h

private theorem Intact.get?_eq_cellOfKey {t : Table} (ht : t.Intact) {key : List String} {row : Record}
    (hrow : t.rows.get? key = some row) {column : String} (hcolumn : column ∈ t.schema.primaryKey) :
    row.get? column = t.cellOfKey key column := by
  have hkeyed := ht.keyed key row hrow
  have hlen : key.length = t.schema.primaryKey.length := by
    simpa using (congrArg List.length hkeyed).symm
  unfold cellOfKey
  cases hcell : (t.schema.primaryKey.zip key).lookup column with
  | none =>
    rw [List.lookup_eq_none_iff] at hcell
    obtain ⟨p, hp, rfl⟩ : ∃ p ∈ t.schema.primaryKey.zip key, p.1 = column := by
      rw [← List.map_fst_zip (Nat.le_of_eq hlen.symm)] at hcolumn
      simpa using hcolumn
    simpa using hcell p hp
  | some cell =>
    obtain ⟨before, after, hzip, _⟩ := List.lookup_eq_some_iff.1 hcell
    exact (SortedMap.forall_mem_zip_iff hlen row.get?).2 hkeyed (column, cell) (by simp [hzip])

/-- A row satisfies clauses on key columns exactly if its key does. -/
theorem Intact.satisfies_eq {t : Table} (ht : t.Intact) {key : List String} {row : Record}
    (hrow : t.rows.get? key = some row) {clauses : List Clause}
    (hkey : ∀ r ∈ Clause.restrictionsOf clauses, r.column ∈ t.schema.primaryKey) :
    satisfies clauses row = Clause.holdAll (t.cellOfKey key) clauses := by
  rw [satisfies, Clause.holdAll_eq_all, Clause.holdAll_eq_all, Bool.eq_iff_iff, List.all_eq_true,
    List.all_eq_true]
  refine forall₂_congr fun r hr => ?_
  rw [Restriction.holds, Restriction.holds, ht.get?_eq_cellOfKey hrow (hkey r hr)]

end Table

namespace Store

/-- The row of a key in the table of a name in any spelling. -/
def row? (s : Store) (name : String) (key : List String) : Option Record :=
  (s.tables.get? (Text.lowercase name)).bind fun t => t.rows.get? key

/-- What a statement does to the row of a key in the table of a name in any spelling. -/
def effect (s : Store) (name : String) (key : List String) (member : Statement) : RowEffect :=
  match s.tables.get? (Text.lowercase name) with
  | some t =>
    if member.table?.map Text.lowercase = some (Text.lowercase name) then t.effect key member
    else .keep
  | none => .keep

/-- The deletions among the statements restrict nothing but key columns of their tables. -/
def DeletesByKey (s : Store) (members : List Statement) : Prop :=
  ∀ d, .delete d ∈ members → ∀ t, s.table d.table = .ok t →
    ∀ r ∈ d.restrictions, r.column ∈ t.schema.primaryKey

private theorem effect_congr {s u : Store} (hshape : ∀ name, s.schema? name = u.schema? name) (name : String)
    (key : List String) (member : Statement) : s.effect name key member = u.effect name key member := by
  unfold effect
  cases hs : s.tables.get? (Text.lowercase name) with
  | none => rw [get?_eq_none_of_schema?_eq (hshape name) hs]
  | some t =>
    obtain ⟨t', hu, hschema⟩ := get?_of_schema?_eq (hshape name) hs
    simp only [hu, Table.effect_congr hschema.symm]

private theorem DeletesByKey.congr {s u : Store} (hshape : ∀ name, s.schema? name = u.schema? name)
    {members : List Statement} (h : s.DeletesByKey members) : u.DeletesByKey members := by
  intro d hd t ht
  obtain ⟨t', ht', hschema⟩ := get?_of_schema?_eq (hshape d.table).symm (table_eq_ok_iff.1 ht)
  rw [← hschema]
  exact h d hd t' (table_eq_ok_iff.2 ht')

private theorem effect_of_get? {s : Store} {member : Statement} {named : String} {t : Table}
    (hmember : member.table? = some named)
    (htable : s.tables.get? (Text.lowercase named) = some t) (name : String) (key : List String) :
    s.effect name key member =
      if Text.lowercase named = Text.lowercase name then t.effect key member else .keep := by
  unfold effect
  simp only [hmember, Option.map_some, Option.some.injEq]
  by_cases hname : Text.lowercase named = Text.lowercase name
  · rw [← hname, htable]
  · simp only [if_neg hname]
    cases s.tables.get? (Text.lowercase name) <;> rfl

private theorem row?_of_modifyTable {s : Store} {name : String} {t t' : Table}
    (htable : s.tables.get? (Text.lowercase name) = some t) {query : String} {key : List String}
    {effect : RowEffect} (hrow : t'.rows.get? key = effect.apply (t.rows.get? key)) :
    ({ s with tables := s.tables.insert (Text.lowercase name) t' } : Store).row? query key =
      (if Text.lowercase name = Text.lowercase query then effect else .keep).apply
        (s.row? query key) := by
  unfold row?
  rw [SortedMap.get?_insert]
  by_cases hname : Text.lowercase query = Text.lowercase name
  · rw [if_pos hname, if_pos hname.symm, hname, htable]
    exact hrow
  · rw [if_neg hname, if_neg fun h => hname h.symm]
    rfl

/-- An accepted member does to each row what its effect on the row says, whatever else is stored: whether a
    deletion that restricts key columns only removes a row is decided by the key of the row. -/
theorem row?_of_applyMember {s s' : Store} (hs : s.Intact) {member : Statement}
    (hkey : s.DeletesByKey [member]) (h : s.applyMember member = .ok s') (name : String)
    (key : List String) : s'.row? name key = (s.effect name key member).apply (s.row? name key) := by
  cases member with
  | insert i =>
    obtain ⟨t, t', htable, hinsert, rfl⟩ := modifyTable_eq_ok_iff.1 h
    obtain ⟨_, _, rfl⟩ := Table.insert_eq_ok_iff.1 hinsert
    rw [effect_of_get? rfl htable]
    refine row?_of_modifyTable htable ?_
    rw [Table.get?_write, Table.effect]
    by_cases hunder : t.keyOf i = key
    · rw [if_pos hunder, if_pos hunder.symm, hunder]
      rfl
    · rw [if_neg hunder, if_neg fun heq => hunder heq.symm]
      rfl
  | delete d =>
    obtain ⟨t, t', htable, hdelete, rfl⟩ := modifyTable_eq_ok_iff.1 h
    obtain ⟨_, _, rfl⟩ := Table.delete_eq_ok_iff.1 hdelete
    rw [effect_of_get? rfl htable]
    refine row?_of_modifyTable htable ?_
    rw [Table.get?_remove, Table.effect]
    cases hrow : t.rows.get? key with
    | none => split <;> rfl
    | some row =>
      have hcolumns := hkey d (by simp) t (table_eq_ok_iff.2 htable)
      rw [Option.filter, (hs.tables _ t htable).satisfies_eq hrow hcolumns]
      cases Clause.holdAll (t.cellOfKey key) d.clauses <;> rfl
  | select q => cases h
  | batch members => cases h
  | raw text => cases h

private theorem indexes_of_applyMember {s s' : Store} {member : Statement}
    (h : s.applyMember member = .ok s') : s'.indexes = s.indexes := by
  cases member with
  | insert i =>
    obtain ⟨_, _, _, _, rfl⟩ := modifyTable_eq_ok_iff.1 h
    rfl
  | delete d =>
    obtain ⟨_, _, _, _, rfl⟩ := modifyTable_eq_ok_iff.1 h
    rfl
  | select q => cases h
  | batch members => cases h
  | raw text => cases h

theorem indexes_of_applyMembers {s s' : Store} {members : List Statement}
    (h : s.applyMembers members = .ok s') : s'.indexes = s.indexes := by
  induction members generalizing s with
  | nil =>
    cases h
    rfl
  | cons m rest ih =>
    obtain ⟨s1, hm, hrest⟩ := bind_eq_ok_iff.1 h
    rw [ih hrest, indexes_of_applyMember hm]

/-- An accepted batch does to each row what its members do, one after the other. Their effects can all
    be told before the first of them is applied. -/
theorem row?_of_applyMembers {s s' : Store} (hs : s.Intact) {members : List Statement}
    (hkey : s.DeletesByKey members) (h : s.applyMembers members = .ok s') (name : String)
    (key : List String) :
    s'.row? name key = RowEffect.applyAll (members.map (s.effect name key)) (s.row? name key) := by
  induction members generalizing s with
  | nil =>
    cases h
    rfl
  | cons m rest ih =>
    obtain ⟨s1, hm, hrest⟩ := bind_eq_ok_iff.1 h
    have hshape := schema?_of_applyMember hm
    have hfirst : s.DeletesByKey [m] := fun d hd => hkey d (by simp_all)
    have hlater : s1.DeletesByKey rest :=
      DeletesByKey.congr (fun name => (hshape name).symm) fun d hd => hkey d (List.mem_cons_of_mem _ hd)
    rw [ih (hs.applyMember hm) hlater hrest, row?_of_applyMember hs hfirst hm, List.map_cons,
      RowEffect.applyAll, List.map_congr_left fun n _ => effect_congr hshape name key n]

/-- The effect of an accepted batch on a row, its members' effects told by an earlier store with tables of
    the same shapes. -/
theorem row?_of_applyMembers_later {s s1 s2 : Store} (hs1 : s1.Intact)
    (hshape : ∀ name, s1.schema? name = s.schema? name) {members : List Statement}
    (hkey : s.DeletesByKey members) (h : s1.applyMembers members = .ok s2) (name : String)
    (key : List String) :
    s2.row? name key =
      RowEffect.applyAll (members.map (s.effect name key)) (s1.row? name key) := by
  rw [row?_of_applyMembers hs1 (hkey.congr fun name => (hshape name).symm) h,
    List.map_congr_left fun m _ => effect_congr hshape name key m]

/-- An effect that writes is that of an insert under the key. -/
theorem eq_insert_of_effect {s : Store} {name : String} {key : List String} {member : Statement}
    {i : Insert} (h : s.effect name key member = .write i) :
    member = .insert i ∧ Text.lowercase i.table = Text.lowercase name ∧
      ∃ t, s.table i.table = .ok t ∧ t.keyOf i = key := by
  unfold effect at h
  split at h
  next t htable =>
    split at h
    next hname =>
      obtain ⟨rfl, hkey⟩ := Table.eq_insert_of_effect h
      have hname : Text.lowercase i.table = Text.lowercase name := by
        simpa [Statement.table?] using hname
      exact ⟨rfl, hname, t, table_eq_ok_iff.2 (hname ▸ htable), hkey⟩
    next => cases h
  next => cases h

theorem effect_eq_of_lowercase {s : Store} {name name' : String}
    (h : Text.lowercase name = Text.lowercase name') (key : List String) (member : Statement) :
    s.effect name key member = s.effect name' key member := by
  unfold effect
  rw [h]

/-- The tables of an intact store are under names in small letters. -/
theorem Intact.lowercase_eq {s : Store} (hs : s.Intact) {name : String} {t : Table}
    (h : s.tables.get? name = some t) : Text.lowercase name = name := by
  rw [hs.named name t h, Text.lowercase_lowercase]

/-- Intact stores with tables of the same shapes, the same rows and the same indexes are the same. -/
theorem Intact.ext {s u : Store} (hs : s.Intact) (hu : u.Intact)
    (hshape : ∀ name, s.schema? name = u.schema? name)
    (hrows : ∀ name key, s.row? name key = u.row? name key) (hindexes : s.indexes = u.indexes) :
    s = u := by
  have hget (name : String) : s.tables.get? (Text.lowercase name) =
      u.tables.get? (Text.lowercase name) := by
    have hrow := hrows name
    unfold row? at hrow
    cases hu : u.tables.get? (Text.lowercase name) with
    | none => exact get?_eq_none_of_schema?_eq (hshape name).symm hu
    | some t =>
      obtain ⟨t', hs, heq⟩ := get?_of_schema?_eq (hshape name).symm hu
      have hsame : t'.rows = t.rows := SortedMap.ext_get? fun key => by
        simpa [hs, hu] using hrow key
      obtain ⟨schema, rows⟩ := t
      obtain ⟨schema', rows'⟩ := t'
      cases heq
      cases hsame
      exact hs
  have htables : s.tables = u.tables := by
    refine SortedMap.ext_get? fun name => ?_
    by_cases hname : Text.lowercase name = name
    · exact hname ▸ hget name
    · have hnone {v : Store} (hv : v.Intact) : v.tables.get? name = none :=
        Option.eq_none_iff_forall_ne_some.2 fun t ht => hname (hv.lowercase_eq ht)
      rw [hnone hs, hnone hu]
  obtain ⟨tables, indexes⟩ := s
  obtain ⟨tables', indexes'⟩ := u
  cases htables
  cases hindexes
  rfl

end Store

end GraphTables
