import GraphTables.Proofs.Store.Integrity
import GraphTables.Proofs.Store.Selection

namespace GraphTables

namespace Literal

/-- Two whole numbers, two texts, or two truth values. -/
inductive SameType : Literal → Literal → Prop where
  | int (i j : Int64) : SameType (.int i) (.int j)
  | text (s t : String) : SameType (.text s) (.text t)
  | bool (b c : Bool) : SameType (.bool b) (.bool c)

/-- The order of the values: of numbers as such, of texts by their code points from the left, and of truth
    values with false before true. -/
inductive Less : Literal → Literal → Prop where
  | int {i j : Int64} : i.toInt < j.toInt → Less (.int i) (.int j)
  | text {s t : String} : s.toList.map Char.toNat < t.toList.map Char.toNat → Less (.text s) (.text t)
  | bool : Less (.bool false) (.bool true)

/-- How the value of a literal stands to that of another. -/
structure HasOrder (a b : Literal) (o : Ordering) : Prop where
  lt : o = .lt ↔ a.Less b
  eq : o = .eq ↔ a = b
  gt : o = .gt ↔ b.Less a

/-- Literals stand to each other as what they are made of does, if it fixes them and is less as they are. -/
theorem hasOrder_of_less {α β : Type} [Ord β] [Std.TransOrd β] [Std.LawfulEqOrd β] (literal : α → Literal)
    (value : α → β) (hequal : ∀ x y, value x = value y ↔ literal x = literal y)
    (hless : ∀ x y, compare (value x) (value y) = .lt ↔ (literal x).Less (literal y)) (x y : α) :
    HasOrder (literal x) (literal y) (compare (value x) (value y)) where
  lt := hless x y
  eq := Std.compare_eq_iff_eq.trans (hequal x y)
  gt := Std.OrientedCmp.gt_iff_lt.trans (hless y x)

private theorem hasOrder_int (i j : Int64) : HasOrder (.int i) (.int j) (compare i.toInt j.toInt) := by
  refine hasOrder_of_less .int Int64.toInt (fun i j => ?_) (fun i j => ?_) i j
  · rw [Int64.toInt_inj, Literal.int.injEq]
  · rw [Std.compare_eq_lt]
    exact ⟨.int, fun | .int h => h⟩

private theorem map_toNat_lt_iff {l m : List Char} : l.map Char.toNat < m.map Char.toNat ↔ l < m := by
  induction l generalizing m with
  | nil => cases m <;> simp
  | cons c l ih =>
    cases m with
    | nil => simp
    | cons d m =>
      rw [List.map_cons, List.map_cons, List.cons_lt_cons_iff, List.cons_lt_cons_iff, ih, Char.toNat_inj]
      rfl

private theorem hasOrder_text (s t : String) : HasOrder (.text s) (.text t) (compare s t) := by
  refine hasOrder_of_less .text id (fun s t => ?_) (fun s t => ?_) s t
  · rw [Literal.text.injEq]
    rfl
  · rw [id, id, compare_text_eq_lt_iff, String.lt_iff, ← map_toNat_lt_iff]
    exact ⟨.text, fun | .text h => h⟩

private theorem hasOrder_bool (b c : Bool) : HasOrder (.bool b) (.bool c) (compare b c) := by
  refine hasOrder_of_less .bool id (fun b c => ?_) (fun b c => ⟨fun h => ?_, fun | .bool => rfl⟩) b c
  · rw [Literal.bool.injEq]
    rfl
  · cases b with
    | false =>
      cases c with
      | false => cases h
      | true => exact .bool
    | true => cases c <;> cases h

/-- Comparing the cell that a literal left with a literal of the same type is comparing their values. -/
theorem exists_hasOrder {a b : Literal} (h : a.SameType b) :
    ∃ o, b.compareCell a.cell = some o ∧ a.HasOrder b o := by
  cases h with
  | int i j =>
    refine ⟨_, ?_, hasOrder_int i j⟩
    rw [compareCell, cell, Numeral.readInt64?_writeInt64, Option.map_some]
  | text s t => exact ⟨_, rfl, hasOrder_text s t⟩
  | bool b c =>
    refine ⟨_, ?_, hasOrder_bool b c⟩
    cases b <;> rfl

end Literal

/-- What a comparison says of two values. -/
def Comparison.Relates (op : Comparison) (a b : Literal) : Prop :=
  match op with
  | eq => a = b
  | gt => b.Less a
  | gte => b.Less a ∨ a = b
  | lt => a.Less b
  | lte => a.Less b ∨ a = b

private theorem Comparison.accepts_iff {a b : Literal} {o : Ordering} (h : a.HasOrder b o) (op : Comparison) :
    op.accepts o = true ↔ op.Relates a b := by
  cases op <;> simp only [Relates, ← h.lt, ← h.eq, ← h.gt] <;> cases o <;> decide

namespace Restriction

/-- The operands are of the type of a literal. -/
def OfType (a : Literal) : Restriction → Prop
  | compare _ _ operand => a.SameType operand
  | oneOf _ operands => ∀ b ∈ operands, a.SameType b

/-- What a restriction says of the value of a literal. -/
def Admits (a : Literal) : Restriction → Prop
  | compare _ op operand => op.Relates a operand
  | oneOf _ operands => a ∈ operands

/-- A restriction holds of the cell that a literal left exactly if what it says of the value is so. -/
theorem acceptsCell_cell_iff {a : Literal} {r : Restriction} (h : r.OfType a) :
    r.acceptsCell a.cell = true ↔ r.Admits a := by
  cases r with
  | compare column op operand =>
    obtain ⟨o, hcompare, horder⟩ := Literal.exists_hasOrder h
    rw [acceptsCell, hcompare, Option.any_some]
    exact op.accepts_iff horder
  | oneOf column operands =>
    rw [acceptsCell, List.any_eq_true]
    constructor
    · rintro ⟨b, hb, hequal⟩
      obtain ⟨o, hcompare, horder⟩ := Literal.exists_hasOrder (h b hb)
      rw [hcompare, beq_iff_eq, Option.some.injEq, horder.eq] at hequal
      exact hequal ▸ hb
    · intro ha
      obtain ⟨o, hcompare, horder⟩ := Literal.exists_hasOrder (h a ha)
      refine ⟨a, ha, ?_⟩
      rw [hcompare, horder.eq.2 rfl, beq_self_eq_true]

end Restriction

namespace Table

variable {t : Table}

private theorem Intact.get?_eq_none (ht : t.Intact) {key : List String} {row : Record}
    (hrow : t.rows.get? key = some row) {column : String} (hcolumn : column ∉ t.schema.columns) :
    row.get? column = none := by
  cases hcell : row.get? column with
  | none => rfl
  | some text => exact absurd (ht.defined key row column text hrow hcell) hcolumn

/-- What is returned of a row tells which row it is. -/
theorem Intact.present_inj (ht : t.Intact) {key key' : List String} {row row' : Record}
    (hrow : t.rows.get? key = some row) (hrow' : t.rows.get? key' = some row') :
    t.present row = t.present row' ↔ row = row' := by
  refine ⟨fun h => SortedMap.ext_get? fun column => ?_, fun h => by rw [h]⟩
  by_cases hcolumn : column ∈ t.schema.columns
  · simp only [present, ResultRow.mk.injEq, List.map_inj_left, Prod.mk.injEq, true_and] at h
    exact h column hcolumn
  · rw [ht.get?_eq_none hrow hcolumn, ht.get?_eq_none hrow' hcolumn]

private theorem Intact.present_mem_iff (ht : t.Intact) {key : List String} {row : Record}
    (hrow : t.rows.get? key = some row) (s : Select) :
    t.present row ∈ (t.selectRecords s).map t.present ↔ row ∈ t.selectRecords s := by
  refine ⟨fun h => ?_, List.mem_map_of_mem⟩
  obtain ⟨other, hother, hpresent⟩ := List.mem_map.1 h
  obtain ⟨e, he, rfl⟩ := List.mem_map.1 (mem_of_mem_selectRecords hother).1
  rw [ht.present_inj (SortedMap.get?_of_mem_entries he) hrow] at hpresent
  rwa [← hpresent]

/-- Under a restriction of a column that a literal was written to, a stored row is selected exactly if what it
    says of the value is so, and the other clauses hold of the row. -/
theorem mem_selectRecords_restricted {s : Select} (hlimit : s.limit = none) {key : List String} {row : Record}
    (hrow : t.rows.get? key = some row) {a : Literal} {r : Restriction}
    (hcell : row.get? r.column = some a.cell) (hr : r.OfType a) :
    row ∈ t.selectRecords { s with clauses := s.clauses ++ [.leaf r] } ↔
      (∀ c ∈ s.clauses, c.holds row.get? = true) ∧ r.Admits a := by
  have hholds : satisfies [.leaf r] row = r.acceptsCell a.cell := by
    simp [satisfies, Clause.holdAll, Clause.holds, Restriction.holds, hcell]
  have hstored : row ∈ t.rows.values :=
    List.mem_map_of_mem (f := Prod.snd) (SortedMap.mem_entries_of_get?_eq_some hrow)
  rw [selectRecords_append t hlimit, List.mem_filter, hholds, Restriction.acceptsCell_cell_iff hr,
    ← satisfies_iff_forall_holds]
  exact and_congr_left fun _ =>
    ⟨fun h => (mem_of_mem_selectRecords h).2, fun h => mem_selectRecords t hlimit hstored h⟩

/-- An insert leaves the cells of its literals in the row of its key. -/
theorem get?_of_insert {t' : Table} {i : Insert} (h : t.insert i = .ok t') :
    ∃ row, t'.rows.get? (t'.keyOf i) = some row ∧
      ∀ column a, i.get? column = some a → row.get? column = some a.cell := by
  obtain ⟨_, _, rfl⟩ := insert_eq_ok_iff.1 h
  have hkey : (t.write i).keyOf i = t.keyOf i := rfl
  refine ⟨_, by rw [get?_write, hkey, if_pos rfl], fun column a ha => ?_⟩
  rw [Insert.get?_overlay, ha, Option.map_some, Option.some_or]

end Table

namespace Session

private theorem table_of_execute_insert {session written : Session} {i : Insert} {rows : ResultSet}
    (h : session.execute (.insert i) = .ok (written, rows)) :
    ∃ t t' : Table, t.insert i = .ok t' ∧ written.store.table i.table = .ok t' := by
  unfold execute at h
  split at h
  · cases h
  · obtain ⟨store, hstore, rfl, _⟩ := withStore_eq_ok_iff.1 h
    obtain ⟨t, t', _, hinsert, rfl⟩ := Store.modifyTable_eq_ok_iff.1 hstore
    refine ⟨t, t', hinsert, ?_⟩
    rw [Store.table_eq_ok_iff, SortedMap.get?_insert, if_pos rfl]

/-- What restrictions say of cells is what they say of the values that were written to them, for numbers in
    the whole range, texts and truth values.

    * Comparing the cell that a value left with a value of the same type is comparing the values.
    * An insert leaves the cells of its values in the row of its key.
    * Under a restriction to values of its type, a row whose cell in the column was left by a value is
      selected exactly if the comparison holds, or the value is in the list, and the other clauses hold. -/
theorem select_typed {session : Session} (hreachable : session.Reachable) :
    (∀ a b : Literal, a.SameType b → ∃ o, b.compareCell a.cell = some o ∧
      (o = .lt ↔ a.Less b) ∧ (o = .eq ↔ a = b) ∧ (o = .gt ↔ b.Less a)) ∧
    (∀ i written rows, session.execute (.insert i) = .ok (written, rows) →
      ∃ t row, written.store.table i.table = .ok t ∧ t.rows.get? (t.keyOf i) = some row ∧
        ∀ column a, i.get? column = some a → row.get? column = some a.cell) ∧
    ∀ s result t key row a r, session.execute (.select s) = .ok (session, result) → s.limit = none →
      session.store.table s.table = .ok t → t.rows.get? key = some row →
      row.get? r.column = some a.cell → r.OfType a →
      ∃ restricted,
        session.execute (.select { s with clauses := s.clauses ++ [.leaf r] }) = .ok (session, restricted) ∧
        (t.present row ∈ restricted.rows ↔
          (∀ c ∈ s.clauses, c.holds row.get? = true) ∧ r.Admits a) := by
  refine ⟨fun a b h => ?_, fun i written rows h => ?_, ?_⟩
  · obtain ⟨o, hcompare, horder⟩ := Literal.exists_hasOrder h
    exact ⟨o, hcompare, horder.lt, horder.eq, horder.gt⟩
  · obtain ⟨_, t, hinsert, htable⟩ := table_of_execute_insert h
    obtain ⟨row, hrow, hcells⟩ := Table.get?_of_insert hinsert
    exact ⟨t, row, htable, hrow, hcells⟩
  · intro s result t key row a r h hlimit htable hrow hcell hr
    have ht := (intact_of_reachable hreachable).1.tables _ t (Store.table_eq_ok_iff.1 htable)
    have hcolumn := ht.defined key row r.column a.cell hrow hcell
    obtain ⟨hopen, _, t', htable', hselect⟩ := execute_select_eq_ok_iff.1 h
    obtain rfl : t = t' := Except.ok.inj (htable.symm.trans htable')
    obtain ⟨hrestrictions, horderings, rfl⟩ := Table.select_eq_ok_iff.1 hselect
    have hrestricted : ∀ r' ∈ Select.restrictions { s with clauses := s.clauses ++ [.leaf r] },
        r'.column ∈ t.schema.columns := by
      intro r' hr'
      rw [Select.restrictions, Clause.restrictionsOf_append, List.mem_append] at hr'
      rcases hr' with hold | hnew
      · exact hrestrictions r' hold
      · obtain rfl : r' = r := by simpa [Clause.restrictionsOf, Clause.restrictions] using hnew
        exact hcolumn
    refine ⟨_, execute_select_eq_ok_iff.2 ⟨hopen, rfl, t, htable,
      Table.select_eq_ok_iff.2 ⟨hrestricted, horderings, rfl⟩⟩, ?_⟩
    rw [ht.present_mem_iff hrow]
    exact Table.mem_selectRecords_restricted hlimit hrow hcell hr

/-- A row with the least and the greatest number in it, under restrictions that it satisfies and others. -/
theorem select_typed_limits :
    let i : Insert := (Insert.into "levels").setAll [("name", .text "é"), ("low", .int Int64.minValue),
      ("high", .int Int64.maxValue), ("flag", .bool false)]
    let session := (({} : Session).executeAll
      [.raw "CREATE TABLE Levels(name text, low bigint, high bigint, flag boolean, PRIMARY KEY(name));",
        .insert i]).1
    let row : Record := .ofList [("name", "é"), ("low", "-9223372036854775808"),
      ("high", "9223372036854775807"), ("flag", "false")]
    let t : Table := ⟨⟨"levels", ["name", "low", "high", "flag"], ["name"], []⟩, .ofList [(["é"], row)]⟩
    let selected (r : Restriction) : Prop :=
      ∃ result,
        session.execute (.select { table := "Levels", clauses := [.leaf r] }) = .ok (session, result) ∧
          t.present row ∈ result.rows
    session.Reachable ∧ session.store.table "Levels" = .ok t ∧
      selected (.compare "low" .lt (.int (Int64.minValue + 1))) ∧
      selected (.oneOf "high" [.int 0, .int Int64.maxValue]) ∧
      selected (.compare "name" .gt (.text "z")) ∧ ¬selected (.compare "high" .lte (.int 9)) ∧
      ¬selected (.compare "flag" .gt (.bool false)) := by
  intro i session row t selected
  have hreachable : session.Reachable := Reachable.new.executeAll _
  have hsession : session = { store := { tables := .ofList [("levels", t)] } } := by decide +kernel
  have htable : session.store.table "Levels" = .ok t := by
    rw [hsession]
    decide +kernel
  have hall : session.execute (.select { table := "Levels" }) =
      .ok (session, ⟨["name", "low", "high", "flag"], [t.present row]⟩) := by
    rw [hsession]
    decide +kernel
  have hrow : t.rows.get? ["é"] = some row := by decide +kernel
  have hselected (a : Literal) (r : Restriction) (hcell : row.get? r.column = some a.cell)
      (hr : r.OfType a) : selected r ↔ r.Admits a := by
    obtain ⟨_, _, hrestrict⟩ := select_typed hreachable
    obtain ⟨restricted, hexecute, hiff⟩ := hrestrict _ _ t _ row a r hall rfl htable hrow hcell hr
    have hadmits : t.present row ∈ restricted.rows ↔ r.Admits a :=
      hiff.trans (and_iff_right fun c hc => absurd hc List.not_mem_nil)
    refine ⟨?_, fun ha => ⟨restricted, hexecute, hadmits.2 ha⟩⟩
    rintro ⟨result, hresult, hmem⟩
    have hsame := hexecute.symm.trans hresult
    rw [Except.ok.injEq, Prod.mk.injEq] at hsame
    exact hadmits.1 (hsame.2 ▸ hmem)
  have hcompare {column : String} {op : Comparison} {a b : Literal}
      (hcell : row.get? column = some a.cell) (h : a.SameType b) :
      selected (.compare column op b) ↔ op.Relates a b := hselected a (.compare column op b) hcell h
  have hlow : row.get? "low" = some (Literal.int Int64.minValue).cell := by decide +kernel
  have hhigh : row.get? "high" = some (Literal.int Int64.maxValue).cell := by decide +kernel
  have hname : row.get? "name" = some (Literal.text "é").cell := by decide +kernel
  have hflag : row.get? "flag" = some (Literal.bool false).cell := by decide +kernel
  refine ⟨hreachable, htable, ?_, ?_, ?_, ?_, ?_⟩
  · exact (hcompare hlow (.int _ _)).2 (.int (by decide))
  · refine (hselected _ (.oneOf "high" _) hhigh ?_).2 (by simp [Restriction.Admits])
    simp [Restriction.OfType, Literal.SameType.int]
  · exact (hcompare hname (.text _ _)).2 (.text (by decide))
  · rw [hcompare hhigh (.int _ _)]
    rintro (hless | hequal)
    · cases hless with
      | int h => exact absurd h (by decide)
    · exact absurd hequal (by decide)
  · rw [hcompare hflag (.bool _ _)]
    exact nofun

end Session

end GraphTables
