import GraphTables.Proofs.Layout.Decoding
import Mathlib.Data.List.Nodup

namespace GraphTables

open Text

namespace ResultRow

/-- The cells, with small ASCII letters in the names. -/
def folded (r : ResultRow) : List (List Char × Option String) :=
  r.cells.map fun cell => (foldAscii cell.1.toList, cell.2)

/-- No two cells have one name in any case of its ASCII letters. -/
def DistinctNames (r : ResultRow) : Prop :=
  r.cells.Pairwise fun a b => sameIgnoringCase a.1 b.1 = false

/-- The rows have the same cells, up to their order and the case of ASCII letters in their names. -/
def Rearranges (r s : ResultRow) : Prop := r.folded.Perm s.folded

instance (r : ResultRow) : Decidable r.DistinctNames :=
  inferInstanceAs (Decidable (r.cells.Pairwise fun a b => sameIgnoringCase a.1 b.1 = false))

instance (r s : ResultRow) : Decidable (r.Rearranges s) :=
  inferInstanceAs (Decidable (r.folded.Perm s.folded))

/-- A cell under the name of the column, in any case of its ASCII letters, is set to the text. -/
def Holds (r : ResultRow) (c : Column) (text : String) : Prop :=
  ∃ name, sameIgnoringCase c.text name = true ∧ (name, some text) ∈ r.cells

variable {r s : ResultRow}

private theorem distinctNames_iff : r.DistinctNames ↔ (r.folded.map (·.1)).Nodup := by
  simp only [DistinctNames, List.Nodup, folded, List.pairwise_map, sameIgnoringCase, beq_eq_false_iff_ne]

private theorem holds_iff {c : Column} {text : String} :
    r.Holds c text ↔ (foldAscii c.text.toList, some text) ∈ r.folded := by
  simp only [Holds, folded, List.mem_map, sameIgnoringCase, beq_iff_eq]
  constructor
  · rintro ⟨name, hname, hmem⟩
    exact ⟨(name, some text), hmem, by rw [hname]⟩
  · rintro ⟨⟨name, text'⟩, hmem, hcell⟩
    obtain ⟨hname, rfl⟩ := Prod.mk.inj hcell
    exact ⟨name, hname.symm, hmem⟩

namespace Rearranges

theorem symm (h : r.Rearranges s) : s.Rearranges r := List.Perm.symm h

private theorem distinctNames (h : r.Rearranges s) (hr : r.DistinctNames) : s.DistinctNames := by
  rw [distinctNames_iff] at hr ⊢
  exact (h.map _).nodup_iff.1 hr

private theorem holds_iff (h : r.Rearranges s) {c : Column} {text : String} :
    r.Holds c text ↔ s.Holds c text := by
  rw [ResultRow.holds_iff, ResultRow.holds_iff]
  exact h.mem_iff

end Rearranges

/-- Of distinct names, one that is looked up has at most one cell. -/
theorem DistinctNames.get?_eq_some_iff (h : r.DistinctNames) {c : Column} {text : String} :
    r.get? c.text = some text ↔ r.Holds c text := by
  rw [get?, Option.bind_eq_some_iff]
  constructor
  · rintro ⟨⟨name, text'⟩, hfind, rfl⟩
    have hsame := List.find?_some hfind
    rw [sameIgnoringCase_comm] at hsame
    exact ⟨name, hsame, List.mem_of_find?_eq_some hfind⟩
  · rintro ⟨name, hname, hmem⟩
    rw [sameIgnoringCase_comm] at hname
    obtain ⟨cell, hfind⟩ : ∃ cell, (r.cells.find? fun cell => sameIgnoringCase cell.1 c.text) = some cell :=
      Option.isSome_iff_exists.1 (List.find?_isSome.2 ⟨(name, some text), hmem, hname⟩)
    have hfound := List.find?_some hfind
    have hcell : foldAscii cell.1.toList = foldAscii name.toList :=
      (eq_of_beq hfound).trans (eq_of_beq hname).symm
    rw [distinctNames_iff, folded, List.map_map] at h
    obtain rfl : cell = (name, some text) :=
      List.inj_on_of_nodup_map h (List.mem_of_find?_eq_some hfind) hmem hcell
    exact ⟨_, hfind, rfl⟩

end ResultRow

namespace Layout

variable {l : Layout} {r s : ResultRow} {e e' : Element}

/-- The element has the texts that the row holds in columns without properties. It has a property exactly if
    the row holds a text in the column of its key; the value of the property is the text in the column of
    its value, or the empty text if there is none. -/
structure ReadsAs (l : Layout) (r : ResultRow) (e : Element) : Prop where
  kind : e.kind = l.kind
  columns : ∀ c text, e.columns.get? c = some text ↔
    c ∈ l.columns ∧ l.roleOf c = .scalar ∧ r.Holds c text
  property : ∀ p, e.cells = [p] ↔
    l.cell = some (p.nameColumn, p.valueColumn) ∧ r.Holds p.nameColumn p.name ∧
      (r.Holds p.valueColumn p.value ∨ (∀ text, ¬r.Holds p.valueColumn text) ∧ p.value = "")
  noProperty : e.cells = [] ↔
    ∀ nameColumn valueColumn, l.cell = some (nameColumn, valueColumn) → ∀ text, ¬r.Holds nameColumn text

/-- The texts that a row holds fix the element. -/
theorem ReadsAs.unique (h : l.ReadsAs r e) (h' : l.ReadsAs r e') : e = e' := by
  have hkind : e.kind = e'.kind := h.kind.trans h'.kind.symm
  have hcolumns : e.columns = e'.columns := by
    apply SortedMap.ext_get?
    intro c
    apply Option.ext
    intro text
    rw [h.columns, h'.columns]
  have hcells : e.cells = e'.cells := by
    by_cases hnone : e.cells = []
    · rw [hnone, h'.noProperty.2 (h.noProperty.1 hnone)]
    · -- The row has a text in the column of a key, and this text and its partner are the property of both.
      rw [h.noProperty] at hnone
      push Not at hnone
      obtain ⟨nameColumn, valueColumn, hcell, name, hname⟩ := hnone
      obtain ⟨value, hvalue⟩ : ∃ value, r.Holds valueColumn value ∨
          (∀ text, ¬r.Holds valueColumn text) ∧ value = "" := by
        by_cases hset : ∃ text, r.Holds valueColumn text
        · exact hset.imp fun _ => .inl
        · exact ⟨"", .inr ⟨not_exists.1 hset, rfl⟩⟩
      rw [(h.property ⟨nameColumn, name, valueColumn, value⟩).2 ⟨hcell, hname, hvalue⟩,
        (h'.property ⟨nameColumn, name, valueColumn, value⟩).2 ⟨hcell, hname, hvalue⟩]
  cases e
  cases e'
  rw [Element.mk.injEq]
  exact ⟨hkind, hcolumns, hcells⟩

private theorem ReadsAs.of_rearranges (h : l.ReadsAs r e) (hrows : r.Rearranges s) : l.ReadsAs s e where
  kind := h.kind
  columns c text := by rw [h.columns, hrows.holds_iff]
  property p := by simp only [h.property, hrows.holds_iff]
  noProperty := by simp only [h.noProperty, hrows.holds_iff]

/-- A table has all columns of a row or not, however the row is arranged. -/
theorem forall_knows_iff (h : r.Rearranges s) :
    (∀ cell ∈ r.cells, l.Knows cell.1) ↔ ∀ cell ∈ s.cells, l.Knows cell.1 := by
  have hfolded (r : ResultRow) : (∀ cell ∈ r.cells, l.Knows cell.1) ↔
      ∀ cell ∈ r.folded, ∃ c ∈ l.columns, foldAscii c.text.toList = cell.1 := by
    simp only [ResultRow.folded, List.forall_mem_map, Knows, sameIgnoringCase, beq_iff_eq]
  rw [hfolded, hfolded]
  simp only [h.mem_iff]

private theorem scalarOfCell_eq_some_iff {cell : String × Option String} {c : Column} {text : String} :
    l.scalarOfCell cell = some (c, text) ↔
      l.roleOf c = .scalar ∧ sameIgnoringCase c.text cell.1 = true ∧ cell.2 = some text := by
  unfold scalarOfCell
  rw [Option.bind_eq_some_iff]
  simp only [Column.ofText?_eq_some_iff]
  constructor
  · rintro ⟨d, hd, h⟩
    split at h
    next hrole =>
      obtain ⟨text', htext, heq⟩ := Option.map_eq_some_iff.1 h
      cases heq
      exact ⟨hrole, hd, htext⟩
    · cases h
    · cases h
  · rintro ⟨hrole, hc, htext⟩
    refine ⟨c, hc, ?_⟩
    rw [hrole, htext]
    rfl

private theorem propertyOfCell_eq_some_iff {cell : String × Option String} {p : Property} :
    l.propertyOfCell r cell = some p ↔
      l.cell = some (p.nameColumn, p.valueColumn) ∧
        sameIgnoringCase p.nameColumn.text cell.1 = true ∧ cell.2 = some p.name ∧
        (r.get? p.valueColumn.text).getD "" = p.value := by
  unfold propertyOfCell
  rw [Option.bind_eq_some_iff]
  simp only [Column.ofText?_eq_some_iff]
  constructor
  · rintro ⟨c, hc, h⟩
    split at h
    next valueColumn hrole =>
      obtain ⟨name, hname, rfl⟩ := Option.map_eq_some_iff.1 h
      exact ⟨roleOf_eq_cellName_iff.1 hrole, hc, hname, rfl⟩
    · cases h
    · cases h
  · rintro ⟨hcell, hc, hname, hvalue⟩
    refine ⟨p.nameColumn, hc, ?_⟩
    rw [roleOf_eq_cellName_iff.2 hcell, hname]
    dsimp only
    rw [hvalue]
    rfl

/-- The column of a known name is a column of the table. -/
theorem Knows.mem_columns {name : String} (h : l.Knows name) {c : Column}
    (hc : sameIgnoringCase c.text name = true) : c ∈ l.columns := by
  obtain ⟨d, hd, hname⟩ := h
  have hsame : sameIgnoringCase c.text d.text = true :=
    beq_iff_eq.2 ((eq_of_beq hc).trans (eq_of_beq hname).symm)
  rwa [Column.eq_of_sameIgnoringCase hsame]

/-- Two names of one column differ at most in the case of ASCII letters. -/
theorem sameIgnoringCase_of_column {c : Column} {a b : String} (ha : sameIgnoringCase c.text a = true)
    (hb : sameIgnoringCase c.text b = true) : sameIgnoringCase a b = true :=
  beq_iff_eq.2 ((eq_of_beq ha).symm.trans (eq_of_beq hb))

private theorem nodup_scalarOfCell (h : r.DistinctNames) :
    ((r.cells.filterMap l.scalarOfCell).map (·.1)).Nodup := by
  rw [List.Nodup, List.pairwise_map]
  apply h.filterMap
  rintro a b hdistinct ⟨c, text⟩ ha ⟨d, text'⟩ hb rfl
  have hsame := sameIgnoringCase_of_column (scalarOfCell_eq_some_iff.1 ha).2.1
    (scalarOfCell_eq_some_iff.1 hb).2.1
  rw [hdistinct] at hsame
  cases hsame

/-- Distinct names have at most one property among them. -/
theorem cells_ofRow_eq_singleton_iff (h : r.DistinctNames) {p : Property} :
    (l.ofRow r).cells = [p] ↔ p ∈ (l.ofRow r).cells := by
  have hone : (r.cells.filterMap (l.propertyOfCell r)).Pairwise fun _ _ => False := by
    apply h.filterMap
    intro a b hdistinct p ha q hb
    obtain ⟨hcell, ha, -⟩ := propertyOfCell_eq_some_iff.1 ha
    obtain ⟨hcell', hb, -⟩ := propertyOfCell_eq_some_iff.1 hb
    have hname : p.nameColumn = q.nameColumn :=
      (Prod.mk.inj (Option.some.inj (hcell.symm.trans hcell'))).1
    rw [← hname] at hb
    rw [sameIgnoringCase_of_column ha hb] at hdistinct
    cases hdistinct
  unfold ofRow
  dsimp only
  match hcells : r.cells.filterMap (l.propertyOfCell r) with
  | [] => simp
  | [q] => simp [eq_comm]
  | q :: q' :: rest =>
    rw [hcells] at hone
    exact ((List.pairwise_cons.1 hone).1 q' (by simp)).elim

/-- A row of distinct names, all of them columns of the table, is read by the texts that it holds. -/
theorem readsAs_ofRow (h : r.DistinctNames) (hknown : ∀ cell ∈ r.cells, l.Knows cell.1) :
    l.ReadsAs r (l.ofRow r) := by
  refine ⟨rfl, fun c text => ?_, fun p => ?_, ?_⟩
  · rw [ofRow, SortedMap.get?_eq_some_iff, SortedMap.mem_entries_ofList (nodup_scalarOfCell h),
      List.mem_filterMap]
    simp only [scalarOfCell_eq_some_iff]
    constructor
    · rintro ⟨⟨name, text'⟩, hmem, hrole, hname, rfl⟩
      exact ⟨(hknown _ hmem).mem_columns hname, hrole, name, hname, hmem⟩
    · rintro ⟨_, hrole, name, hname, hmem⟩
      exact ⟨(name, some text), hmem, hrole, hname, rfl⟩
  · have hvalue : (r.get? p.valueColumn.text).getD "" = p.value ↔
        r.Holds p.valueColumn p.value ∨ (∀ text, ¬r.Holds p.valueColumn text) ∧ p.value = "" := by
      simp only [← h.get?_eq_some_iff]
      cases r.get? p.valueColumn.text with
      | none => simp [eq_comm (a := "")]
      | some value => simp
    rw [cells_ofRow_eq_singleton_iff h, ofRow, List.mem_filterMap]
    simp only [propertyOfCell_eq_some_iff, hvalue]
    constructor
    · rintro ⟨⟨name, text⟩, hmem, hcell, hname, rfl, hvalue⟩
      exact ⟨hcell, ⟨name, hname, hmem⟩, hvalue⟩
    · rintro ⟨hcell, ⟨name, hname, hmem⟩, hvalue⟩
      exact ⟨(name, some p.name), hmem, hcell, hname, rfl, hvalue⟩
  · rw [ofRow, List.filterMap_eq_nil_iff]
    constructor
    · rintro hnone nameColumn valueColumn hcell name ⟨spelling, hname, hmem⟩
      have hsome : l.propertyOfCell r (spelling, some name) =
          some ⟨nameColumn, name, valueColumn, (r.get? valueColumn.text).getD ""⟩ :=
        propertyOfCell_eq_some_iff.2 ⟨hcell, hname, rfl, rfl⟩
      rw [hnone _ hmem] at hsome
      cases hsome
    · intro hnone cell hmem
      rw [Option.eq_none_iff_forall_ne_some]
      intro p hp
      obtain ⟨hcell, hname, htext, _⟩ := propertyOfCell_eq_some_iff.1 hp
      refine hnone _ _ hcell p.name ⟨cell.1, hname, ?_⟩
      rw [← htext]
      exact hmem

/-- A row cannot be read exactly if the table lacks one of its columns, set or not. -/
theorem decode_eq_error_iff :
    (∃ fault, l.decode r = .error fault) ↔ ∃ cell ∈ r.cells, ¬l.Knows cell.1 := by
  have hread : (∃ e, l.decode r = .ok e) ↔ ∀ cell ∈ r.cells, l.Knows cell.1 := by
    simp [decode_eq_ok_iff]
  rw [← not_iff_not]
  push Not
  rw [← hread]
  cases l.decode r <;> simp

end Layout

/-- Two rows with the same cells, in any order and with their names in any case of ASCII letters, are read
    alike if no name occurs twice: reading fails on one as on the other, and it fails exactly if a name, be
    it set or not, is that of no column of the table. Otherwise both give one element, which has the texts in
    columns without properties, and one property exactly if there is a text in the column of its key. -/
theorem Kind.decode_rearranged (k : Kind) {r s : ResultRow} (hdistinct : r.DistinctNames)
    (hrows : r.Rearranges s) :
    ((∃ fault, k.layout.decode r = .error fault) ↔ ∃ fault, k.layout.decode s = .error fault) ∧
      ((∃ fault, k.layout.decode r = .error fault) ↔ ∃ cell ∈ r.cells, ¬k.layout.Knows cell.1) ∧
      ∀ e, k.layout.decode r = .ok e → k.layout.decode s = .ok e ∧ k.layout.ReadsAs r e := by
  have hknows := Layout.forall_knows_iff (l := k.layout) hrows
  refine ⟨?_, Layout.decode_eq_error_iff, fun e hread => ?_⟩
  · rw [Layout.decode_eq_error_iff, Layout.decode_eq_error_iff, ← not_iff_not]
    push Not
    exact hknows
  · obtain ⟨hknown, rfl⟩ := Layout.decode_eq_ok_iff.1 hread
    have hreads := Layout.readsAs_ofRow hdistinct hknown
    have hreads' := Layout.readsAs_ofRow (hrows.distinctNames hdistinct) (hknows.1 hknown)
    have hsame := (hreads'.of_rearranges hrows.symm).unique hreads
    exact ⟨Layout.decode_eq_ok_iff.2 ⟨hknows.1 hknown, hsame⟩, hreads⟩

/-- A row of a vertex without a value for its property, and the same row in another order and with other
    names. -/
theorem Kind.decode_rearranged_marko :
    let r : ResultRow := ⟨[("label", some "person"), ("primary_values", some "marko"),
      ("property_key", some "age"), ("property_value", none)]⟩
    let s : ResultRow := ⟨[("Property_Value", none), ("PROPERTY_KEY", some "age"),
      ("primary_values", some "marko"), ("LABEL", some "person")]⟩
    let e : Element := ⟨.vertex, .ofList [(.label, "person"), (.primaryValues, "marko")],
      [⟨.propertyKey, "age", .propertyValue, ""⟩]⟩
    r.DistinctNames ∧ r.Rearranges s ∧ r.cells ≠ s.cells ∧
      Kind.vertex.layout.decode s = .ok e ∧ Kind.vertex.layout.ReadsAs r e := by
  intro r s e
  have hdistinct : r.DistinctNames := by decide +kernel
  have hrows : r.Rearranges s := by decide +kernel
  have hread : Kind.vertex.layout.decode r = .ok e := by decide +kernel
  obtain ⟨hsame, hreads⟩ := (decode_rearranged .vertex hdistinct hrows).2.2 e hread
  exact ⟨hdistinct, hrows, by decide +kernel, hsame, hreads⟩

end GraphTables
