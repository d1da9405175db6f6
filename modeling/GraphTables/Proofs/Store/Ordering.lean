import GraphTables.Proofs.Store.Integrity
import GraphTables.Proofs.Store.Selection
import Mathlib.Data.List.Sort

namespace GraphTables

private theorem compare_cells_eq_lt_iff (x y : Option String) : compare x y = .lt ↔ x < y := by
  cases x with
  | none =>
    cases y with
    | none => exact ⟨nofun, fun h => absurd h Option.not_lt_none⟩
    | some _ => exact ⟨fun _ => Option.none_lt_some, fun _ => rfl⟩
  | some x =>
    cases y with
    | none => exact ⟨nofun, fun h => absurd h Option.not_lt_none⟩
    | some y => exact (compare_text_eq_lt_iff x y).trans Option.some_lt_some.symm

namespace SortKey

/-- The ordering tells two rows apart, and the first comes first. An unset cell is less than every text;
    descending is the reverse. -/
def Precedes (o : SortKey) (a b : Record) : Prop :=
  match o.direction with
  | .asc => a.get? o.column < b.get? o.column
  | .desc => b.get? o.column < a.get? o.column

private theorem precedes_iff {o : SortKey} {a b : Record} : o.Precedes a b ↔ compareBy [o] a b = .lt := by
  obtain ⟨column, direction⟩ := o
  cases direction with
  | asc => simp [Precedes, compareBy, compare_cells_eq_lt_iff]
  | desc => simp [Precedes, compareBy, compare_cells_eq_lt_iff]

instance (o : SortKey) (a b : Record) : Decidable (o.Precedes a b) :=
  decidable_of_iff _ precedes_iff.symm

private theorem compareBy_eq_iff {o : SortKey} {a b : Record} :
    compareBy [o] a b = .eq ↔ a.get? o.column = b.get? o.column := by
  obtain ⟨column, direction⟩ := o
  cases direction with
  | asc => simp [compareBy]
  | desc => simp [compareBy, eq_comm (a := a.get? column)]

private theorem not_precedes_iff {o : SortKey} {a b : Record} :
    ¬o.Precedes b a ↔ (compareBy [o] a b).isLE = true := by
  have hswap : compareBy [o] b a = (compareBy [o] a b).swap := Std.OrientedCmp.eq_swap
  rw [precedes_iff, hswap, Ordering.isLE_iff_ne_gt, Ordering.swap_eq_lt]

/-- Rows with their keys, sorted by one ordering. Those that it does not tell apart stay in place. -/
def sort (o : SortKey) (rows : List (List String × Record)) : List (List String × Record) :=
  rows.mergeSort fun a b => ¬o.Precedes b.2 a.2

end SortKey

theorem compareBy_append (front rest : List SortKey) (a b : Record) :
    compareBy (front ++ rest) a b = (compareBy front a b).then (compareBy rest a b) := by
  induction front with
  | nil => rfl
  | cons o front ih => rw [List.cons_append, compareBy, compareBy, ih, Ordering.then_assoc]

/-- Rows with their keys in the order asked for: the first ordering that tells them apart decides, and if
    there is none, the keys do. -/
def StoredOrder : List SortKey → List String × Record → List String × Record → Prop
  | [], a, b => a.1 < b.1
  | o :: rest, a, b =>
    o.Precedes a.2 b.2 ∨ a.2.get? o.column = b.2.get? o.column ∧ StoredOrder rest a b

private theorem storedOrder_iff {orderings : List SortKey} {a b : List String × Record} :
    StoredOrder orderings a b ↔ (compareBy orderings a.2 b.2).then (compare a.1 b.1) = .lt := by
  induction orderings with
  | nil => exact (compare_texts_eq_lt_iff a.1 b.1).symm
  | cons o rest ih =>
    have hcons : compareBy (o :: rest) a.2 b.2 = (compareBy [o] a.2 b.2).then (compareBy rest a.2 b.2) :=
      compareBy_append [o] rest a.2 b.2
    rw [StoredOrder, ih, SortKey.precedes_iff, ← SortKey.compareBy_eq_iff, hcons, Ordering.then_assoc]
    exact Ordering.then_eq_lt.symm

instance irrefl_storedOrder (orderings : List SortKey) : Std.Irrefl (StoredOrder orderings) where
  irrefl a h := by
    have hrow : compareBy orderings a.2 a.2 = .eq := Std.ReflCmp.compare_self
    have hkey : compare a.1 a.1 = .eq := Std.ReflCmp.compare_self
    rw [storedOrder_iff, hrow, hkey] at h
    cases h

instance antisymm_storedOrder (orderings : List SortKey) : Std.Antisymm (StoredOrder orderings) where
  antisymm a b hab hba := by
    have hrow : compareBy orderings b.2 a.2 = (compareBy orderings a.2 b.2).swap := Std.OrientedCmp.eq_swap
    have hkey : compare b.1 a.1 = (compare a.1 b.1).swap := Std.OrientedCmp.eq_swap
    rw [storedOrder_iff] at hab hba
    rw [hrow, hkey, ← Ordering.swap_then, hab] at hba
    cases hba

/-- Rows in an order, once sorted stably by further orderings, are in the order in which these come first. -/
theorem pairwise_stableSort_storedOrder (front rest : List SortKey) {rows : List (List String × Record)}
    (h : rows.Pairwise (StoredOrder rest)) :
    (stableSort (fun a b => (compareBy front a.2 b.2).isLE) rows).Pairwise
      (StoredOrder (front ++ rest)) := by
  have hsorted := pairwise_stableSort_of_pairwise (fun a b c => compareBy_isLE_trans front a.2 b.2 c.2)
    (fun a b => compareBy_isLE_total front a.2 b.2) h
  refine hsorted.imp fun {a b} ⟨hle, htie⟩ => ?_
  rw [storedOrder_iff, compareBy_append, Ordering.then_assoc]
  cases hfront : compareBy front a.2 b.2 with
  | lt => rfl
  | eq =>
    have hswap : compareBy front b.2 a.2 = (compareBy front a.2 b.2).swap := Std.OrientedCmp.eq_swap
    rw [hswap, hfront] at htie
    exact storedOrder_iff.1 (htie rfl)
  | gt =>
    rw [hfront] at hle
    cases hle

private theorem SortKey.sort_eq_stableSort (o : SortKey) (rows : List (List String × Record)) :
    o.sort rows = stableSort (fun a b => (compareBy [o] a.2 b.2).isLE) rows := by
  rw [stableSort_eq_mergeSort (fun a b c => compareBy_isLE_trans [o] a.2 b.2 c.2)
    (fun a b => compareBy_isLE_total [o] a.2 b.2), SortKey.sort]
  simp only [SortKey.not_precedes_iff, Bool.decide_eq_true]

/-- The rows that all clauses hold of, with their keys, in the order asked for. -/
structure Table.Lists (t : Table) (s : Select) (rows : List (List String × Record)) : Prop where
  mem_iff : ∀ e, e ∈ rows ↔ e ∈ t.rows.entries ∧ ∀ c ∈ s.clauses, c.holds e.2.get? = true
  ordered : rows.Pairwise (StoredOrder s.orderings)

namespace Table

variable {t : Table} {s : Select} {rows other : List (List String × Record)}

/-- Only one list has the rows that a select is about in the order asked for. -/
theorem Lists.unique (hrows : t.Lists s rows) (hother : t.Lists s other) : other = rows :=
  hother.ordered.eq_of_mem_iff hrows.ordered fun e => (hother.mem_iff e).trans (hrows.mem_iff e).symm

/-- Sorting by an ordering lists the rows for a select in which it comes before the other orderings. -/
theorem Lists.sort (h : t.Lists s rows) (o : SortKey) :
    t.Lists { s with orderings := o :: s.orderings } (o.sort rows) where
  mem_iff e := by
    rw [SortKey.sort, List.mem_mergeSort]
    exact h.mem_iff e
  ordered := by
    rw [SortKey.sort_eq_stableSort]
    exact pairwise_stableSort_storedOrder [o] s.orderings h.ordered

/-- Sorting by one ordering at a time, the last one first, leads from the rows in the order of their keys to
    those in the order asked for. -/
theorem Lists.foldr_sort (h : t.Lists { s with orderings := [] } rows) :
    t.Lists s (s.orderings.foldr SortKey.sort rows) := by
  suffices hall : ∀ orderings : List SortKey,
      t.Lists { s with orderings } (orderings.foldr SortKey.sort rows) from hall s.orderings
  intro orderings
  induction orderings with
  | nil => exact h
  | cons o rest ih => exact ih.sort o

/-- The rows that a select is about, with their keys, sorted. -/
def listing (t : Table) (s : Select) : List (List String × Record) :=
  stableSort (fun a b => (compareBy s.orderings a.2 b.2).isLE)
    (t.rows.entries.filter fun e => satisfies s.clauses e.2)

private theorem lists_listing (t : Table) (s : Select) : t.Lists s (t.listing s) where
  mem_iff e := by
    rw [listing, (stableSort_perm _ _).mem_iff, List.mem_filter, satisfies_iff_forall_holds]
  ordered := by
    have hkeys : t.rows.entries.Pairwise (StoredOrder []) :=
      t.rows.ascending.imp fun h => (compare_texts_eq_lt_iff _ _).1 h
    have hmatching := hkeys.filter fun e => satisfies s.clauses e.2
    have hsorted := pairwise_stableSort_storedOrder s.orderings [] hmatching
    rwa [List.append_nil] at hsorted

private theorem selectRecords_eq_map_listing (t : Table) (s : Select) :
    t.selectRecords s = ((t.listing s).take
      (s.limit.elim (t.listing s).length fun n => min n.toNat (t.listing s).length)).map (·.2) := by
  have hsorted : stableSort (fun a b => (compareBy s.orderings a b).isLE)
      (t.rows.values.filter (satisfies s.clauses)) = (t.listing s).map (·.2) := by
    rw [SortedMap.values, List.filter_map, stableSort_map]
    rfl
  unfold selectRecords
  dsimp only
  rw [hsorted]
  cases s.limit with
  | none => rw [Option.elim_none, List.take_length]
  | some n => rw [Option.elim_some, ← List.take_eq_take_min, List.map_take]

end Table

namespace Session

/-- What a select returns, whatever statements led to the session.

    * There is exactly one list of the rows that all clauses hold of that is in the order asked for. The rows
      returned are those at its front, as many as the limit allows, each with all columns of the table in
      their order. Rows are told apart by their keys at last, which are the texts of their key cells.
    * Sorting the rows by one ordering at a time, the last one first, gives the same list, if they are in the
      order of their keys to begin with. -/
theorem select_listing {session session' : Session} {s : Select} {result : ResultSet}
    (hreachable : session.Reachable) (h : session.execute (.select s) = .ok (session', result)) :
    session' = session ∧ ∃ t keyed rows, session.store.table s.table = .ok t ∧
      (∀ e ∈ t.rows.entries, t.schema.primaryKey.map e.2.get? = e.1.map some) ∧
      t.Lists s rows ∧ (∀ other, t.Lists s other → other = rows) ∧
      t.Lists { s with orderings := [] } keyed ∧ rows = s.orderings.foldr SortKey.sort keyed ∧
      result.columns = t.schema.columns ∧
      result.rows = (rows.take (s.limit.elim rows.length fun n => min n.toNat rows.length)).map fun e =>
        ⟨t.schema.columns.map fun c => (c, e.2.get? c)⟩ := by
  obtain ⟨_, rfl, t, htable, hselect⟩ := execute_select_eq_ok_iff.1 h
  obtain ⟨_, _, rfl⟩ := Table.select_eq_ok_iff.1 hselect
  have hintact := (intact_of_reachable hreachable).1.tables _ t (Store.table_eq_ok_iff.1 htable)
  have hrows := t.lists_listing s
  have hkeyed := t.lists_listing { s with orderings := [] }
  refine ⟨rfl, t, _, _, htable, fun e he => ?_, hrows, fun other => hrows.unique, hkeyed,
    hkeyed.foldr_sort.unique hrows, ?_⟩
  · exact hintact.keyed e.1 e.2 (SortedMap.get?_of_mem_entries he)
  · rw [Table.selectRecords_eq_map_listing, List.map_map]
    exact ⟨rfl, rfl⟩

/-- Scores by their points, which are compared as texts, and those with the same points by the day. The row
    without points comes last, and is cut off. -/
theorem select_listing_scores :
    let score (team day : String) : Insert :=
      (Insert.into "scores").setAll [("team", .text team), ("day", .text day)]
    let session := (({} : Session).executeAll
      [.raw "CREATE TABLE Scores(team text, day text, points text, PRIMARY KEY((team), day));",
        .insert ((score "red" "1").set "points" (.text "7")), .insert (score "red" "2"),
        .insert ((score "blue" "1").set "points" (.text "10")),
        .insert ((score "blue" "2").set "points" (.text "7")), .insert (score "green" "1")]).1
    let s : Select :=
      { table := "Scores"
        clauses := [.leaf (.oneOf "team" [.text "red", .text "blue"])]
        orderings := [⟨"points", .desc⟩, ⟨"day", .asc⟩, ⟨"points", .asc⟩]
        limit := some 3 }
    let row (team day points : String) : ResultRow :=
      ⟨[("team", some team), ("day", some day), ("points", some points)]⟩
    session.Reachable ∧ ∃ t keyed rows, session.store.table s.table = .ok t ∧ t.Lists s rows ∧
      t.Lists { s with orderings := [] } keyed ∧ rows = s.orderings.foldr SortKey.sort keyed ∧
      (rows.take (min 3 rows.length)).map (fun e => t.present e.2) =
        [row "red" "1" "7", row "blue" "2" "7", row "blue" "1" "10"] := by
  intro score session s row
  have hreachable : session.Reachable := Reachable.new.executeAll _
  have hexecute : session.execute (.select s) = .ok (session, ⟨["team", "day", "points"],
      [row "red" "1" "7", row "blue" "2" "7", row "blue" "1" "10"]⟩) := by decide +kernel
  obtain ⟨_, t, keyed, rows, htable, _, hrows, _, hkeyed, hsorted, _, hfront⟩ :=
    select_listing hreachable hexecute
  exact ⟨hreachable, t, keyed, rows, htable, hrows, hkeyed, hsorted, hfront.symm⟩

end Session

end GraphTables
