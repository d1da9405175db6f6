namespace GraphTables

/-- The keys of the bindings ascend strictly; no key occurs twice. -/
def Ascending {κ ν : Type} [Ord κ] (entries : List (κ × ν)) : Prop :=
  entries.Pairwise fun a b => compare a.1 b.1 = .lt

/-- A finite map from `κ` to `ν`, held as the one list of its bindings in ascending key order. So maps that
answer every look-up alike are equal. -/
structure SortedMap (κ ν : Type) [Ord κ] where
  /-- The bindings, each key once, in ascending order. -/
  entries : List (κ × ν)
  ascending : Ascending entries

namespace SortedMap

variable {κ ν : Type} [Ord κ]

instance [DecidableEq κ] [DecidableEq ν] : DecidableEq (SortedMap κ ν) := fun a b =>
  decidable_of_iff (a.entries = b.entries) (by cases a; cases b; simp)

/-- The map without bindings. -/
def empty : SortedMap κ ν := ⟨[], .nil⟩

instance : Inhabited (SortedMap κ ν) := ⟨empty⟩

/-- The number of bindings. -/
def size (m : SortedMap κ ν) : Nat := m.entries.length

def isEmpty (m : SortedMap κ ν) : Bool := m.entries.isEmpty

/-- The keys in ascending order. -/
def keys (m : SortedMap κ ν) : List κ := m.entries.map (·.1)

/-- The values in the order of their keys. -/
def values (m : SortedMap κ ν) : List ν := m.entries.map (·.2)

/-- The value bound to a key. -/
def get? (m : SortedMap κ ν) (k : κ) : Option ν :=
  (m.entries.find? fun e => compare k e.1 == .eq).map (·.2)

def contains (m : SortedMap κ ν) (k : κ) : Bool := (m.get? k).isSome

/-- Bind a key in a list of ascending bindings, over an earlier value of the same key. -/
def insertEntry (k : κ) (v : ν) : List (κ × ν) → List (κ × ν)
  | [] => [(k, v)]
  | (k', v') :: rest =>
    match compare k k' with
    | .lt => (k, v) :: (k', v') :: rest
    | .eq => (k, v) :: rest
    | .gt => (k', v') :: insertEntry k v rest

private theorem mem_insertEntry {k : κ} {v : ν} {e : κ × ν} {entries : List (κ × ν)}
    (h : e ∈ insertEntry k v entries) : e = (k, v) ∨ e ∈ entries := by
  fun_induction insertEntry k v entries <;> grind

private theorem ascending_insertEntry [Std.TransOrd κ] (k : κ) (v : ν) {entries : List (κ × ν)}
    (h : Ascending entries) : Ascending (insertEntry k v entries) := by
  fun_induction insertEntry k v entries with
  | case1 => simp [Ascending]
  | case2 k' v' rest hlt =>
    refine List.pairwise_cons.2 ⟨fun e he => ?_, h⟩
    rcases List.mem_cons.1 he with rfl | he
    · exact hlt
    · exact Std.TransCmp.lt_trans hlt ((List.pairwise_cons.1 h).1 e he)
  | case3 k' v' rest heq =>
    obtain ⟨hhead, htail⟩ := List.pairwise_cons.1 h
    exact List.pairwise_cons.2 ⟨fun e he => Std.TransCmp.lt_of_eq_of_lt heq (hhead e he), htail⟩
  | case4 k' v' rest hgt ih =>
    obtain ⟨hhead, htail⟩ := List.pairwise_cons.1 h
    refine List.pairwise_cons.2 ⟨fun e he => ?_, ih htail⟩
    rcases mem_insertEntry he with rfl | he
    · exact Std.OrientedCmp.gt_iff_lt.1 hgt
    · exact hhead e he

/-- Bind a key, over an earlier value of the same key. -/
def insert [Std.TransOrd κ] (m : SortedMap κ ν) (k : κ) (v : ν) : SortedMap κ ν :=
  ⟨insertEntry k v m.entries, ascending_insertEntry k v m.ascending⟩

/-- Keep the bindings that satisfy a test. -/
def filter (m : SortedMap κ ν) (keep : κ → ν → Bool) : SortedMap κ ν :=
  ⟨m.entries.filter fun e => keep e.1 e.2, m.ascending.filter _⟩

/-- Remove a key. -/
def erase (m : SortedMap κ ν) (k : κ) : SortedMap κ ν :=
  m.filter fun k' _ => compare k k' != .eq

/-- Bind the pairs of a list one after the other; the last binding of a key stays. -/
def insertAll [Std.TransOrd κ] (m : SortedMap κ ν) (pairs : List (κ × ν)) : SortedMap κ ν :=
  pairs.foldl (fun m e => m.insert e.1 e.2) m

def ofList [Std.TransOrd κ] (pairs : List (κ × ν)) : SortedMap κ ν := empty.insertAll pairs

private theorem find?_insertEntry [Std.TransOrd κ] (k q : κ) (v : ν) (entries : List (κ × ν)) :
    ((insertEntry k v entries).find? fun e => compare q e.1 == .eq) =
      if compare q k = .eq then some (k, v)
      else entries.find? fun e => compare q e.1 == .eq := by
  fun_induction insertEntry k v entries with
  | case1 => by_cases h : compare q k = .eq <;> simp [h]
  | case2 k' v' rest hlt => by_cases h : compare q k = .eq <;> simp [List.find?_cons, h]
  | case3 k' v' rest heq =>
    have hsame : compare q k' = compare q k := (Std.TransCmp.congr_right heq).symm
    by_cases h : compare q k = .eq <;> simp [h, hsame]
  | case4 k' v' rest hgt ih =>
    rw [List.find?_cons, ih, List.find?_cons]
    by_cases h : compare q k = .eq
    · have hne : (compare q k' == .eq) = false := by
        rw [Std.TransCmp.congr_left h, hgt]; rfl
      simp only [h, hne, ↓reduceIte]
    · simp [h]

@[simp] theorem get?_empty (q : κ) : (empty : SortedMap κ ν).get? q = none := rfl

theorem get?_insert [Std.TransOrd κ] [Std.LawfulEqOrd κ] (m : SortedMap κ ν) (k q : κ) (v : ν)
    [Decidable (q = k)] : (m.insert k v).get? q = if q = k then some v else m.get? q := by
  simp only [get?, insert, find?_insertEntry, Std.compare_eq_iff_eq]
  split <;> simp_all

theorem mem_entries_of_get?_eq_some [Std.LawfulEqOrd κ] {m : SortedMap κ ν} {k : κ} {v : ν}
    (h : m.get? k = some v) : (k, v) ∈ m.entries := by
  simp only [get?, Option.map_eq_some_iff] at h
  obtain ⟨⟨k', v'⟩, hfind, rfl⟩ := h
  have hk := List.find?_some hfind
  simp only [beq_iff_eq, Std.compare_eq_iff_eq] at hk
  subst hk
  exact List.mem_of_find?_eq_some hfind

theorem get?_of_mem_entries [Std.TransOrd κ] {m : SortedMap κ ν} {k : κ} {v : ν}
    (h : (k, v) ∈ m.entries) : m.get? k = some v := by
  obtain ⟨entries, hasc⟩ := m
  simp only [get?] at h ⊢
  induction entries with
  | nil => simp at h
  | cons e rest ih =>
    obtain ⟨hhead, htail⟩ := List.pairwise_cons.1 hasc
    rcases List.mem_cons.1 h with rfl | h
    · simp [Std.ReflCmp.compare_self]
    · have hne : (compare k e.1 == .eq) = false := by
        rw [Std.OrientedCmp.gt_iff_lt.2 (hhead _ h)]; rfl
      rw [List.find?_cons, hne]
      exact ih htail h

/-- A look-up finds exactly the bindings. -/
theorem get?_eq_some_iff [Std.TransOrd κ] [Std.LawfulEqOrd κ] {m : SortedMap κ ν} {k : κ} {v : ν} :
    m.get? k = some v ↔ (k, v) ∈ m.entries :=
  ⟨mem_entries_of_get?_eq_some, get?_of_mem_entries⟩

theorem get?_filter [Std.TransOrd κ] [Std.LawfulEqOrd κ] (m : SortedMap κ ν)
    (keep : κ → ν → Bool) (k : κ) :
    (m.filter keep).get? k = (m.get? k).filter (keep k) := by
  ext v
  simp [Option.filter_eq_some_iff, get?_eq_some_iff, filter, List.mem_filter]

theorem get?_erase [Std.TransOrd κ] [Std.LawfulEqOrd κ] (m : SortedMap κ ν) (k q : κ)
    [Decidable (q = k)] : (m.erase k).get? q = if q = k then none else m.get? q := by
  rw [erase, get?_filter]
  split
  next h => subst h; cases m.get? q <;> simp [Option.filter, Std.ReflCmp.compare_self]
  next h =>
    have hne : compare k q ≠ .eq := fun heq => h (Std.compare_eq_iff_eq.1 heq).symm
    cases m.get? q <;> simp [Option.filter, hne]

/-- Ascending lists with the same members are equal. -/
theorem eq_of_ascending [Std.TransOrd κ] {xs ys : List (κ × ν)} (hx : Ascending xs)
    (hy : Ascending ys) (h : ∀ e, e ∈ xs ↔ e ∈ ys) : xs = ys := by
  have irrefl : ∀ a : κ, compare a a ≠ .lt := fun a => by simp [Std.ReflCmp.compare_self]
  have asymm : ∀ a b : κ, compare a b = .lt → compare b a ≠ .lt := fun a b hab hba =>
    irrefl a (Std.TransCmp.lt_trans hab hba)
  induction xs generalizing ys with
  | nil =>
    cases ys with
    | nil => rfl
    | cons y ys => exact absurd ((h y).2 (by simp)) (by simp)
  | cons x xs ih =>
    cases ys with
    | nil => exact absurd ((h x).1 (by simp)) (by simp)
    | cons y ys =>
      obtain ⟨hxhead, hxtail⟩ := List.pairwise_cons.1 hx
      obtain ⟨hyhead, hytail⟩ := List.pairwise_cons.1 hy
      have hxy : x = y := by
        rcases List.mem_cons.1 ((h x).1 (by simp)) with hxy | hmem
        · exact hxy
        · rcases List.mem_cons.1 ((h y).2 (by simp)) with hyx | hmem'
          · exact hyx.symm
          · exact absurd (hyhead x hmem) (asymm _ _ (hxhead y hmem'))
      subst hxy
      congr 1
      refine ih hxtail hytail fun e => ⟨fun he => ?_, fun he => ?_⟩
      · rcases List.mem_cons.1 ((h e).1 (List.mem_cons_of_mem _ he)) with rfl | he'
        · exact absurd (hxhead _ he) (irrefl _)
        · exact he'
      · rcases List.mem_cons.1 ((h e).2 (List.mem_cons_of_mem _ he)) with rfl | he'
        · exact absurd (hyhead _ he) (irrefl _)
        · exact he'

/-- Maps that answer every look-up alike are equal. -/
theorem ext_get? [Std.TransOrd κ] [Std.LawfulEqOrd κ] {m n : SortedMap κ ν}
    (h : ∀ k, m.get? k = n.get? k) : m = n := by
  have hentries : m.entries = n.entries := eq_of_ascending m.ascending n.ascending fun e => by
    rw [← Prod.eta e, ← get?_eq_some_iff, ← get?_eq_some_iff, h]
  cases m; cases n; simp_all

end SortedMap

end GraphTables
