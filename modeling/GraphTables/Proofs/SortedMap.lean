import GraphTables.SortedMap

namespace GraphTables.SortedMap

private theorem lookup_eq_none_of_not_mem {κ ν : Type} [DecidableEq κ] {pairs : List (κ × ν)} {q : κ}
    (h : q ∉ pairs.map (·.1)) : pairs.lookup q = none := by
  rw [List.lookup_eq_none_iff]
  intro p hp
  have hne : q ≠ p.1 := by
    rintro rfl
    exact h (List.mem_map_of_mem hp)
  simpa using hne

/-- Different keys are each looked up as what they are paired with. -/
theorem map_lookup_keys {κ ν : Type} [DecidableEq κ] {pairs : List (κ × ν)}
    (hnodup : (pairs.map (·.1)).Nodup) :
    (pairs.map (·.1)).map (pairs.lookup ·) = pairs.map (some ∘ (·.2)) := by
  induction pairs with
  | nil => rfl
  | cons p rest ih =>
    obtain ⟨hp, hnodup⟩ := List.nodup_cons.1 hnodup
    rw [List.map_cons, List.map_cons, List.map_cons, List.lookup_cons_self, ← ih hnodup]
    congr 1
    apply List.map_congr_left
    intro q hq
    have hne : (q == p.1) = false := by
      rw [beq_eq_false_iff_ne]
      rintro rfl
      exact hp hq
    rw [List.lookup_cons, hne]

theorem nodup_map_fst_zip {κ ν : Type} {ks : List κ} {vs : List ν} (hnodup : ks.Nodup)
    (hlen : vs.length = ks.length) : ((ks.zip vs).map (·.1)).Nodup := by
  rw [List.map_fst_zip (Nat.le_of_eq hlen.symm)]
  exact hnodup

theorem forall_mem_zip_iff {κ ν : Type} {ks : List κ} {vs : List ν} (hlen : vs.length = ks.length)
    (f : κ → Option ν) : (∀ e ∈ ks.zip vs, f e.1 = some e.2) ↔ ks.map f = vs.map some := by
  induction ks generalizing vs with
  | nil =>
    obtain rfl : vs = [] := List.eq_nil_of_length_eq_zero hlen
    simp
  | cons k ks ih =>
    cases vs with
    | nil => cases hlen
    | cons v vs =>
      rw [List.zip_cons_cons, List.forall_mem_cons, ih (Nat.succ.inj hlen), List.map_cons,
        List.map_cons, List.cons.injEq]

theorem eq_empty_of_entries {κ ν : Type} [Ord κ] {m : SortedMap κ ν} (h : m.entries = []) :
    m = .empty := by
  obtain ⟨entries, _⟩ := m
  cases h
  rfl

theorem mem_keys_of_isSome {κ ν : Type} [Ord κ] [Std.LawfulEqOrd κ] {m : SortedMap κ ν} {k : κ}
    (h : (m.get? k).isSome) : k ∈ m.keys := by
  obtain ⟨v, hv⟩ := Option.isSome_iff_exists.1 h
  exact List.mem_map_of_mem (f := Prod.fst) (mem_entries_of_get?_eq_some hv)

variable {κ ν : Type} [Ord κ] [Std.TransOrd κ]

theorem isSome_get?_iff_mem_keys [Std.LawfulEqOrd κ] {m : SortedMap κ ν} {k : κ} :
    (m.get? k).isSome ↔ k ∈ m.keys := by
  refine ⟨mem_keys_of_isSome, fun hk => ?_⟩
  obtain ⟨e, he, rfl⟩ := List.mem_map.1 hk
  rw [get?_of_mem_entries he]
  rfl

private theorem insertAll_cons (m : SortedMap κ ν) (e : κ × ν) (pairs : List (κ × ν)) :
    m.insertAll (e :: pairs) = (m.insert e.1 e.2).insertAll pairs := rfl

/-- Keys that are not bound keep what they had. -/
theorem get?_insertAll_of_not_mem [Std.LawfulEqOrd κ] [DecidableEq κ] (m : SortedMap κ ν)
    {pairs : List (κ × ν)} {q : κ} (hq : q ∉ pairs.map (·.1)) :
    (m.insertAll pairs).get? q = m.get? q := by
  induction pairs generalizing m with
  | nil => rfl
  | cons e rest ih =>
    rw [List.map_cons, List.mem_cons, not_or] at hq
    rw [insertAll_cons, ih _ hq.2, get?_insert, if_neg hq.1]

/-- Of pairs with different keys, each is found afterwards; other keys keep what they had. -/
theorem get?_insertAll [Std.LawfulEqOrd κ] [DecidableEq κ] (m : SortedMap κ ν)
    {pairs : List (κ × ν)} (hnodup : (pairs.map (·.1)).Nodup) (q : κ) :
    (m.insertAll pairs).get? q = (pairs.lookup q).or (m.get? q) := by
  induction pairs generalizing m with
  | nil => rfl
  | cons e rest ih =>
    obtain ⟨k, v⟩ := e
    rw [List.map_cons, List.nodup_cons] at hnodup
    rw [insertAll_cons, ih _ hnodup.2, get?_insert, List.lookup_cons]
    by_cases hq : q = k
    · subst hq
      simp [lookup_eq_none_of_not_mem hnodup.1]
    · have hne : (q == k) = false := by simpa using hq
      simp [hq, hne]

theorem get?_ofList [Std.LawfulEqOrd κ] [DecidableEq κ] {pairs : List (κ × ν)}
    (hnodup : (pairs.map (·.1)).Nodup) (q : κ) : (ofList pairs).get? q = pairs.lookup q := by
  rw [ofList, get?_insertAll _ hnodup, get?_empty, Option.or_none]

theorem nodup_keys (m : SortedMap κ ν) : (m.entries.map (·.1)).Nodup := by
  rw [List.Nodup, List.pairwise_map]
  apply m.ascending.imp
  intro a b hlt heq
  have hself : compare b.1 b.1 = .eq := Std.ReflCmp.compare_self
  rw [heq, hself] at hlt
  cases hlt

theorem lookup_entries [Std.LawfulEqOrd κ] [DecidableEq κ] (m : SortedMap κ ν) (q : κ) :
    m.entries.lookup q = m.get? q := by
  cases hlookup : m.entries.lookup q with
  | none =>
    cases hget : m.get? q with
    | none => rfl
    | some v =>
      have hmem := mem_entries_of_get?_eq_some hget
      have hne := List.lookup_eq_none_iff.1 hlookup (q, v) hmem
      simp at hne
  | some v =>
    obtain ⟨before, after, hentries, _⟩ := List.lookup_eq_some_iff.1 hlookup
    exact (get?_of_mem_entries (by simp [hentries])).symm

/-- Binding the bindings of a map gives each key what the map has for it. -/
theorem get?_insertAll_entries [Std.LawfulEqOrd κ] [DecidableEq κ] (m n : SortedMap κ ν) (q : κ) :
    (m.insertAll n.entries).get? q = (n.get? q).or (m.get? q) := by
  rw [get?_insertAll _ n.nodup_keys, lookup_entries]

theorem ofList_entries [Std.LawfulEqOrd κ] [DecidableEq κ] (m : SortedMap κ ν) :
    ofList m.entries = m := by
  apply ext_get?
  intro q
  rw [ofList, get?_insertAll_entries, get?_empty, Option.or_none]

theorem map_get?_ofList_zip [Std.LawfulEqOrd κ] [DecidableEq κ] {ks : List κ} {vs : List ν}
    (hnodup : ks.Nodup) (hlen : vs.length = ks.length) :
    ks.map (ofList (ks.zip vs)).get? = vs.map some := by
  have hlookup : ks.map ((ks.zip vs).lookup ·) = vs.map some := by
    have hpairs := map_lookup_keys (nodup_map_fst_zip hnodup hlen)
    rwa [List.map_fst_zip (Nat.le_of_eq hlen.symm), ← List.map_map,
      List.map_snd_zip (Nat.le_of_eq hlen)] at hpairs
  rw [← hlookup]
  apply List.map_congr_left
  intro q _
  exact get?_ofList (nodup_map_fst_zip hnodup hlen) q

theorem get?_ofList_zip_of_not_mem [Std.LawfulEqOrd κ] [DecidableEq κ] {ks : List κ} {vs : List ν}
    (hnodup : ks.Nodup) (hlen : vs.length = ks.length) {q : κ} (hq : q ∉ ks) :
    (ofList (ks.zip vs)).get? q = none := by
  rw [get?_ofList (nodup_map_fst_zip hnodup hlen)]
  apply lookup_eq_none_of_not_mem
  rw [List.map_fst_zip (Nat.le_of_eq hlen.symm)]
  exact hq

/-- A map made of pairs with different keys has these pairs as its bindings. -/
theorem mem_entries_ofList [Std.LawfulEqOrd κ] [DecidableEq κ] {pairs : List (κ × ν)}
    (hnodup : (pairs.map (·.1)).Nodup) (e : κ × ν) : e ∈ (ofList pairs).entries ↔ e ∈ pairs := by
  rw [← Prod.eta e, ← get?_eq_some_iff, get?_ofList hnodup]
  induction pairs with
  | nil => simp
  | cons p rest ih =>
    rw [List.map_cons, List.nodup_cons] at hnodup
    rw [List.lookup_cons, List.mem_cons]
    by_cases hkey : e.1 = p.1
    · rw [hkey, beq_self_eq_true]
      have hrest : (p.1, e.2) ∉ rest := by
        intro hmem
        exact hnodup.1 (List.mem_map.2 ⟨_, hmem, rfl⟩)
      simp [hrest, Prod.ext_iff, eq_comm]
    · have hne : (e.1 == p.1) = false := by simpa using hkey
      rw [hne]
      simp only [ih hnodup.2, Prod.ext_iff, hkey, false_and, false_or]

end GraphTables.SortedMap
