import GraphTables.StableSort

namespace GraphTables

variable {α : Type} {le : α → α → Bool}

private theorem insertBefore_of_forall {a : α} {l : List α} (h : ∀ b ∈ l, le a b = true) :
    insertBefore le a l = a :: l := by
  cases l with
  | nil => rfl
  | cons b rest => rw [insertBefore, if_pos (h b (by simp))]

/-- An order that tells no elements of a list apart leaves it as it is. -/
theorem stableSort_of_forall (le : α → α → Bool) {l : List α}
    (h : ∀ a ∈ l, ∀ b ∈ l, le a b = true) : stableSort le l = l := by
  induction l with
  | nil => rfl
  | cons a rest ih =>
    have hrest : ∀ b ∈ rest, ∀ c ∈ rest, le b c = true := fun b hb c hc =>
      h b (List.mem_cons_of_mem _ hb) c (List.mem_cons_of_mem _ hc)
    have hfirst : ∀ b ∈ rest, le a b = true := fun b hb => h a (by simp) b (List.mem_cons_of_mem _ hb)
    rw [stableSort, ih hrest, insertBefore_of_forall hfirst]

/-- An element put before others that it is related to is related to those it cannot be told from. -/
theorem pairwise_insertBefore_of_forall (trans : ∀ a b c, le a b = true → le b c = true → le a c = true)
    (total : ∀ a b, (le a b || le b a) = true) {R : α → α → Prop} {a : α} {l : List α}
    (ha : ∀ b ∈ l, R a b)
    (h : l.Pairwise fun x y => le x y = true ∧ (le y x = true → R x y)) :
    (insertBefore le a l).Pairwise fun x y => le x y = true ∧ (le y x = true → R x y) := by
  fun_induction insertBefore le a l with
  | case1 => simp
  | case2 b rest hab =>
    refine List.pairwise_cons.2 ⟨fun c hc => ?_, h⟩
    have hac : le a c = true := by
      rcases List.mem_cons.1 hc with rfl | hrest
      · exact hab
      · exact trans a b c hab ((List.pairwise_cons.1 h).1 c hrest).1
    exact ⟨hac, fun _ => ha c hc⟩
  | case3 b rest hab ih =>
    obtain ⟨hhead, htail⟩ := List.pairwise_cons.1 h
    have hrest := ih (fun c hc => ha c (List.mem_cons_of_mem _ hc)) htail
    refine List.pairwise_cons.2 ⟨fun c hc => ?_, hrest⟩
    rcases List.mem_cons.1 ((insertBefore_perm le a rest).mem_iff.1 hc) with rfl | hc
    · have hba : le b c = true := by simpa [hab] using total b c
      exact ⟨hba, fun hcb => absurd hcb hab⟩
    · exact hhead c hc

/-- Sorting is stable: what relates elements to those behind them in the list relates them in the
    sorted list too, wherever the order does not tell them apart. -/
theorem pairwise_stableSort_of_pairwise
    (trans : ∀ a b c, le a b = true → le b c = true → le a c = true)
    (total : ∀ a b, (le a b || le b a) = true) {R : α → α → Prop} {l : List α} (h : l.Pairwise R) :
    (stableSort le l).Pairwise fun x y => le x y = true ∧ (le y x = true → R x y) := by
  induction l with
  | nil => exact .nil
  | cons a rest ih =>
    obtain ⟨hhead, htail⟩ := List.pairwise_cons.1 h
    apply pairwise_insertBefore_of_forall trans total _ (ih htail)
    intro b hb
    exact hhead b ((stableSort_perm le rest).mem_iff.1 hb)

private theorem filter_insertBefore (trans : ∀ a b c, le a b = true → le b c = true → le a c = true)
    (p : α → Bool) (a : α) {l : List α} (h : l.Pairwise fun x y => le x y = true) :
    (insertBefore le a l).filter p =
      if p a then insertBefore le a (l.filter p) else l.filter p := by
  fun_induction insertBefore le a l with
  | case1 => cases hp : p a <;> simp [insertBefore, hp]
  | case2 b rest hab =>
    have hall : ∀ c ∈ (b :: rest).filter p, le a c = true := by
      intro c hc
      rcases List.mem_cons.1 (List.mem_filter.1 hc).1 with rfl | hrest
      · exact hab
      · exact trans a b c hab ((List.pairwise_cons.1 h).1 c hrest)
    rw [List.filter_cons, insertBefore_of_forall hall]
  | case3 b rest hab ih =>
    have hrest := ih (List.pairwise_cons.1 h).2
    cases hb : p b with
    | false => simpa [hb] using hrest
    | true =>
      rw [List.filter_cons_of_pos hb, List.filter_cons_of_pos hb, hrest, insertBefore, if_neg hab]
      split <;> rfl

/-- Sorting some of the elements is taking them out of the sorted list. -/
theorem stableSort_filter (trans : ∀ a b c, le a b = true → le b c = true → le a c = true)
    (total : ∀ a b, (le a b || le b a) = true) (p : α → Bool) (l : List α) :
    stableSort le (l.filter p) = (stableSort le l).filter p := by
  induction l with
  | nil => rfl
  | cons a rest ih =>
    rw [stableSort, filter_insertBefore trans p a (pairwise_stableSort trans total rest), ← ih]
    cases hp : p a with
    | false => rw [List.filter_cons_of_neg (by simp [hp]), if_neg (by simp)]
    | true => rw [List.filter_cons_of_pos hp, if_pos rfl, stableSort]

/-- Elements may be sorted by what a function gives for them. -/
theorem stableSort_map {β : Type} (le : α → α → Bool) (f : β → α) (l : List β) :
    stableSort le (l.map f) = (stableSort (fun a b => le (f a) (f b)) l).map f := by
  have hinsert (a : β) (rest : List β) : insertBefore le (f a) (rest.map f) =
      (insertBefore (fun a b => le (f a) (f b)) a rest).map f := by
    induction rest with
    | nil => rfl
    | cons b rest ih =>
      rw [List.map_cons, insertBefore, insertBefore, ih]
      split <;> rfl
  induction l with
  | nil => rfl
  | cons a rest ih => rw [List.map_cons, stableSort, stableSort, ih, hinsert]

/-- There is one stable sort: merging gives the same list. -/
theorem stableSort_eq_mergeSort (trans : ∀ a b c, le a b = true → le b c = true → le a c = true)
    (total : ∀ a b, (le a b || le b a) = true) (l : List α) : stableSort le l = l.mergeSort le := by
  induction l with
  | nil => rw [stableSort, List.mergeSort_nil]
  | cons a rest ih =>
    obtain ⟨before, after, hsorted, hrest, hbefore⟩ := List.mergeSort_cons trans total a rest
    have hafter : ∀ b ∈ after, le a b = true := by
      have hpairwise := List.pairwise_mergeSort trans total (a :: rest)
      rw [hsorted, List.pairwise_append] at hpairwise
      exact (List.pairwise_cons.1 hpairwise.2.1).1
    rw [stableSort, ih, hrest, hsorted]
    clear hsorted hrest
    induction before with
    | nil => exact insertBefore_of_forall hafter
    | cons b before ih =>
      rw [List.forall_mem_cons] at hbefore
      have hnot : ¬le a b = true := by simpa using hbefore.1
      rw [List.cons_append, List.cons_append, insertBefore, if_neg hnot, ih hbefore.2]

end GraphTables
