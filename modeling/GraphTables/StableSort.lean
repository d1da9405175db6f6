namespace GraphTables

variable {α : Type}

/-- Put an element before the first one that it may stand before. -/
def insertBefore (le : α → α → Bool) (a : α) : List α → List α
  | [] => [a]
  | b :: rest => if le a b then a :: b :: rest else b :: insertBefore le a rest

/-- The list in ascending order, sorted by insertion. Elements that the order does not tell apart keep their
places among each other. -/
def stableSort (le : α → α → Bool) : List α → List α
  | [] => []
  | a :: rest => insertBefore le a (stableSort le rest)

theorem insertBefore_perm (le : α → α → Bool) (a : α) (l : List α) :
    (insertBefore le a l).Perm (a :: l) := by
  fun_induction insertBefore le a l with
  | case1 => exact .refl _
  | case2 b rest h => exact .refl _
  | case3 b rest h ih => exact (ih.cons b).trans (.swap a b rest)

/-- Sorting keeps the elements. -/
theorem stableSort_perm (le : α → α → Bool) (l : List α) : (stableSort le l).Perm l := by
  induction l with
  | nil => exact .refl _
  | cons a rest ih => exact (insertBefore_perm le a _).trans (ih.cons a)

private theorem pairwise_insertBefore {le : α → α → Bool}
    (trans : ∀ a b c, le a b = true → le b c = true → le a c = true)
    (total : ∀ a b, (le a b || le b a) = true) (a : α) {l : List α}
    (h : l.Pairwise fun x y => le x y = true) :
    (insertBefore le a l).Pairwise fun x y => le x y = true := by
  fun_induction insertBefore le a l with
  | case1 => simp
  | case2 b rest hab =>
    refine List.pairwise_cons.2 ⟨fun c hc => ?_, h⟩
    rcases List.mem_cons.1 hc with rfl | hc
    · exact hab
    · exact trans a b c hab ((List.pairwise_cons.1 h).1 c hc)
  | case3 b rest hab ih =>
    obtain ⟨hhead, htail⟩ := List.pairwise_cons.1 h
    refine List.pairwise_cons.2 ⟨fun c hc => ?_, ih htail⟩
    rcases List.mem_cons.1 ((insertBefore_perm le a rest).mem_iff.1 hc) with rfl | hc
    · simpa [hab] using total c b
    · exact hhead c hc

/-- Sorting puts the elements in order. -/
theorem pairwise_stableSort {le : α → α → Bool}
    (trans : ∀ a b c, le a b = true → le b c = true → le a c = true)
    (total : ∀ a b, (le a b || le b a) = true) (l : List α) :
    (stableSort le l).Pairwise fun x y => le x y = true := by
  induction l with
  | nil => exact .nil
  | cons a rest ih => exact pairwise_insertBefore trans total a ih

end GraphTables
