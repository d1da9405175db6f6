namespace GraphTables

instance decidableEqExcept {ε α : Type} [DecidableEq ε] [DecidableEq α] : DecidableEq (Except ε α)
  | .ok a, .ok b => decidable_of_iff (a = b) (by rw [Except.ok.injEq])
  | .error e, .error f => decidable_of_iff (e = f) (by rw [Except.error.injEq])
  | .ok _, .error _ => isFalse (by simp)
  | .error _, .ok _ => isFalse (by simp)

theorem bind_eq_ok_iff {ε α β : Type} {x : Except ε α} {f : α → Except ε β} {b : β} :
    (x >>= f) = .ok b ↔ ∃ a, x = .ok a ∧ f a = .ok b := by
  cases x <;> simp [bind, Except.bind]

theorem bind_eq_error_iff {ε α β : Type} {x : Except ε α} {f : α → Except ε β} {e : ε} :
    (x >>= f) = .error e ↔ x = .error e ∨ ∃ a, x = .ok a ∧ f a = .error e := by
  cases x <;> simp [bind, Except.bind]

theorem map_eq_ok_iff {ε α β : Type} {x : Except ε α} {f : α → β} {b : β} :
    x.map f = .ok b ↔ ∃ a, x = .ok a ∧ f a = b := by
  cases x <;> simp [Except.map]

theorem map_eq_error_iff {ε α β : Type} {x : Except ε α} {f : α → β} {e : ε} :
    x.map f = .error e ↔ x = .error e := by
  cases x <;> simp [Except.map]

theorem mapError_ok {ε ε' α : Type} (f : ε → ε') (a : α) :
    (Except.ok a : Except ε α).mapError f = .ok a := rfl

theorem mapError_error {ε ε' α : Type} (f : ε → ε') (e : ε) :
    (Except.error e : Except ε α).mapError f = .error (f e) := rfl

theorem mapError_eq_ok_iff {ε ε' α : Type} {x : Except ε α} {f : ε → ε'} {a : α} :
    x.mapError f = .ok a ↔ x = .ok a := by
  cases x with
  | ok b => rw [mapError_ok, Except.ok.injEq, Except.ok.injEq]
  | error e => simp [mapError_error]

theorem mapM_eq_ok_map {ε α β : Type} {f : α → Except ε β} {g : α → β} {xs : List α}
    (h : ∀ x ∈ xs, f x = .ok (g x)) : xs.mapM f = .ok (xs.map g) := by
  induction xs with
  | nil => rfl
  | cons x xs ih =>
    have hx := h x (by simp)
    have hxs := ih fun y hy => h y (List.mem_cons_of_mem _ hy)
    rw [List.mapM_cons, hx, hxs]
    rfl

theorem mapM_congr {ε α β : Type} {f g : α → Except ε β} {xs : List α} (h : ∀ x ∈ xs, f x = g x) :
    xs.mapM f = xs.mapM g := by
  induction xs with
  | nil => rfl
  | cons x xs ih =>
    rw [List.forall_mem_cons] at h
    rw [List.mapM_cons, List.mapM_cons, h.1, ih h.2]

theorem exists_mapM_eq_ok {ε α β : Type} {f : α → Except ε β} {xs : List α}
    (h : ∀ x ∈ xs, ∃ y, f x = .ok y) : ∃ ys, xs.mapM f = .ok ys := by
  induction xs with
  | nil => exact ⟨[], rfl⟩
  | cons x xs ih =>
    obtain ⟨y, hx⟩ := h x (by simp)
    obtain ⟨ys, hxs⟩ := ih fun z hz => h z (List.mem_cons_of_mem _ hz)
    refine ⟨y :: ys, ?_⟩
    rw [List.mapM_cons, hx, hxs]
    rfl

/-- A traversal fails as its first bad member does, if the others do not fail. -/
theorem mapM_eq_error {ε α β : Type} {f : α → Except ε β} {bad : α → Bool} {xs : List α} {x : α} {e : ε}
    (hfirst : xs.find? bad = some x) (hgood : ∀ y ∈ xs, bad y = false → ∃ z, f y = .ok z)
    (hbad : f x = .error e) : xs.mapM f = .error e := by
  induction xs with
  | nil => cases hfirst
  | cons y ys ih =>
    rw [List.forall_mem_cons] at hgood
    rw [List.mapM_cons]
    cases hy : bad y with
    | true =>
      rw [List.find?_cons_of_pos hy] at hfirst
      cases hfirst
      rw [hbad]
      rfl
    | false =>
      rw [List.find?_cons_of_neg (by simp [hy])] at hfirst
      obtain ⟨z, hz⟩ := hgood.1 hy
      rw [hz, ih hfirst hgood.2]
      rfl

theorem exists_of_mem_mapM {ε α β : Type} {f : α → Except ε β} {xs : List α} {ys : List β}
    (h : xs.mapM f = .ok ys) : ∀ y ∈ ys, ∃ x ∈ xs, f x = .ok y := by
  induction xs generalizing ys with
  | nil =>
    cases h
    simp
  | cons x xs ih =>
    rw [List.mapM_cons] at h
    obtain ⟨y, hx, h⟩ := bind_eq_ok_iff.1 h
    obtain ⟨rest, hxs, h⟩ := bind_eq_ok_iff.1 h
    cases h
    rw [List.forall_mem_cons]
    refine ⟨⟨x, by simp, hx⟩, fun z hz => ?_⟩
    obtain ⟨w, hw, hz⟩ := ih hxs z hz
    exact ⟨w, List.mem_cons_of_mem _ hw, hz⟩

theorem exists_of_mem_foldlM {ε α β : Type} {f : β → α → Except ε β} {xs : List α} {first last : β}
    (h : xs.foldlM f first = .ok last) : ∀ x ∈ xs, ∃ before after, f before x = .ok after := by
  induction xs generalizing first with
  | nil => simp
  | cons x xs ih =>
    rw [List.foldlM_cons] at h
    obtain ⟨next, hx, hxs⟩ := bind_eq_ok_iff.1 h
    rw [List.forall_mem_cons]
    exact ⟨⟨first, next, hx⟩, ih hxs⟩

/-- The lists computed for the members of two lists are those for the one and then those for the other. -/
theorem mapM_flatten_append {ε α β : Type} (f : α → Except ε (List β)) (xs ys : List α) :
    ((xs ++ ys).mapM f).map List.flatten = (do
      let first ← (xs.mapM f).map List.flatten
      let second ← (ys.mapM f).map List.flatten
      .ok (first ++ second)) := by
  rw [List.mapM_append]
  cases xs.mapM f with
  | error e => rfl
  | ok first =>
    cases ys.mapM f with
    | error e => rfl
    | ok second => exact congrArg Except.ok List.flatten_append

/-- Changing every result of a checked computation is changing all its results at the end. -/
theorem mapM_map_result {ε α β γ : Type} {f : α → Except ε β} {f' : α → Except ε γ} {g : β → γ}
    {xs : List α} (h : ∀ x ∈ xs, f' x = (f x).map g) :
    xs.mapM f' = (xs.mapM f).map (List.map g) := by
  induction xs with
  | nil => rfl
  | cons x xs ih =>
    have hxs := ih fun y hy => h y (List.mem_cons_of_mem _ hy)
    rw [List.mapM_cons, List.mapM_cons, h x (by simp), hxs]
    cases f x with
    | error e => rfl
    | ok y => cases xs.mapM f <;> rfl

end GraphTables
