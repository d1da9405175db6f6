import GraphTables.Json.Reading
import GraphTables.Proofs.Json.Tokens

namespace GraphTables.Json

namespace Tree

/-- The numbers in the tree are integers, and its texts are texts. -/
inductive Plain : Tree → Prop where
  | null : Plain .null
  | bool (b : Bool) : Plain (.bool b)
  | int (i : Int) : Plain (.number (.ofInt i))
  | text (s : String) : Plain (.text (some s))
  | array {items : List Tree} : (∀ t ∈ items, Plain t) → Plain (.array items)
  | object {members : List (Option String × Tree)} :
      (∀ m ∈ members, ∃ s, m.1 = some s) → (∀ m ∈ members, Plain m.2) → Plain (.object members)

/-- A value can end here: nothing follows, or a comma or closing bracket does. -/
def Follows (cs : List Char) : Prop := ∀ c ∈ cs.head?, c = ',' ∨ c = ']' ∨ c = '\x7d'

private theorem Follows.ends {cs : List Char} (h : Follows cs) : Number.Ends cs := by
  intro c hc
  rcases h c hc with rfl | rfl | rfl <;> decide

/-- The text of the tree is read as the tree, wherever it can end. Two values and separators for each
    character are enough of a bound. -/
def ReadsBack (t : Tree) : Prop :=
  ∀ bound cs, 2 * t.render.length ≤ bound → Follows cs →
    readValue? bound (t.render ++ cs) = some (t, cs)

private theorem skipBlanks_cons {c : Char} (hc : c ≠ ' ' ∧ c ≠ '\t' ∧ c ≠ '\n' ∧ c ≠ '\r')
    (cs : List Char) : skipBlanks (c :: cs) = c :: cs := by
  simp [skipBlanks, hc]

/-- A text of a tree starts with a character that is neither a blank nor ends an array. -/
theorem Plain.exists_head {t : Tree} (h : t.Plain) :
    ∃ c cs, t.render = c :: cs ∧ (c ≠ ' ' ∧ c ≠ '\t' ∧ c ≠ '\n' ∧ c ≠ '\r') ∧ c ≠ ']' := by
  cases h with
  | null => exact ⟨_, _, by rw [render], by decide, by decide⟩
  | bool b => cases b <;> exact ⟨_, _, rfl, by decide, by decide⟩
  | int i =>
    obtain ⟨c, cs, htext, hc⟩ := Number.exists_head_ofInt i
    refine ⟨c, cs, by rw [render, htext], ?_⟩
    rcases hc with rfl | hc
    · decide
    · have hne {d : Char} (hd : d.isDigit = false) : c ≠ d := by
        rintro rfl
        rw [hc] at hd
        cases hd
      exact ⟨⟨hne rfl, hne rfl, hne rfl, hne rfl⟩, hne rfl⟩
  | text s => exact ⟨_, _, by rw [render, renderText, Quoted.write]; rfl, by decide, by decide⟩
  | array => exact ⟨_, _, by rw [render], by decide, by decide⟩
  | object => exact ⟨_, _, by rw [render], by decide, by decide⟩

private theorem readsBack_null : ReadsBack .null := by
  intro bound cs hbound _
  cases bound with
  | zero => simp [render] at hbound
  | succ bound => rfl

private theorem readsBack_bool (b : Bool) : ReadsBack (.bool b) := by
  intro bound cs hbound _
  cases bound with
  | zero => cases b <;> simp [render] at hbound
  | succ bound => cases b <;> rfl

private theorem readsBack_text (s : String) : ReadsBack (.text (some s)) := by
  intro bound cs hbound _
  cases bound with
  | zero => simp [render, renderText, Quoted.write] at hbound
  | succ bound =>
    have hrender : (text (some s)).render ++ cs =
        '"' :: (s.toList.flatMap Quoted.escapeChar ++ '"' :: cs) := by
      simp [render, renderText, Quoted.write]
    have hread : readValue? (bound + 1) ('"' :: (s.toList.flatMap Quoted.escapeChar ++ '"' :: cs)) =
        (Quoted.read? (s.toList.flatMap Quoted.escapeChar ++ '"' :: cs)).map
          fun r => (text r.1, r.2) := rfl
    rw [hrender, hread, Quoted.read?_write]
    rfl

private theorem readsBack_int (i : Int) : ReadsBack (.number (.ofInt i)) := by
  intro bound cs hbound hcs
  obtain ⟨c, ds, htext, hc⟩ := Number.exists_head_ofInt i
  cases bound with
  | zero => simp [render, htext] at hbound
  | succ bound =>
    have hother {d : Char} (hd : d.isDigit = false) (hminus : d ≠ '-') : d ≠ c := by
      rintro rfl
      rcases hc with hc | hc
      · exact hminus hc
      · rw [hc] at hd
        cases hd
    have hread : readValue? (bound + 1) (c :: (ds ++ cs)) =
        (Number.read? (c :: (ds ++ cs))).map fun r => (number r.1, r.2) := by
      have hne {d : Char} (hd : d.isDigit = false) (hminus : d ≠ '-') := (hother hd hminus).symm
      rw [readValue?, skipBlanks_cons ⟨hne rfl (by decide), hne rfl (by decide), hne rfl (by decide),
        hne rfl (by decide)⟩]
      -- The other values start with a letter, a quote or an opening bracket.
      split
      case h_7 => rfl
      all_goals
        next h => exact absurd (List.head_eq_of_cons_eq h.symm) (hother rfl (by decide))
    have hnumber := Number.read?_ofInt i hcs.ends
    rw [htext, List.cons_append] at hnumber
    rw [render, htext, List.cons_append, hread, hnumber]
    rfl

private theorem renderItems_cons (t : Tree) {rest : List Tree} (h : rest ≠ []) :
    renderItems (t :: rest) = t.render ++ ',' :: renderItems rest := by
  rw [renderItems]
  exact h

private theorem renderMembers_cons (s : Option String) (t : Tree) {rest : List (Option String × Tree)}
    (h : rest ≠ []) : renderMembers ((s, t) :: rest) =
      renderText s ++ ':' :: t.render ++ ',' :: renderMembers rest := by
  rw [renderMembers]
  exact h

/-- The items of an array are read one after the other. -/
theorem readItems?_render {items : List Tree} (hne : items ≠ []) (hread : ∀ t ∈ items, t.ReadsBack)
    {bound : Nat} (hbound : 2 * (renderItems items).length ≤ bound) (cs : List Char) :
    readItems? bound (renderItems items ++ cs) = some (items, cs) := by
  induction items generalizing bound with
  | nil => exact absurd rfl hne
  | cons t rest ih =>
    have ht := hread t List.mem_cons_self
    by_cases hlast : rest = []
    · subst hlast
      simp only [renderItems, List.length_append, List.length_singleton] at hbound
      obtain ⟨bound, rfl⟩ := Nat.exists_eq_add_one.mpr (show 0 < bound by omega)
      rw [renderItems, List.append_assoc, readItems?,
        ht bound _ (by omega) (by rintro c ⟨rfl⟩; exact .inr (.inl rfl))]
      rfl
    · simp only [renderItems_cons t hlast, List.length_append, List.length_cons] at hbound
      obtain ⟨bound, rfl⟩ := Nat.exists_eq_add_one.mpr (show 0 < bound by omega)
      have hrest : readItems? bound (renderItems rest ++ cs) = some (rest, cs) :=
        ih hlast (fun u hu => hread u (List.mem_cons_of_mem _ hu)) (by omega)
      rw [renderItems_cons t hlast, List.append_assoc, readItems?,
        ht bound _ (by omega) (by rintro c ⟨rfl⟩; exact .inl rfl)]
      simp only [List.cons_append, bind, Option.bind, skipBlanks_cons (c := ',') (by decide), hrest]
      rfl

private theorem readName?_render (s : String) (cs : List Char) :
    readName? (renderText (some s) ++ ':' :: cs) = some (some s, cs) := by
  have htext : renderText (some s) ++ ':' :: cs =
      '"' :: (s.toList.flatMap Quoted.escapeChar ++ '"' :: ':' :: cs) := by
    simp [renderText, Quoted.write]
  rw [htext, readName?, skipBlanks_cons (by decide)]
  simp only [Quoted.read?_write, bind, Option.bind, skipBlanks_cons (c := ':') (by decide)]

/-- The members of an object are read one after the other. -/
theorem readMembers?_render {members : List (Option String × Tree)} (hne : members ≠ [])
    (hname : ∀ m ∈ members, ∃ s, m.1 = some s) (hread : ∀ m ∈ members, m.2.ReadsBack)
    {bound : Nat} (hbound : 2 * (renderMembers members).length ≤ bound) (cs : List Char) :
    readMembers? bound (renderMembers members ++ cs) = some (members, cs) := by
  induction members generalizing bound with
  | nil => exact absurd rfl hne
  | cons m rest ih =>
    obtain ⟨name, t⟩ := m
    obtain ⟨s, rfl⟩ : ∃ s, name = some s := hname _ List.mem_cons_self
    have ht : t.ReadsBack := hread _ List.mem_cons_self
    by_cases hlast : rest = []
    · subst hlast
      simp only [renderMembers, List.length_append, List.length_cons] at hbound
      obtain ⟨bound, rfl⟩ := Nat.exists_eq_add_one.mpr (show 0 < bound by omega)
      rw [renderMembers, List.append_assoc, List.append_assoc, List.cons_append, readMembers?,
        readName?_render]
      simp only [bind, Option.bind]
      rw [ht bound _ (by omega) (by rintro c ⟨rfl⟩; exact .inr (.inr rfl))]
      rfl
    · simp only [renderMembers_cons _ t hlast, List.length_append, List.length_cons] at hbound
      obtain ⟨bound, rfl⟩ := Nat.exists_eq_add_one.mpr (show 0 < bound by omega)
      have hrest : readMembers? bound (renderMembers rest ++ cs) = some (rest, cs) :=
        ih hlast (fun n hn => hname n (List.mem_cons_of_mem _ hn))
          (fun n hn => hread n (List.mem_cons_of_mem _ hn)) (by omega)
      rw [renderMembers_cons _ t hlast, List.append_assoc, List.append_assoc, List.cons_append,
        readMembers?, readName?_render]
      simp only [bind, Option.bind]
      rw [ht bound _ (by omega) (by rintro c ⟨rfl⟩; exact .inl rfl)]
      simp only [List.cons_append, skipBlanks_cons (c := ',') (by decide), hrest]
      rfl

private theorem readsBack_array {items : List Tree} (hplain : ∀ t ∈ items, t.Plain)
    (hread : ∀ t ∈ items, t.ReadsBack) : ReadsBack (.array items) := by
  intro bound cs hbound _
  simp only [render, List.length_cons] at hbound
  obtain ⟨bound, rfl⟩ := Nat.exists_eq_add_one.mpr (show 0 < bound by omega)
  rw [render, List.cons_append, readValue?, skipBlanks_cons (by decide)]
  cases items with
  | nil => rfl
  | cons t rest =>
    have hitems : readItems? bound (renderItems (t :: rest) ++ cs) = some (t :: rest, cs) :=
      readItems?_render (List.cons_ne_nil t rest) hread (by omega) cs
    -- The first item does not start as the array of no items ends.
    obtain ⟨c, ds, htext, hblank, hclose⟩ := (hplain t List.mem_cons_self).exists_head
    have hhead : ∃ es, renderItems (t :: rest) ++ cs = c :: es := by
      by_cases hlast : rest = []
      · exact ⟨_, by rw [hlast, renderItems, htext]; rfl⟩
      · exact ⟨_, by rw [renderItems_cons t hlast, htext]; rfl⟩
    obtain ⟨es, hes⟩ := hhead
    rw [hes] at hitems ⊢
    simp only [skipBlanks_cons hblank, hitems]
    split
    next h => exact absurd (List.head_eq_of_cons_eq h) hclose
    next => rfl

private theorem readsBack_object {members : List (Option String × Tree)}
    (hname : ∀ m ∈ members, ∃ s, m.1 = some s) (hread : ∀ m ∈ members, m.2.ReadsBack) :
    ReadsBack (.object members) := by
  intro bound cs hbound _
  simp only [render, List.length_cons] at hbound
  obtain ⟨bound, rfl⟩ := Nat.exists_eq_add_one.mpr (show 0 < bound by omega)
  rw [render, List.cons_append, readValue?, skipBlanks_cons (by decide)]
  cases members with
  | nil => rfl
  | cons m rest =>
    have hmembers : readMembers? bound (renderMembers (m :: rest) ++ cs) = some (m :: rest, cs) :=
      readMembers?_render (List.cons_ne_nil m rest) hname hread (by omega) cs
    have hhead : ∃ es, renderMembers (m :: rest) ++ cs = '"' :: es := by
      by_cases hlast : rest = []
      · exact ⟨_, by rw [hlast, renderMembers, renderText, Quoted.write]; rfl⟩
      · exact ⟨_, by rw [renderMembers_cons _ _ hlast, renderText, Quoted.write]; rfl⟩
    obtain ⟨es, hes⟩ := hhead
    rw [hes] at hmembers ⊢
    simp only [skipBlanks_cons (c := '"') (by decide), hmembers]
    rfl

/-- A tree of integers and texts is read back from its text. What stands behind a value, nothing, a comma
    or a closing bracket, shows where it ends. -/
theorem Plain.readsBack {t : Tree} (h : t.Plain) : t.ReadsBack := by
  induction h with
  | null => exact readsBack_null
  | bool b => exact readsBack_bool b
  | int i => exact readsBack_int i
  | text s => exact readsBack_text s
  | array hitems ih => exact readsBack_array hitems ih
  | object hname _ ih => exact readsBack_object hname ih

/-- Reading undoes writing. -/
theorem Plain.read?_render {t : Tree} (h : t.Plain) : read? (String.ofList t.render) = some t := by
  have hread := h.readsBack (2 * t.render.length + 1) [] (by omega) (by rintro c ⟨⟩)
  rw [List.append_nil] at hread
  simp only [read?, String.toList_ofList, hread]
  rfl

mutual

/-- How deep arrays and objects stand in one another. -/
def depth : Tree → Nat
  | null => 0
  | bool _ => 0
  | number _ => 0
  | text _ => 0
  | array items => depthItems items + 1
  | object members => depthMembers members + 1

/-- The depth of the deepest item. -/
def depthItems : List Tree → Nat
  | [] => 0
  | t :: rest => max t.depth (depthItems rest)

/-- The depth of the deepest member. -/
def depthMembers : List (Option String × Tree) → Nat
  | [] => 0
  | (_, t) :: rest => max t.depth (depthMembers rest)

end

private theorem depthItems_le_iff {items : List Tree} {n : Nat} :
    depthItems items ≤ n ↔ ∀ t ∈ items, t.depth ≤ n := by
  induction items with
  | nil => simp [depthItems]
  | cons t rest ih => rw [depthItems, Nat.max_le, ih, List.forall_mem_cons]

private theorem depthMembers_le_iff {members : List (Option String × Tree)} {n : Nat} :
    depthMembers members ≤ n ↔ ∀ m ∈ members, m.2.depth ≤ n := by
  induction members with
  | nil => simp [depthMembers]
  | cons m rest ih => rw [depthMembers, Nat.max_le, ih, List.forall_mem_cons]

theorem depth_array_le_iff {items : List Tree} {n : Nat} :
    (array items).depth ≤ n + 1 ↔ ∀ t ∈ items, t.depth ≤ n := by
  rw [depth, Nat.add_le_add_iff_right, depthItems_le_iff]

theorem depth_object_le_iff {members : List (Option String × Tree)} {n : Nat} :
    (object members).depth ≤ n + 1 ↔ ∀ m ∈ members, m.2.depth ≤ n := by
  rw [depth, Nat.add_le_add_iff_right, depthMembers_le_iff]

/-- In an array each item has one level less. -/
theorem exists_of_depth_array_le {items : List Tree} {n : Nat} (h : (array items).depth ≤ n) :
    ∃ bound, n = bound + 1 ∧ ∀ t ∈ items, t.depth ≤ bound := by
  obtain ⟨bound, rfl⟩ := Nat.exists_eq_add_one.mpr (show 0 < n by rw [depth] at h; omega)
  exact ⟨bound, rfl, depth_array_le_iff.1 h⟩

/-- In an object each value has one level less. -/
theorem exists_of_depth_object_le {members : List (Option String × Tree)} {n : Nat}
    (h : (object members).depth ≤ n) :
    ∃ bound, n = bound + 1 ∧ ∀ m ∈ members, m.2.depth ≤ bound := by
  obtain ⟨bound, rfl⟩ := Nat.exists_eq_add_one.mpr (show 0 < n by rw [depth] at h; omega)
  exact ⟨bound, rfl, depth_object_le_iff.1 h⟩

end Tree

end GraphTables.Json
