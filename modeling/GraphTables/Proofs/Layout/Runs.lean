import GraphTables.Layout.Decoding

namespace GraphTables

section Runs

variable {α β : Type} {key : α → β}

/-- Members with equal keys stand together. -/
def Grouped (key : α → β) (l : List α) : Prop :=
  ∀ a b c, [a, b, c].Sublist l → key a = key c → key a = key b

/-- A list cut into runs, each a first member and those that follow it with the same key. No two runs
    have the same key. -/
structure CutInRuns (key : α → β) (l : List α) (runs : List (α × List α)) : Prop where
  flatten : l = runs.flatMap fun r => r.1 :: r.2
  same : ∀ r ∈ runs, ∀ a ∈ r.2, key a = key r.1
  distinct : runs.Pairwise fun r s => key r.1 ≠ key s.1

theorem Grouped.map {γ : Type} {f : γ → α} {l : List γ} (h : Grouped (key ∘ f) l) :
    Grouped key (l.map f) := by
  intro a b c hsublist
  obtain ⟨l', hl', hmap⟩ := List.sublist_map_iff.1 hsublist
  obtain ⟨x, xs, rfl, rfl, hxs⟩ := List.map_eq_cons_iff.1 hmap.symm
  obtain ⟨y, ys, rfl, rfl, hys⟩ := List.map_eq_cons_iff.1 hxs
  obtain ⟨z, zs, rfl, rfl, hzs⟩ := List.map_eq_cons_iff.1 hys
  obtain rfl := List.map_eq_nil_iff.1 hzs
  exact h x y z hl'

theorem CutInRuns.mem_of_mem {l : List α} {runs : List (α × List α)} (h : CutInRuns key l runs)
    {r : α × List α} (hr : r ∈ runs) : r.1 ∈ l := by
  rw [h.flatten]
  exact List.mem_flatMap.2 ⟨r, hr, by simp⟩

/-- A list in which equal keys stand together can be cut into runs. -/
theorem exists_cutInRuns {l : List α} (h : Grouped key l) : ∃ runs, CutInRuns key l runs := by
  classical
  induction l with
  | nil => exact ⟨[], rfl, by simp, .nil⟩
  | cons a rest ih =>
    obtain ⟨runs, hruns⟩ := ih fun x y z hsublist => h x y z (hsublist.cons a)
    cases runs with
    | nil =>
      obtain rfl : rest = [] := hruns.flatten
      exact ⟨[(a, [])], rfl, by simp, List.pairwise_singleton _ _⟩
    | cons r runs =>
      obtain ⟨hdistinct, hlater⟩ := List.pairwise_cons.1 hruns.distinct
      by_cases hkey : key a = key r.1
      · -- The member joins the first run.
        refine ⟨(a, r.1 :: r.2) :: runs, ?_, ?_, ?_⟩
        · rw [hruns.flatten]
          rfl
        · rw [List.forall_mem_cons]
          refine ⟨?_, fun s hs => hruns.same s (List.mem_cons_of_mem _ hs)⟩
          rw [List.forall_mem_cons]
          refine ⟨hkey.symm, fun b hb => ?_⟩
          rw [hruns.same r (by simp) b hb, hkey]
        · refine List.pairwise_cons.2 ⟨fun s hs => ?_, hlater⟩
          rw [hkey]
          exact hdistinct s hs
      · -- The member is a run of its own: behind one of another key its key cannot come again.
        refine ⟨(a, []) :: r :: runs, ?_, ?_, List.pairwise_cons.2 ⟨?_, hruns.distinct⟩⟩
        · rw [hruns.flatten]
          rfl
        · rw [List.forall_mem_cons]
          exact ⟨by simp, hruns.same⟩
        · rw [List.forall_mem_cons]
          refine ⟨hkey, fun s hs heq => hkey ?_⟩
          apply h a r.1 s.1 _ heq
          have hpair : [r.1, s.1].Sublist rest := by
            rw [hruns.flatten, List.flatMap_cons, List.cons_append]
            have hmem : s.1 ∈ r.2 ++ runs.flatMap fun r => r.1 :: r.2 :=
              List.mem_append_right _ (List.mem_flatMap.2 ⟨s, hs, by simp⟩)
            exact (List.singleton_sublist.2 hmem).cons_cons r.1
          exact hpair.cons_cons a

/-- A test that members of equal keys pass alike takes out whole runs. -/
theorem CutInRuns.filter {l : List α} {runs : List (α × List α)} (h : CutInRuns key l runs)
    {p : α → Bool} (hp : ∀ a b, key a = key b → p a = p b) :
    CutInRuns key (l.filter p) (runs.filter fun r => p r.1) := by
  refine ⟨?_, ?_, h.distinct.filter _⟩
  · have hrun : ∀ r ∈ runs, (r.1 :: r.2).filter p = if p r.1 then r.1 :: r.2 else [] := by
      intro r hr
      have hall : ∀ a ∈ r.1 :: r.2, p a = p r.1 := by
        rw [List.forall_mem_cons]
        exact ⟨rfl, fun a ha => hp _ _ (h.same r hr a ha)⟩
      split
      next hkept => exact List.filter_eq_self.2 fun a ha => (hall a ha).trans hkept
      next hdropped =>
        rw [List.filter_eq_nil_iff]
        intro a ha
        rwa [hall a ha]
    have hflatten := h.flatten
    clear h
    induction runs generalizing l with
    | nil => rw [hflatten]; rfl
    | cons r runs ih =>
      have hrest := ih (fun s hs => hrun s (List.mem_cons_of_mem _ hs)) rfl
      rw [hflatten, List.flatMap_cons, List.filter_append, hrun r (by simp), hrest, List.filter_cons]
      split <;> rfl
  · intro r hr
    exact h.same r (List.mem_filter.1 hr).1

/-- A run has all members of the list with its key, in their order. -/
theorem CutInRuns.run_eq_filter [DecidableEq β] {l : List α} {runs : List (α × List α)}
    (h : CutInRuns key l runs) {r : α × List α} (hr : r ∈ runs) :
    r.1 :: r.2 = l.filter fun a => key a = key r.1 := by
  have hkept := h.filter (p := fun a => key a = key r.1) fun a b hab => by rw [hab]
  have honly : runs.filter (fun s => key s.1 = key r.1) = [r] := by
    have hdistinct := h.distinct
    obtain ⟨before, after, rfl⟩ := List.append_of_mem hr
    obtain ⟨_, hafter, hbefore⟩ := List.pairwise_append.1 hdistinct
    have hnone : before.filter (fun s => key s.1 = key r.1) = [] :=
      List.filter_eq_nil_iff.2 fun s hs => by simpa using hbefore s hs r (by simp)
    have hnone' : after.filter (fun s => key s.1 = key r.1) = [] :=
      List.filter_eq_nil_iff.2 fun s hs => by
        simpa [eq_comm] using (List.pairwise_cons.1 hafter).1 s hs
    rw [List.filter_append, hnone, List.filter_cons_of_pos (by simp), hnone', List.nil_append]
  rw [honly] at hkept
  simpa using hkept.flatten.symm

/-- A run has no more members than the list has with its key. -/
theorem CutInRuns.length_le [DecidableEq β] {l : List α} {runs : List (α × List α)}
    (h : CutInRuns key l runs) {r : α × List α} (hr : r ∈ runs) :
    (r.1 :: r.2).length ≤ (l.filter fun a => key a = key r.1).length :=
  Nat.le_of_eq (congrArg List.length (h.run_eq_filter hr))

end Runs

namespace Element

/-- What elements are told apart by. -/
def identity (e : Element) : Kind × SortedMap Column String := (e.kind, e.columns)

theorem sameIdentity_iff {e f : Element} : e.sameIdentity f = true ↔ e.identity = f.identity := by
  simp [sameIdentity, identity]

/-- The elements of a run as one. -/
def joined (run : Element × List Element) : Element :=
  { run.1 with cells := run.1.cells ++ run.2.flatMap (·.cells) }

@[simp] theorem identity_joined (run : Element × List Element) :
    (joined run).identity = run.1.identity := rfl

end Element

namespace Layout

/-- The first of the folded elements is the element that comes first. -/
theorem identity_head?_foldRuns (elements : List Element) :
    (foldRuns elements).head?.map Element.identity = elements.head?.map Element.identity := by
  cases elements with
  | nil => rfl
  | cons e rest =>
    rw [foldRuns]
    cases foldRuns rest with
    | nil => rfl
    | cons f folded =>
      rw [foldInto]
      split <;> rfl

/-- A run is folded into one element, and apart from what follows if that is another element. -/
theorem foldRuns_run_append {e : Element} {rest later : List Element}
    (hrest : ∀ f ∈ rest, f.identity = e.identity)
    (hlater : ∀ f ∈ later.head?, f.identity ≠ e.identity) :
    foldRuns (e :: rest ++ later) = Element.joined (e, rest) :: foldRuns later := by
  induction rest generalizing e with
  | nil =>
    have hhead := identity_head?_foldRuns later
    have hself : Element.joined (e, []) = e := by simp [Element.joined]
    rw [List.singleton_append, foldRuns, hself]
    cases hfolded : foldRuns later with
    | nil => rfl
    | cons f folded =>
      rw [hfolded, List.head?_cons, Option.map_some, eq_comm, Option.map_eq_some_iff] at hhead
      obtain ⟨g, hg, hidentity⟩ := hhead
      have hother : ¬e.sameIdentity f = true := by
        rw [Element.sameIdentity_iff, ← hidentity]
        exact fun heq => hlater g hg heq.symm
      rw [foldInto, if_neg hother]
  | cons f rest ih =>
    rw [List.forall_mem_cons] at hrest
    obtain ⟨hf, hrest⟩ := hrest
    have hrun := ih (e := f) (fun g hg => (hrest g hg).trans hf.symm) fun g hg => by
      rw [hf]
      exact hlater g hg
    have hsame : e.sameIdentity (Element.joined (f, rest)) = true := by
      rw [Element.sameIdentity_iff, Element.identity_joined, hf]
    rw [List.cons_append, foldRuns, hrun, foldInto, if_pos hsame]
    rfl

variable {elements : List Element} {runs : List (Element × List Element)}

/-- What stands behind the first run is another element. -/
theorem head?_flatMap_ne {r : Element × List Element}
    (h : (r :: runs).Pairwise fun r s => r.1.identity ≠ s.1.identity) :
    ∀ f ∈ (runs.flatMap fun r => r.1 :: r.2).head?, f.identity ≠ r.1.identity := by
  intro f hf
  cases runs with
  | nil => cases hf
  | cons s runs =>
    obtain rfl : s.1 = f := by simpa using hf
    exact ((List.pairwise_cons.1 h).1 s (by simp)).symm

/-- Folding makes one element of each run. -/
theorem foldRuns_of_runs (h : CutInRuns Element.identity elements runs) :
    foldRuns elements = runs.map Element.joined := by
  obtain ⟨rfl, hsame, hdistinct⟩ := h
  induction runs with
  | nil => rfl
  | cons r runs ih =>
    rw [List.forall_mem_cons] at hsame
    rw [List.flatMap_cons, foldRuns_run_append hsame.1 (head?_flatMap_ne hdistinct),
      ih hsame.2 (List.pairwise_cons.1 hdistinct).2, List.map_cons]

/-- No two folded elements are the same element. -/
theorem pairwise_foldRuns (h : Grouped Element.identity elements) :
    (foldRuns elements).Pairwise fun e f => e.identity ≠ f.identity := by
  obtain ⟨runs, hruns⟩ := exists_cutInRuns h
  rw [foldRuns_of_runs hruns, List.pairwise_map]
  exact hruns.distinct

/-- Folding loses no element and makes up none. -/
theorem exists_mem_foldRuns_iff (h : Grouped Element.identity elements)
    {identity : Kind × SortedMap Column String} :
    (∃ e ∈ foldRuns elements, e.identity = identity) ↔ ∃ e ∈ elements, e.identity = identity := by
  obtain ⟨runs, hruns⟩ := exists_cutInRuns h
  rw [foldRuns_of_runs hruns]
  constructor
  · rintro ⟨e, he, hidentity⟩
    obtain ⟨r, hr, rfl⟩ := List.mem_map.1 he
    exact ⟨r.1, hruns.mem_of_mem hr, hidentity⟩
  · rintro ⟨e, he, hidentity⟩
    rw [hruns.flatten] at he
    obtain ⟨r, hr, he⟩ := List.mem_flatMap.1 he
    refine ⟨Element.joined r, List.mem_map_of_mem hr, ?_⟩
    rw [Element.identity_joined, ← hidentity]
    rcases List.mem_cons.1 he with rfl | hlater
    · rfl
    · exact (hruns.same r hr e hlater).symm

/-- A folded element has the properties of all elements that it is, in their order. -/
theorem cells_of_mem_foldRuns (h : Grouped Element.identity elements) {e : Element}
    (he : e ∈ foldRuns elements) :
    e.cells = (elements.filter fun f => f.identity = e.identity).flatMap Element.cells := by
  obtain ⟨runs, hruns⟩ := exists_cutInRuns h
  rw [foldRuns_of_runs hruns] at he
  obtain ⟨r, hr, rfl⟩ := List.mem_map.1 he
  rw [Element.identity_joined, ← hruns.run_eq_filter hr, List.flatMap_cons]
  rfl

/-- Rows of several elements, one for each property and those of an element next to each other, are
    folded into one element each. -/
theorem foldRuns_flatMap (kind : Kind) {runs : List (SortedMap Column String × List Property)}
    (hne : ∀ r ∈ runs, r.2 ≠ []) (hdistinct : runs.Pairwise fun a b => a.1 ≠ b.1) :
    foldRuns (runs.flatMap fun r => r.2.map fun p => ⟨kind, r.1, [p]⟩) =
      runs.map fun r => ⟨kind, r.1, r.2⟩ := by
  induction runs with
  | nil => rfl
  | cons r runs ih =>
    obtain ⟨columns, properties⟩ := r
    rw [List.forall_mem_cons] at hne
    obtain ⟨hother, hrest⟩ := List.pairwise_cons.1 hdistinct
    obtain ⟨p, ps, rfl⟩ := List.exists_cons_of_ne_nil hne.1
    let single (p : Property) : Element := ⟨kind, columns, [p]⟩
    have hsame : ∀ f ∈ ps.map single, f.identity = (single p).identity := by
      intro f hf
      obtain ⟨q, _, rfl⟩ := List.mem_map.1 hf
      rfl
    have hlater : ∀ f ∈ (runs.flatMap fun r => r.2.map fun p => (⟨kind, r.1, [p]⟩ : Element)).head?,
        f.identity ≠ (single p).identity := by
      intro f hf
      obtain ⟨s, hs, hf⟩ := List.mem_flatMap.1 (List.mem_of_mem_head? hf)
      obtain ⟨q, _, rfl⟩ := List.mem_map.1 hf
      exact fun heq => hother s hs (congrArg Prod.snd heq).symm
    have hjoined : Element.joined (single p, ps.map single) = ⟨kind, columns, p :: ps⟩ := by
      simp [Element.joined, single, List.flatMap_map]
    rw [List.flatMap_cons, List.map_cons, List.map_cons, ← hjoined, ← ih hne.2 hrest]
    exact foldRuns_run_append hsame hlater

/-- Leaving out whole elements before folding is leaving them out afterwards. -/
theorem foldRuns_filter (h : Grouped Element.identity elements) {p : Element → Bool}
    (hp : ∀ e f, e.identity = f.identity → p e = p f) :
    foldRuns (elements.filter p) = (foldRuns elements).filter p := by
  obtain ⟨runs, hruns⟩ := exists_cutInRuns h
  have hjoined : (fun r => p (Element.joined r)) = fun r => p r.1 := by
    funext r
    exact hp _ _ (Element.identity_joined r)
  rw [foldRuns_of_runs hruns, foldRuns_of_runs (hruns.filter hp), List.filter_map]
  exact congrArg (fun q => (runs.filter q).map Element.joined) hjoined.symm

/-- If no run is longer than `bound`, the first `n * bound` elements of single rows are enough to know
    the first `n` elements. -/
theorem foldRuns_take {bound : Nat} (h : CutInRuns Element.identity elements runs)
    (hbound : ∀ r ∈ runs, (r.1 :: r.2).length ≤ bound) {n m : Nat} (hm : n * bound ≤ m) :
    (foldRuns (elements.take m)).take n = (foldRuns elements).take n := by
  obtain ⟨rfl, hsame, hdistinct⟩ := h
  induction runs generalizing n m with
  | nil => simp
  | cons r runs ih =>
    rw [List.forall_mem_cons] at hsame hbound
    cases n with
    | zero => simp
    | succ n =>
      have hfirst : (r.1 :: r.2).length ≤ m := by
        have hlength := hbound.1
        rw [Nat.succ_mul] at hm
        omega
      have hrest : n * bound ≤ m - (r.1 :: r.2).length := by
        have hlength := hbound.1
        rw [Nat.succ_mul] at hm
        omega
      have hother := head?_flatMap_ne hdistinct
      have hcut : ∀ f ∈ ((runs.flatMap fun r => r.1 :: r.2).take
          (m - (r.1 :: r.2).length)).head?, f.identity ≠ r.1.identity := by
        intro f hf
        apply hother
        rw [List.head?_take] at hf
        split at hf
        · cases hf
        · exact hf
      have hlater := ih hbound.2 hrest hsame.2 (List.pairwise_cons.1 hdistinct).2
      rw [List.flatMap_cons, List.take_append, List.take_of_length_le hfirst,
        foldRuns_run_append hsame.1 hcut, foldRuns_run_append hsame.1 hother, List.take_succ_cons,
        List.take_succ_cons, hlater]

end Layout

end GraphTables
