import GraphTables.Proofs.Layout.Runs
import Mathlib.Data.List.SplitBy

namespace GraphTables

namespace Element

/-- The properties of the element, each with the element that it is of. -/
def owned (e : Element) : List ((Kind × SortedMap Column String) × Property) :=
  e.cells.map fun p => (e.identity, p)

/-- The element is what all elements of the run are, and has the properties of all, in their order. -/
structure Joins (run : List Element) (e : Element) : Prop where
  ne_nil : run ≠ []
  identity : ∀ f ∈ run, f.identity = e.identity
  cells : e.cells = run.flatMap Element.cells

private theorem joins_joined {e : Element} {rest : List Element} (h : ∀ f ∈ rest, f.identity = e.identity) :
    Joins (e :: rest) (joined (e, rest)) where
  ne_nil := List.cons_ne_nil e rest
  identity := List.forall_mem_cons.2 ⟨rfl, h⟩
  cells := List.flatMap_cons.symm

private theorem sameIdentity_eq_false_iff {e f : Element} :
    e.sameIdentity f = false ↔ e.identity ≠ f.identity := by
  rw [← Bool.not_eq_true, sameIdentity_iff]

end Element

namespace Layout

open Element

variable {e f : Element}

private theorem foldInto_of_same (hsame : e.sameIdentity f = true) (rest : List Element) :
    foldInto e (f :: rest) = { e with cells := e.cells ++ f.cells } :: rest := by
  rw [foldInto, if_pos hsame]

private theorem foldInto_of_other (hother : e.sameIdentity f = false) (rest : List Element) :
    foldInto e (f :: rest) = e :: f :: rest := by
  rw [foldInto, if_neg (by simp [hother])]

private theorem flatMap_owned_foldInto (e : Element) (folded : List Element) :
    (foldInto e folded).flatMap owned = e.owned ++ folded.flatMap owned := by
  cases folded with
  | nil => rfl
  | cons f rest =>
    cases hsame : e.sameIdentity f with
    | true =>
      have hidentity : f.identity = e.identity := (sameIdentity_iff.1 hsame).symm
      have howned : owned { e with cells := e.cells ++ f.cells } = e.owned ++ f.owned := by
        rw [owned, owned, owned, hidentity]
        exact List.map_append
      rw [foldInto_of_same hsame, List.flatMap_cons, howned, List.append_assoc, List.flatMap_cons]
    | false => rw [foldInto_of_other hsame, List.flatMap_cons]

/-- Two elements that are the same are put before others one after the other, or as one. -/
theorem foldInto_foldInto (hsame : e.sameIdentity f = true) (folded : List Element) :
    foldInto e (foldInto f folded) = foldInto { e with cells := e.cells ++ f.cells } folded := by
  cases folded with
  | nil => exact foldInto_of_same hsame []
  | cons g rest =>
    have hjoined : sameIdentity { e with cells := e.cells ++ f.cells } g = f.sameIdentity g := by
      rw [Bool.eq_iff_iff, sameIdentity_iff, sameIdentity_iff, ← sameIdentity_iff.1 hsame]
      rfl
    cases hnext : f.sameIdentity g with
    | true =>
      have hsame' : e.sameIdentity { f with cells := f.cells ++ g.cells } = true := hsame
      rw [foldInto_of_same hnext, foldInto_of_same hsame', foldInto_of_same (hjoined.trans hnext),
        List.append_assoc]
    | false =>
      rw [foldInto_of_other hnext, foldInto_of_same hsame, foldInto_of_other (hjoined.trans hnext)]

private theorem foldRuns_foldInto_append (e : Element) (folded more : List Element) :
    foldRuns (foldInto e folded ++ more) = foldInto e (foldRuns (folded ++ more)) := by
  cases folded with
  | nil => rfl
  | cons f rest =>
    cases hsame : e.sameIdentity f with
    | true =>
      rw [foldInto_of_same hsame, List.cons_append, foldRuns, List.cons_append, foldRuns,
        foldInto_foldInto hsame]
    | false =>
      rw [foldInto_of_other hsame, List.cons_append, foldRuns]

private theorem isChain_foldInto (e : Element) {folded : List Element}
    (h : folded.IsChain fun a b => a.identity ≠ b.identity) :
    (foldInto e folded).IsChain fun a b => a.identity ≠ b.identity := by
  cases folded with
  | nil => exact .singleton e
  | cons f rest =>
    cases hsame : e.sameIdentity f with
    | true =>
      rw [foldInto_of_same hsame]
      rw [List.isChain_cons] at h ⊢
      refine ⟨fun g hg => ?_, h.2⟩
      have hother := h.1 g hg
      rwa [← sameIdentity_iff.1 hsame] at hother
    | false =>
      rw [foldInto_of_other hsame]
      exact .cons_cons (sameIdentity_eq_false_iff.1 hsame) h

private theorem flatMap_owned_foldRuns (elements : List Element) :
    (foldRuns elements).flatMap owned = elements.flatMap owned := by
  induction elements with
  | nil => rfl
  | cons e rest ih => rw [foldRuns, flatMap_owned_foldInto, ih, List.flatMap_cons]

private theorem isChain_foldRuns (elements : List Element) :
    (foldRuns elements).IsChain fun a b => a.identity ≠ b.identity := by
  induction elements with
  | nil => exact .nil
  | cons e rest ih => exact isChain_foldInto e ih

/-- What comes first can be folded before the rest is there, so rows can be folded in chunks, wherever these
    are cut. -/
theorem foldRuns_foldRuns_append (elements more : List Element) :
    foldRuns (foldRuns elements ++ more) = foldRuns (elements ++ more) := by
  induction elements with
  | nil => rfl
  | cons e rest ih => rw [foldRuns, foldRuns_foldInto_append, ih, List.cons_append, foldRuns]

private theorem foldRuns_idempotent (elements : List Element) :
    foldRuns (foldRuns elements) = foldRuns elements := by
  have hfolded := foldRuns_foldRuns_append elements []
  rwa [List.append_nil, List.append_nil] at hfolded

/-- What comes last can be folded before it is put behind the rest. -/
theorem foldRuns_append_foldRuns (elements more : List Element) :
    foldRuns (elements ++ foldRuns more) = foldRuns (elements ++ more) := by
  induction elements with
  | nil => exact foldRuns_idempotent more
  | cons e rest ih => rw [List.cons_append, foldRuns, ih, List.cons_append, foldRuns]

/-- A list of runs, each of one element and no two neighbours of the same, is folded run by run. -/
theorem forall₂_joins {runs : List (List Element)} (hne : [] ∉ runs)
    (hsame : ∀ run ∈ runs, run.IsChain fun e f => e.sameIdentity f = true)
    (hapart : runs.IsChain fun run next =>
      ∃ h h', (run.getLast h).sameIdentity (next.head h') = false) :
    List.Forall₂ Joins runs (foldRuns runs.flatten) := by
  induction runs with
  | nil => exact .nil
  | cons run runs ih =>
    rw [List.mem_cons, not_or] at hne
    rw [List.forall_mem_cons] at hsame
    rw [List.isChain_cons] at hapart
    obtain ⟨e, rest, rfl⟩ := List.exists_cons_of_ne_nil (Ne.symm hne.1)
    have hrest : ∀ f ∈ rest, f.identity = e.identity := by
      have hchain := hsame.1.imp fun (a b : Element) (h : a.sameIdentity b = true) => sameIdentity_iff.1 h
      have : Trans (fun a b : Element => a.identity = b.identity)
          (fun a b : Element => a.identity = b.identity) fun a b => a.identity = b.identity :=
        ⟨Eq.trans⟩
      have hpairwise := List.isChain_iff_pairwise.1 hchain
      exact fun f hf => ((List.pairwise_cons.1 hpairwise).1 f hf).symm
    have hlast : ((e :: rest).getLast (List.cons_ne_nil e rest)).identity = e.identity := by
      rcases List.mem_cons.1 (List.getLast_mem (List.cons_ne_nil e rest)) with heq | hmem
      · rw [heq]
      · exact hrest _ hmem
    have hlater : ∀ f ∈ runs.flatten.head?, f.identity ≠ e.identity := by
      intro f hf
      cases runs with
      | nil => cases hf
      | cons next runs =>
        obtain ⟨_, hnext, hother⟩ := hapart.1 next rfl
        obtain ⟨g, later, rfl⟩ := List.exists_cons_of_ne_nil hnext
        obtain rfl : g = f := by simpa using hf
        rw [sameIdentity_eq_false_iff, hlast] at hother
        exact hother.symm
    rw [List.flatten_cons, foldRuns_run_append hrest hlater]
    exact .cons (joins_joined hrest) (ih hne.2 hsame.2 hapart.2)

/-- Folding makes one element of each longest run. -/
theorem forall₂_joins_splitBy (elements : List Element) :
    List.Forall₂ Joins (elements.splitBy sameIdentity) (foldRuns elements) := by
  have hruns := forall₂_joins (List.nil_notMem_splitBy sameIdentity elements)
    (fun run hrun => List.isChain_of_mem_splitBy hrun)
    (List.isChain_getLast_head_splitBy sameIdentity elements)
  rwa [List.flatten_splitBy] at hruns

end Layout

private theorem Kind.spansRows_iff (k : Kind) : k.layout.spansRows = true ↔ k = .vertex ∨ k = .edge := by
  cases k <;> decide

/-- How the elements of single rows are folded, for all lists of elements.

    * Folding two chunks, and then what they are folded to, is folding all at once. So a second folding
      changes nothing.
    * The properties are the same before and after, in the same order and each of the same element.
    * Rows of vertices and edges that follow each other and are of one element, as many as there are, make
      one element with all their properties, also if some of them have none. So no two neighbours are the
      same element afterwards. Elements of other kinds stay as they are. -/
theorem Kind.fold_chunks (k : Kind) (elements more : List Element) :
    k.layout.fold (elements ++ more) = k.layout.fold (k.layout.fold elements ++ k.layout.fold more) ∧
      k.layout.fold (k.layout.fold elements) = k.layout.fold elements ∧
      (k.layout.fold elements).flatMap Element.owned = elements.flatMap Element.owned ∧
      (k = .vertex ∨ k = .edge →
        (k.layout.fold elements).IsChain (fun e f => e.identity ≠ f.identity) ∧
          List.Forall₂ Element.Joins (elements.splitBy Element.sameIdentity) (k.layout.fold elements)) ∧
      (¬(k = .vertex ∨ k = .edge) → k.layout.fold elements = elements) := by
  rw [← k.spansRows_iff]
  cases hspans : k.layout.spansRows with
  | true =>
    have hfold : k.layout.fold = Layout.foldRuns := by
      funext elements
      rw [Layout.fold, if_pos hspans]
    rw [hfold]
    refine ⟨?_, Layout.foldRuns_idempotent elements, Layout.flatMap_owned_foldRuns elements,
      fun _ => ⟨Layout.isChain_foldRuns elements, Layout.forall₂_joins_splitBy elements⟩,
      fun hother => absurd rfl hother⟩
    rw [Layout.foldRuns_foldRuns_append, Layout.foldRuns_append_foldRuns]
  | false =>
    have hfold : k.layout.fold = id := by
      funext elements
      rw [Layout.fold, hspans]
      rfl
    rw [hfold]
    exact ⟨rfl, rfl, rfl, nofun, fun _ => rfl⟩

/-- Two chunks of rows of people, cut between two rows of one person. One of these has no property, as has the
    row of the next person, and the first person comes once more at the end. -/
theorem Kind.fold_chunks_people :
    let person (name : String) (properties : List (String × String)) : Element :=
      ⟨.vertex, .ofList [(.label, "person"), (.primaryValues, name)],
        properties.map fun p => ⟨.propertyKey, p.1, .propertyValue, p.2⟩⟩
    let elements := [person "marko" [("age", "29")], person "marko" []]
    let more := [person "marko" [("city", "rome")], person "josh" [], person "marko" [("age", "30")]]
    let folded := [person "marko" [("age", "29"), ("city", "rome")], person "josh" [],
      person "marko" [("age", "30")]]
    Kind.vertex.layout.fold (elements ++ more) = folded ∧
      Kind.vertex.layout.fold
        (Kind.vertex.layout.fold elements ++ Kind.vertex.layout.fold more) = folded ∧
      Kind.vertex.layout.fold folded = folded ∧
      List.Forall₂ Element.Joins ((elements ++ more).splitBy Element.sameIdentity) folded := by
  intro person elements more folded
  have hfolded : Kind.vertex.layout.fold (elements ++ more) = folded := by decide +kernel
  obtain ⟨hchunks, _⟩ := Kind.vertex.fold_chunks elements more
  obtain ⟨_, hagain, _, hruns, _⟩ := Kind.vertex.fold_chunks (elements ++ more) []
  rw [hfolded] at hchunks hagain hruns
  exact ⟨hfolded, hchunks.symm, hagain, (hruns (.inl rfl)).2⟩

end GraphTables
