import GraphTables.Element
import GraphTables.Proofs.Except

namespace GraphTables

namespace ElementId

/-- Every escape mark stands before a separator or before another escape mark, which it escapes. -/
def wellEscaped : List Char → Bool
  | [] => true
  | [c] => c != escapeMark
  | c :: d :: rest =>
    if c = escapeMark then (d == separator || d == escapeMark) && wellEscaped rest
    else wellEscaped (d :: rest)

private theorem wellEscaped_cons_of_ne {c : Char} (hc : c ≠ escapeMark) (cs : List Char) :
    wellEscaped (c :: cs) = wellEscaped cs := by
  cases cs with
  | nil => simpa [wellEscaped] using hc
  | cons d rest => rw [wellEscaped, if_neg hc]

private theorem wellEscaped_escaped {c : Char} (hc : c = separator ∨ c = escapeMark) (cs : List Char) :
    wellEscaped (escapeMark :: c :: cs) = wellEscaped cs := by
  have hspecial : (c == separator || c == escapeMark) = true := by simpa using hc
  rw [wellEscaped, if_pos rfl, hspecial, Bool.true_and]

/-- What follows a part decides. -/
theorem wellEscaped_escape_append (part rest : List Char) :
    wellEscaped (escape part ++ rest) = wellEscaped rest := by
  induction part with
  | nil => rfl
  | cons c part ih =>
    by_cases hc : c = separator ∨ c = escapeMark
    · rw [escape, if_pos hc, List.cons_append, List.cons_append, wellEscaped_escaped hc, ih]
    · have hne : c ≠ escapeMark := fun heq => hc (.inr heq)
      rw [escape, if_neg hc, List.cons_append, wellEscaped_cons_of_ne hne, ih]

private theorem wellEscaped_joinFrom (part : List Char) (rest : List (List Char)) :
    wellEscaped (joinFrom part rest) = true := by
  induction rest generalizing part with
  | nil =>
    have hpart := wellEscaped_escape_append part []
    rw [List.append_nil] at hpart
    exact hpart
  | cons next rest ih =>
    have hseparator : separator ≠ escapeMark := by decide
    rw [joinFrom, wellEscaped_escape_append, wellEscaped_cons_of_ne hseparator, ih]

private theorem joinFrom_cons (c : Char) (part : List Char) (rest : List (List Char)) :
    joinFrom (c :: part) rest =
      if c = separator ∨ c = escapeMark then escapeMark :: c :: joinFrom part rest
      else c :: joinFrom part rest := by
  by_cases hc : c = separator ∨ c = escapeMark <;> cases rest <;> simp [joinFrom, escape, hc]

/-- A text whose escape marks all escape something is joined again from what it splits into. -/
theorem joinFrom_split {cs : List Char} (h : wellEscaped cs = true) :
    joinFrom (split cs).1 (split cs).2 = cs := by
  fun_induction split cs with
  | case1 => rfl
  | case2 => rfl
  | case3 c hseparator =>
    have hmark : c ≠ escapeMark := by simpa [wellEscaped] using h
    simp [joinFrom, escape, hseparator, hmark]
  | case4 d rest part others hsplit ih =>
    rw [wellEscaped, if_pos rfl, Bool.and_eq_true] at h
    have hspecial : d = separator ∨ d = escapeMark := by simpa using h.1
    rw [hsplit] at ih
    rw [joinFrom_cons, if_pos hspecial, ih h.2]
  | case5 d rest part others hsplit hmark ih =>
    rw [wellEscaped_cons_of_ne hmark] at h
    rw [hsplit] at ih
    rw [joinFrom, ih h]
    rfl
  | case6 c d rest hmark part others hsplit hseparator ih =>
    have hplain : ¬(c = separator ∨ c = escapeMark) := not_or.2 ⟨hseparator, hmark⟩
    rw [wellEscaped_cons_of_ne hmark] at h
    rw [hsplit] at ih
    rw [joinFrom_cons, if_neg hplain, ih h]

theorem parts_ne_nil (id : ElementId) : id.parts ≠ [] := List.cons_ne_nil _ _

/-- The identifier made of the parts of a text joins what the text splits into. -/
theorem toList_composite_parts (id : ElementId) :
    (composite id.parts).text.toList =
      joinFrom (split id.text.toList).1 (split id.text.toList).2 := by
  have hparts : id.parts = String.ofList (split id.text.toList).1 ::
      (split id.text.toList).2.map String.ofList := rfl
  rw [hparts, composite]
  simp only [List.map_map, Function.comp_def, String.toList_ofList, List.map_id']

private theorem wellEscaped_composite (ps : List String) :
    wellEscaped (composite ps).text.toList = true := by
  cases ps with
  | nil => rfl
  | cons part rest => rw [composite, String.toList_ofList, wellEscaped_joinFrom]

/-- A text is the identifier made of its parts exactly if every escape mark in it escapes something. -/
theorem composite_parts_eq_iff {id : ElementId} :
    composite id.parts = id ↔ wellEscaped id.text.toList = true := by
  constructor
  · intro h
    rw [← h]
    exact wellEscaped_composite _
  · intro h
    have htext : (composite id.parts).text = id.text := by
      rw [← String.toList_inj, toList_composite_parts, joinFrom_split h]
    obtain ⟨text⟩ := id
    exact congrArg ElementId.mk htext

private theorem exists_composite_eq_iff {id : ElementId} :
    (∃ ps, composite ps = id) ↔ wellEscaped id.text.toList = true := by
  constructor
  · rintro ⟨ps, rfl⟩
    exact wellEscaped_composite ps
  · intro h
    exact ⟨id.parts, composite_parts_eq_iff.2 h⟩

/-- Different lists of parts have different identifiers. -/
theorem composite_injective {ps qs : List String} (hps : ps ≠ []) (hqs : qs ≠ [])
    (h : composite ps = composite qs) : ps = qs := by
  rw [← parts_composite hps, h, parts_composite hqs]

end ElementId

namespace IdShape

variable {shape : IdShape}

/-- Several columns take a composite identifier exactly if it was made of a part for each, and then they
    take these parts. -/
theorem values_composite (hseveral : shape.columns.length ≠ 1) {ps : List String} (hps : ps ≠ []) :
    shape.values (.composite ps) =
      if ps.length = shape.columns.length then .ok ps
      else .error (.invalidId (.composite ps) shape.columns.length ps.length) := by
  rw [values, if_neg hseveral, ElementId.parts_composite hps]

end IdShape

namespace ElementId

/-- Composite identifiers are a code for lists of parts, whatever texts the parts are.

    * The parts of a composite identifier are those it was made of, so no two lists of parts have the same
      identifier.
    * Two or more identity columns take a composite identifier exactly if it was made of as many parts, and
      they take these parts. Otherwise the error has both numbers.
    * Every text has parts, at least one, and the identifier made of them has the same parts. It is the text
      itself exactly if the text is a composite identifier, which is to say that every escape mark in it
      stands before a separator or an escape mark that it escapes. -/
theorem composite_faithful :
    (∀ ps, ps ≠ [] → (composite ps).parts = ps) ∧
      (∀ ps qs, ps ≠ [] → qs ≠ [] → composite ps = composite qs → ps = qs) ∧
      (∀ (shape : IdShape) ps, 2 ≤ shape.columns.length → ps ≠ [] →
        (shape.values (composite ps) = .ok ps ↔ ps.length = shape.columns.length) ∧
          (ps.length ≠ shape.columns.length → shape.values (composite ps) =
            .error (.invalidId (composite ps) shape.columns.length ps.length))) ∧
      ∀ id : ElementId, id.parts ≠ [] ∧ (composite id.parts).parts = id.parts ∧
        (composite id.parts = id ↔ ∃ ps, composite ps = id) ∧
        ((∃ ps, composite ps = id) ↔ wellEscaped id.text.toList = true) := by
  refine ⟨fun ps hps => parts_composite hps, fun ps qs hps hqs h => composite_injective hps hqs h,
    fun shape ps harity hps => ?_, fun id => ⟨id.parts_ne_nil, parts_composite id.parts_ne_nil, ?_,
      exists_composite_eq_iff⟩⟩
  · have hseveral : shape.columns.length ≠ 1 := by omega
    rw [IdShape.values_composite hseveral hps]
    refine ⟨?_, fun hlength => if_neg hlength⟩
    split <;> simp_all
  · rw [composite_parts_eq_iff, exists_composite_eq_iff]

/-- The identifier of an edge between identifiers with marks in their parts, and a text that escapes an
    ordinary character and ends in an escape mark. -/
theorem composite_faithful_edge :
    let vertex := composite ["a\x1f\x60", ""]
    let edge := composite [vertex.text, "OUT", "\x60", "", vertex.text]
    let shape : IdShape := ⟨[.label, .primaryValues]⟩
    let text : ElementId := ⟨"\x60a\x60"⟩
    edge.parts = [vertex.text, "OUT", "\x60", "", vertex.text] ∧
      shape.values edge = .error (.invalidId edge 2 5) ∧
      (composite text.parts).parts = text.parts ∧ composite text.parts ≠ text := by
  intro vertex edge shape text
  obtain ⟨hparts, _, hvalues, htexts⟩ := composite_faithful
  obtain ⟨_, hsame, hself, hescapes⟩ := htexts text
  refine ⟨hparts _ (by simp), (hvalues shape _ (by decide) (by simp)).2 (by decide), hsame, ?_⟩
  rw [Ne, hself, hescapes]
  decide +kernel

end ElementId

end GraphTables
