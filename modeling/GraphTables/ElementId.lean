namespace GraphTables

/-- An identifier in its canonical text. A composite identifier is a list of parts joined by separators; a
separator or escape mark inside a part is escaped, so that identifiers can be parts of identifiers. -/
structure ElementId where
  text : String
deriving DecidableEq

namespace ElementId

/-- The mark between two parts: the ASCII unit separator. -/
def separator : Char := '\x1f'

/-- The mark before a separator or escape mark that belongs to a part: the grave accent. -/
def escapeMark : Char := '\x60'

/-- The characters of a part inside a composite identifier. -/
def escape : List Char → List Char
  | [] => []
  | c :: cs =>
    if c = separator ∨ c = escapeMark then escapeMark :: c :: escape cs else c :: escape cs

/-- The text of a part, and of the further parts each after a separator. -/
def joinFrom (part : List Char) : List (List Char) → List Char
  | [] => escape part
  | next :: rest => escape part ++ separator :: joinFrom next rest

/-- The first part of a text and the further ones. The escape mark takes the next character as it
is; at the end of the text it stands for itself. -/
def split : List Char → List Char × List (List Char)
  | [] => ([], [])
  | [c] => if c = separator then ([], [[]]) else ([c], [])
  | c :: d :: rest =>
    if c = escapeMark then
      let (part, others) := split rest
      (d :: part, others)
    else
      let (part, others) := split (d :: rest)
      if c = separator then ([], part :: others) else (c :: part, others)

/-- The identifier made of a list of parts. -/
def composite : List String → ElementId
  | [] => ⟨""⟩
  | part :: rest => ⟨String.ofList (joinFrom part.toList (rest.map String.toList))⟩

/-- The parts of an identifier, at least one. -/
def parts (id : ElementId) : List String :=
  let (part, others) := split id.text.toList
  String.ofList part :: others.map String.ofList

/-- The identifier for readers: its parts joined by colons, separators within a part shown as colons
too. -/
def display (id : ElementId) : String :=
  ":".intercalate (id.parts.map fun p => p.map fun c => if c = separator then ':' else c)

instance : Ord ElementId := ⟨compareOn text⟩

/-- Characters of an escaped part are read one by one. -/
theorem split_escape_append (part rest : List Char) :
    (rest = [] ∨ rest.head? = some separator) →
    split (escape part ++ rest) =
      match rest with
      | [] => (part, [])
      | _ :: tail => (part, (split tail).1 :: (split tail).2) := by
  intro hrest
  induction part with
  | nil =>
    rcases rest with _ | ⟨c, _ | ⟨d, tail⟩⟩
    · rfl
    · obtain rfl : c = separator := by simpa using hrest
      simp [escape, split]
    · obtain rfl : c = separator := by simpa using hrest
      simp [escape, split, separator, escapeMark]
  | cons c part ih =>
    by_cases hc : c = separator ∨ c = escapeMark
    · simp only [escape, hc, ↓reduceIte, List.cons_append]
      rw [split, if_pos rfl, ih]
      rcases rest with _ | ⟨_, tail⟩ <;> rfl
    · have hne : c ≠ separator ∧ c ≠ escapeMark := by simpa using hc
      simp only [escape, hc, ↓reduceIte, List.cons_append]
      cases hcs : escape part ++ rest with
      | nil =>
        rw [hcs] at ih
        obtain ⟨hpart, rfl⟩ := List.append_eq_nil_iff.1 hcs
        simp_all [split]
      | cons d tail =>
        rw [split, if_neg hne.2, ← hcs, ih]
        rcases rest with _ | ⟨_, tail⟩ <;> simp [hne.1]

private theorem split_joinFrom (part : List Char) (rest : List (List Char)) :
    split (joinFrom part rest) = (part, rest) := by
  induction rest generalizing part with
  | nil => simpa [joinFrom] using split_escape_append part [] (.inl rfl)
  | cons next rest ih =>
    rw [joinFrom, split_escape_append _ _ (.inr rfl)]
    simp [ih]

/-- The parts of a composite identifier are the parts it was made of. -/
theorem parts_composite {ps : List String} (h : ps ≠ []) : (composite ps).parts = ps := by
  cases ps with
  | nil => exact absurd rfl h
  | cons part rest => simp [composite, parts, split_joinFrom, Function.comp_def]

end ElementId

end GraphTables
