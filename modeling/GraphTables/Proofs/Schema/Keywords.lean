import GraphTables.Proofs.Schema.Statements
import GraphTables.Proofs.Store.Deletion

namespace GraphTables

namespace Text

/-- No capital is blank. -/
theorem toLower_of_isBlank {c : Char} (h : isBlank c = true) : c.toLower = c := by
  apply dif_neg
  rintro ⟨hlo, hhi⟩
  have hlo' : 65 ≤ c.toNat := UInt32.le_iff_toNat_le.1 hlo
  have hhi' : c.toNat ≤ 90 := UInt32.le_iff_toNat_le.1 hhi
  simp only [isBlank, Bool.or_eq_true, Bool.and_eq_true, decide_eq_true_eq, beq_iff_eq] at h
  omega

/-- The texts have the same characters but for blanks, and end in the same one. -/
structure SameButBlanks (cs ds : List Char) : Prop where
  filter : cs.filter (!isBlank ·) = ds.filter (!isBlank ·)
  last : cs.getLast? = ds.getLast?

namespace SameButBlanks

variable {cs ds : List Char}

theorem refl (cs : List Char) : SameButBlanks cs cs := ⟨rfl, rfl⟩

private theorem ne_nil (h : SameButBlanks cs ds) (hne : ds ≠ []) : cs ≠ [] := by
  rintro rfl
  exact hne (List.getLast?_eq_none_iff.1 h.last.symm)

/-- Blanks may stand for other blanks, none for some included. -/
theorem append (h : SameButBlanks cs ds) (hne : ds ≠ []) (head : List Char) {gap gap' : List Char}
    (hgap : ∀ c ∈ gap, isBlank c = true) (hgap' : ∀ c ∈ gap', isBlank c = true) :
    SameButBlanks (head ++ (gap ++ cs)) (head ++ (gap' ++ ds)) := by
  have hnone {gap : List Char} (hgap : ∀ c ∈ gap, isBlank c = true) : gap.filter (!isBlank ·) = [] := by
    rw [List.filter_eq_nil_iff]
    intro c hc
    simp [hgap c hc]
  constructor
  · simp only [List.filter_append, hnone hgap, hnone hgap', h.filter]
  · rw [← List.append_assoc, ← List.append_assoc, List.getLast?_append_of_ne_nil _ (h.ne_nil hne),
      List.getLast?_append_of_ne_nil _ hne, h.last]

end SameButBlanks

end Text

open Text

namespace SchemaChange

/-- A semicolon behind a blank is taken off, and no more. -/
theorem statementBody_append {cs : List Char} (h : Trimmed cs) (hne : cs ≠ []) :
    statementBody (cs ++ [' ', ';']) = cs := by
  have hwhole : Trimmed (cs ++ [' ', ';']) :=
    trimmed_between hne (by simp) h (trimmed_singleton (by decide)) [' ']
  have hreverse : (cs ++ [' ', ';']).reverse = ';' :: ' ' :: cs.reverse := by simp
  rw [statementBody, hwhole.trim, hreverse, List.dropWhile_cons_of_pos (by decide),
    List.dropWhile_cons_of_neg (by decide), List.reverse_cons, List.reverse_reverse,
    trim_append_space h]

/-- The keywords of schema changes. -/
inductive Keyword where
  | createTable
  | ifNotExists
  | createIndex
  | on
  | dropTable
  | ifExists
deriving DecidableEq

def Keyword.text : Keyword → String
  | createTable => "CREATE TABLE"
  | ifNotExists => "IF NOT EXISTS"
  | createIndex => "CREATE INDEX"
  | on => "ON"
  | dropTable => "DROP TABLE"
  | ifExists => "IF EXISTS"

/-- The keywords that statements start with. -/
def openings : List Keyword := [.createTable, .createIndex, .dropTable]

/-- The text starts with the keyword, in any case of letters; the blanks behind it are `gap`, and `rest`
    comes after them. -/
structure Starts (k : Keyword) (gap rest cs : List Char) : Prop where
  word : ∃ head, foldAscii head = foldAscii k.text.toList ∧ cs = head ++ (gap ++ rest)
  blank : ∀ c ∈ gap, isBlank c = true
  stops : ∀ c ∈ rest.head?, isBlank c = false

private theorem starts_of_all {k : Keyword} {head gap rest : List Char}
    (hword : foldAscii head = foldAscii k.text.toList) (hblank : gap.all isBlank = true)
    (hstops : rest.head?.any isBlank = false) : Starts k gap rest (head ++ (gap ++ rest)) := by
  refine ⟨⟨head, hword, rfl⟩, List.all_eq_true.1 hblank, fun c hc => ?_⟩
  rw [Option.mem_def.1 hc] at hstops
  exact hstops

section Starts

variable {k k' : Keyword} {gap gap' rest rest' cs : List Char}

private theorem length_of_foldAscii {cs ds : List Char} (h : foldAscii cs = foldAscii ds) :
    cs.length = ds.length := by
  have hlength := congrArg List.length h
  rwa [foldAscii, foldAscii, List.length_map, List.length_map] at hlength

/-- What is left of a text after a keyword is what comes after the blanks behind it. -/
theorem stripKeyword?_eq_some_iff :
    stripKeyword? k.text cs = some rest ↔ ∃ gap, Starts k gap rest cs := by
  unfold stripKeyword?
  dsimp only
  constructor
  · intro h
    split at h
    next hfold =>
      cases h
      refine ⟨(cs.drop k.text.toList.length).takeWhile isBlank, ⟨_, hfold, ?_⟩, ?_, ?_⟩
      · rw [trimStart, List.takeWhile_append_dropWhile, List.take_append_drop]
      · intro c hc
        exact List.mem_takeWhile_imp hc
      · exact head?_trimStart _
    next => cases h
  · rintro ⟨gap, ⟨head, hfold, rfl⟩, hblank, hstops⟩
    rw [← length_of_foldAscii hfold, List.take_left, List.drop_left, if_pos hfold,
      trimStart_append hblank hstops]

private theorem Starts.strip (h : Starts k gap rest cs) : stripKeyword? k.text cs = some rest :=
  stripKeyword?_eq_some_iff.2 ⟨gap, h⟩

private theorem stripKeyword?_eq_none_iff :
    stripKeyword? k.text cs = none ↔ ∀ gap rest, ¬Starts k gap rest cs := by
  rw [Option.eq_none_iff_forall_ne_some]
  simp only [ne_eq, stripKeyword?_eq_some_iff, not_exists]
  exact forall_comm

/-- A text fixes where the blanks behind its keyword end. -/
theorem Starts.unique (h : Starts k gap rest cs) (h' : Starts k gap' rest' cs) :
    gap = gap' ∧ rest = rest' := by
  obtain ⟨head, hfold, rfl⟩ := h.word
  obtain ⟨head', hfold', hcs⟩ := h'.word
  have hlength : head.length = head'.length := length_of_foldAscii (hfold.trans hfold'.symm)
  have htail := (List.append_inj hcs hlength).2
  have hspan := span_append h.blank h.stops
  rw [htail, span_append h'.blank h'.stops] at hspan
  exact ⟨(Prod.mk.inj hspan).1.symm, (Prod.mk.inj hspan).2.symm⟩

private theorem Starts.foldAscii_take (h : Starts k gap rest cs) {n : Nat} (hn : n ≤ k.text.toList.length) :
    foldAscii (cs.take n) = (foldAscii k.text.toList).take n := by
  obtain ⟨head, hfold, rfl⟩ := h.word
  rw [← length_of_foldAscii hfold] at hn
  rw [List.take_append_of_le_length hn, foldAscii, List.map_take, ← foldAscii, hfold]

/-- A text starts with only one of the keywords that statements start with. -/
theorem Starts.eq_of_opening (h : Starts k gap rest cs) (h' : Starts k' gap' rest' cs)
    (hk : k ∈ openings) (hk' : k' ∈ openings) : k = k' := by
  have hdiffer : ∀ k ∈ openings, ∀ k' ∈ openings, 8 ≤ k.text.toList.length ∧
      ((foldAscii k.text.toList).take 8 = (foldAscii k'.text.toList).take 8 → k = k') := by
    decide +kernel
  apply (hdiffer k hk k' hk').2
  rw [← h.foldAscii_take (hdiffer k hk k hk).1, h'.foldAscii_take (hdiffer k' hk' k hk).1]

/-- The first character of a keyword is no blank, however it is spelled. -/
theorem Starts.exists_head (h : Starts k gap rest cs) : ∃ c tail, cs = c :: tail ∧ isBlank c = false := by
  obtain ⟨head, hfold, rfl⟩ := h.word
  obtain ⟨d, hd, hsolid⟩ : ∃ d, (foldAscii k.text.toList).head? = some d ∧ isBlank d = false := by
    cases k <;> exact ⟨_, rfl, by decide⟩
  rw [← hfold] at hd
  cases head with
  | nil => cases hd
  | cons c head =>
    refine ⟨c, head ++ (gap ++ rest), rfl, ?_⟩
    have hlower : c.toLower = d := Option.some.inj hd
    rw [Bool.eq_false_iff]
    intro hblank
    rw [toLower_of_isBlank hblank] at hlower
    rw [hlower, hsolid] at hblank
    cases hblank

private theorem Starts.head (h : Starts k gap rest cs) : ∀ c ∈ cs.head?, isBlank c = false := by
  obtain ⟨c, tail, rfl, hsolid⟩ := h.exists_head
  simpa using hsolid

private theorem Starts.ne_nil (h : Starts k gap rest cs) : cs ≠ [] := by
  obtain ⟨c, tail, rfl, _⟩ := h.exists_head
  simp

/-- The blanks behind a keyword can be changed. -/
theorem Starts.respace (h : Starts k gap rest cs) (hsame : SameButBlanks rest' rest) (hne : rest ≠ [])
    (hstops : ∀ c ∈ rest'.head?, isBlank c = false) (hgap : ∀ c ∈ gap', isBlank c = true) :
    ∃ cs', Starts k gap' rest' cs' ∧ SameButBlanks cs' cs := by
  obtain ⟨head, hfold, rfl⟩ := h.word
  exact ⟨head ++ (gap' ++ rest'), ⟨⟨head, hfold, rfl⟩, hgap, hstops⟩, hsame.append hne head hgap h.blank⟩

end Starts

/-- What comes after a keyword that may be there or not, and the keyword with the blanks behind it if it
    is. -/
inductive MayStart (k : Keyword) (cs : List Char) : Bool → List (Keyword × List Char) → List Char → Prop
  | absent (h : ∀ gap rest, ¬Starts k gap rest cs) : MayStart k cs false [] cs
  | present {gap rest : List Char} (h : Starts k gap rest cs) : MayStart k cs true [(k, gap)] rest

/-- The text names a table and has its columns and its key in parentheses. -/
def Defines (cs : List Char) (schema : TableSchema) : Prop :=
  ∃ name body, splitParenthesized cs = .ok (name, body) ∧ name ≠ [] ∧ schema.name = readName name ∧
    readParts (topLevelPieces body) =
      .ok (schema.columns, some (schema.partitionKey, schema.clusteringKey))

/-- The text is one word. -/
structure IsWord (cs : List Char) : Prop where
  ne_nil : cs ≠ []
  solid : ∀ c ∈ cs, isBlank c = false

private theorem isWord_of_any {cs : List Char} (hne : cs ≠ []) (h : cs.any isBlank = false) : IsWord cs := by
  refine ⟨hne, fun c hc => ?_⟩
  rw [List.any_eq_false] at h
  simpa using h c hc

/-- The word that a text starts with has a blank behind it, if anything. -/
theorem isWord_of_spanWord {cs name rest : List Char} (h : spanWord cs = (name, rest)) (hne : name ≠ []) :
    IsWord name ∧ cs = name ++ rest ∧ ∀ c ∈ rest.head?, isBlank c = true := by
  rw [spanWord, List.span_eq_takeWhile_dropWhile] at h
  obtain ⟨rfl, rfl⟩ := Prod.mk.inj h
  refine ⟨⟨hne, fun c hc => ?_⟩, List.takeWhile_append_dropWhile.symm, fun c hc => ?_⟩
  · simpa using List.mem_takeWhile_imp hc
  · have hnot := List.head?_dropWhile_not (fun c => !isBlank c) cs
    rw [Option.mem_def.1 hc] at hnot
    simpa using hnot

private theorem IsWord.spanWord_append {name before : List Char} (h : IsWord name)
    (hbefore : before ≠ [] ∧ ∀ c ∈ before, isBlank c = true) (rest : List Char) :
    spanWord (name ++ (before ++ rest)) = (name, before ++ rest) := by
  cases before with
  | nil => exact absurd rfl hbefore.1
  | cons c before => exact Text.spanWord_append h.solid (hbefore.2 c (by simp)) (before ++ rest)

private theorem IsWord.head_append {name : List Char} (h : IsWord name) (rest : List Char) :
    ∀ c ∈ (name ++ rest).head?, isBlank c = false := by
  intro c hc
  rw [List.head?_append_of_ne_nil _ h.ne_nil] at hc
  exact h.solid c (List.mem_of_mem_head? hc)

/-- The text, without a semicolon at its end, is the statement of a change, with these keywords in it, each
    with the blanks behind it. -/
inductive Written : SchemaChange → List (Keyword × List Char) → List Char → Prop
  | createTable {schema : TableSchema} {ifAbsent : Bool} {keywords : List (Keyword × List Char)}
      {gap rest body cs : List Char} (hcreate : Starts .createTable gap rest cs)
      (habsent : MayStart .ifNotExists rest ifAbsent keywords body) (hschema : Defines body schema) :
      Written (.createTable schema ifAbsent) ((.createTable, gap) :: keywords) cs
  | createIndex {name before gap gap' on target table column cs : List Char}
      (hcreate : Starts .createIndex gap (name ++ (before ++ on)) cs) (hname : IsWord name)
      (hbefore : before ≠ [] ∧ ∀ c ∈ before, isBlank c = true) (hon : Starts .on gap' target on)
      (htarget : splitParenthesized target = .ok (table, column)) :
      Written (.createIndex (readName name) (readName table) (readName (trim column)))
        [(.createIndex, gap), (.on, gap')] cs
  | dropTable {ifPresent : Bool} {keywords : List (Keyword × List Char)} {name gap rest cs : List Char}
      (hdrop : Starts .dropTable gap rest cs)
      (hpresent : MayStart .ifExists rest ifPresent keywords name) (hname : IsWord name) :
      Written (.dropTable (readName name) ifPresent) ((.dropTable, gap) :: keywords) cs

section Reading

variable {k : Keyword} {keywords keywords' : List (Keyword × List Char)} {cs : List Char}
  {change : SchemaChange}

private theorem exists_mayStart (k : Keyword) (cs : List Char) :
    ∃ isThere keywords rest, MayStart k cs isThere keywords rest := by
  by_cases h : ∃ gap rest, Starts k gap rest cs
  · obtain ⟨gap, rest, hstarts⟩ := h
    exact ⟨true, [(k, gap)], rest, .present hstarts⟩
  · push Not at h
    exact ⟨false, [], cs, .absent h⟩

private theorem MayStart.unique {isThere isThere' : Bool} {rest rest' : List Char}
    (h : MayStart k cs isThere keywords rest) (h' : MayStart k cs isThere' keywords' rest') :
    isThere = isThere' ∧ keywords = keywords' ∧ rest = rest' := by
  cases h with
  | absent hnot =>
    cases h' with
    | absent => exact ⟨rfl, rfl, rfl⟩
    | present hstarts => exact absurd hstarts (hnot _ _)
  | present hstarts =>
    cases h' with
    | absent hnot => exact absurd hstarts (hnot _ _)
    | present hstarts' =>
      obtain ⟨rfl, rfl⟩ := hstarts.unique hstarts'
      exact ⟨rfl, rfl, rfl⟩

private theorem MayStart.readCreateTable_iff {ifAbsent : Bool} {body : List Char}
    (h : MayStart .ifNotExists cs ifAbsent keywords body) :
    readCreateTable cs = .ok change ↔
      ∃ schema, Defines body schema ∧ change = .createTable schema ifAbsent := by
  unfold readCreateTable
  cases h
  case' absent hnot =>
    have hstrip : stripKeyword? "IF NOT EXISTS" cs = none :=
      (stripKeyword?_eq_none_iff (k := .ifNotExists)).2 hnot
    rw [hstrip]
  case' present hstarts =>
    have hstrip : stripKeyword? "IF NOT EXISTS" cs = some _ := hstarts.strip
    rw [hstrip]
  all_goals
    dsimp only
    rw [bind_eq_ok_iff]
    constructor
    · rintro ⟨⟨name, inner⟩, hsplit, hrest⟩
      split at hrest
      · cases hrest
      next hname =>
        obtain ⟨⟨columns, key⟩, hparts, hrest⟩ := bind_eq_ok_iff.1 hrest
        cases key with
        | none => cases hrest
        | some key =>
          cases hrest
          exact ⟨_, ⟨name, inner, hsplit, by simpa using hname, rfl, hparts⟩, rfl⟩
    · rintro ⟨⟨_, columns, partitionKey, clusteringKey⟩, ⟨name, inner, hsplit, hname, rfl, hparts⟩, rfl⟩
      refine ⟨(name, inner), hsplit, ?_⟩
      dsimp only at hparts ⊢
      rw [if_neg (by simpa using hname), hparts]
      rfl

private theorem MayStart.readDropTable_iff {ifPresent : Bool} {name : List Char}
    (h : MayStart .ifExists cs ifPresent keywords name) :
    readDropTable cs = .ok change ↔
      IsWord name ∧ change = .dropTable (readName name) ifPresent := by
  have hword (name : List Char) : (name.isEmpty || name.any isBlank) = true ↔ ¬IsWord name := by
    rw [← Bool.not_eq_false, not_iff_not, Bool.or_eq_false_iff]
    constructor
    · rintro ⟨hne, hsolid⟩
      exact isWord_of_any (by simpa using hne) hsolid
    · rintro ⟨hne, hsolid⟩
      exact ⟨by simpa using hne, by simpa using hsolid⟩
  unfold readDropTable
  cases h
  case' absent hnot =>
    have hstrip : stripKeyword? "IF EXISTS" cs = none :=
      (stripKeyword?_eq_none_iff (k := .ifExists)).2 hnot
    rw [hstrip]
  case' present hstarts =>
    have hstrip : stripKeyword? "IF EXISTS" cs = some _ := hstarts.strip
    rw [hstrip]
  all_goals
    dsimp only
    split
    next hnot =>
      rw [hword] at hnot
      simp [hnot]
    next hname =>
      rw [hword, not_not] at hname
      simp [hname, eq_comm]

/-- The creation of an index names it in a word of its own, with a blank behind it. -/
theorem readCreateIndex_eq_ok_iff :
    readCreateIndex cs = .ok change ↔
      ∃ name before gap target table column on, IsWord name ∧
        (before ≠ [] ∧ ∀ c ∈ before, isBlank c = true) ∧ Starts .on gap target on ∧
        splitParenthesized target = .ok (table, column) ∧ cs = name ++ (before ++ on) ∧
        change = .createIndex (readName name) (readName table) (readName (trim column)) := by
  unfold readCreateIndex
  constructor
  · intro h
    generalize hspan : spanWord cs = span at h
    obtain ⟨name, rest⟩ := span
    dsimp only at h
    split at h
    · cases h
    next hname =>
      obtain ⟨hword, rfl, hblank⟩ := isWord_of_spanWord hspan (by simpa using hname)
      split at h
      · cases h
      next target hon =>
        obtain ⟨gap, hstarts⟩ := (stripKeyword?_eq_some_iff (k := .on)).1 hon
        obtain ⟨⟨table, column⟩, hsplit, h⟩ := bind_eq_ok_iff.1 h
        cases h
        have hrest : rest.takeWhile isBlank ++ trimStart rest = rest := List.takeWhile_append_dropWhile
        have hbefore : rest.takeWhile isBlank ≠ [] := by
          intro hnone
          -- What stands behind the name would start with `ON`, and the name would not end there.
          obtain ⟨c, tail, hc, hsolid⟩ := hstarts.exists_head
          rw [hnone, List.nil_append, hc] at hrest
          rw [← hrest] at hblank
          simp [hsolid] at hblank
        refine ⟨name, rest.takeWhile isBlank, gap, target, table, column, trimStart rest, hword,
          ⟨hbefore, fun c hc => List.mem_takeWhile_imp hc⟩, hstarts, hsplit, ?_, rfl⟩
        rw [hrest]
  · rintro ⟨name, before, gap, target, table, column, on, hname, hbefore, hon, hsplit, rfl, rfl⟩
    have hstrip : stripKeyword? "ON" on = some target := hon.strip
    rw [hname.spanWord_append hbefore]
    dsimp only
    rw [if_neg (by simpa using hname.ne_nil), trimStart_append hbefore.2 hon.head, hstrip]
    dsimp only
    rw [hsplit]
    rfl

/-- A text is read as a change exactly if it is the statement of that change. -/
theorem read_eq_ok_iff {text : String} :
    read text = .ok change ↔ ∃ keywords, Written change keywords (statementBody text.toList) := by
  unfold read
  generalize statementBody text.toList = cs
  dsimp only
  constructor
  · intro h
    split at h
    next rest hcreate =>
      obtain ⟨gap, hcreate⟩ := (stripKeyword?_eq_some_iff (k := .createTable)).1 hcreate
      obtain ⟨ifAbsent, keywords, body, habsent⟩ := exists_mayStart .ifNotExists rest
      obtain ⟨schema, hschema, rfl⟩ := habsent.readCreateTable_iff.1 h
      exact ⟨_, .createTable hcreate habsent hschema⟩
    next =>
      split at h
      next rest hcreate =>
        obtain ⟨gap, hcreate⟩ := (stripKeyword?_eq_some_iff (k := .createIndex)).1 hcreate
        obtain ⟨name, before, gap', target, table, column, on, hname, hbefore, hon, hsplit, rfl, rfl⟩ :=
          readCreateIndex_eq_ok_iff.1 h
        exact ⟨_, .createIndex hcreate hname hbefore hon hsplit⟩
      next =>
        split at h
        next rest hdrop =>
          obtain ⟨gap, hdrop⟩ := (stripKeyword?_eq_some_iff (k := .dropTable)).1 hdrop
          obtain ⟨ifPresent, keywords, name, hpresent⟩ := exists_mayStart .ifExists rest
          obtain ⟨hname, rfl⟩ := hpresent.readDropTable_iff.1 h
          exact ⟨_, .dropTable hdrop hpresent hname⟩
        next => cases h
  · have hother (k' : Keyword) {k : Keyword} {gap rest : List Char} (h : Starts k gap rest cs)
        (hk : k ∈ openings) (hk' : k' ∈ openings) (hne : k ≠ k') :
        stripKeyword? k'.text cs = none := by
      rw [stripKeyword?_eq_none_iff]
      intro gap' rest' h'
      exact hne (h.eq_of_opening h' hk hk')
    rintro ⟨keywords, hwritten⟩
    cases hwritten with
    | createTable hcreate habsent hschema =>
      have hstrip : stripKeyword? "CREATE TABLE" cs = some _ := hcreate.strip
      rw [hstrip]
      exact habsent.readCreateTable_iff.2 ⟨_, hschema, rfl⟩
    | createIndex hcreate hname hbefore hon hsplit =>
      have hnotTable : stripKeyword? "CREATE TABLE" cs = none :=
        hother .createTable hcreate (by decide) (by decide) (by decide)
      have hstrip : stripKeyword? "CREATE INDEX" cs = some _ := hcreate.strip
      rw [hnotTable, hstrip]
      exact readCreateIndex_eq_ok_iff.2
        ⟨_, _, _, _, _, _, _, hname, hbefore, hon, hsplit, rfl, rfl⟩
    | dropTable hdrop hpresent hname =>
      have hnotTable : stripKeyword? "CREATE TABLE" cs = none :=
        hother .createTable hdrop (by decide) (by decide) (by decide)
      have hnotIndex : stripKeyword? "CREATE INDEX" cs = none :=
        hother .createIndex hdrop (by decide) (by decide) (by decide)
      have hstrip : stripKeyword? "DROP TABLE" cs = some _ := hdrop.strip
      rw [hnotTable, hnotIndex, hstrip]
      exact hpresent.readDropTable_iff.2 ⟨hname, rfl⟩

end Reading

section Written

variable {change change' : SchemaChange} {keywords keywords' : List (Keyword × List Char)}
  {cs : List Char}

/-- A text has the keywords of one statement only. -/
theorem Written.keywords_unique (h : Written change keywords cs) (h' : Written change' keywords' cs) :
    keywords = keywords' := by
  cases h with
  | createTable hcreate habsent =>
    cases h' with
    | createTable hcreate' habsent' =>
      obtain ⟨rfl, rfl⟩ := hcreate.unique hcreate'
      obtain ⟨-, rfl, -⟩ := habsent.unique habsent'
      rfl
    | createIndex hcreate' => cases hcreate.eq_of_opening hcreate' (by decide) (by decide)
    | dropTable hdrop' => cases hcreate.eq_of_opening hdrop' (by decide) (by decide)
  | @createIndex name before _ _ on _ _ _ _ hcreate hname hbefore hon =>
    cases h' with
    | createTable hcreate' => cases hcreate.eq_of_opening hcreate' (by decide) (by decide)
    | @createIndex name' before' _ _ on' _ _ _ _ hcreate' hname' hbefore' hon' =>
      obtain ⟨rfl, hrest⟩ := hcreate.unique hcreate'
      have hword := hname.spanWord_append hbefore on
      rw [hrest, hname'.spanWord_append hbefore'] at hword
      have htrim := congrArg trimStart (Prod.mk.inj hword).2
      rw [trimStart_append hbefore'.2 hon'.head, trimStart_append hbefore.2 hon.head] at htrim
      rw [htrim] at hon'
      rw [(hon.unique hon').1]
    | dropTable hdrop' => cases hcreate.eq_of_opening hdrop' (by decide) (by decide)
  | dropTable hdrop hpresent =>
    cases h' with
    | createTable hcreate' => cases hdrop.eq_of_opening hcreate' (by decide) (by decide)
    | createIndex hcreate' => cases hdrop.eq_of_opening hcreate' (by decide) (by decide)
    | dropTable hdrop' hpresent' =>
      obtain ⟨rfl, rfl⟩ := hdrop.unique hdrop'
      obtain ⟨-, rfl, -⟩ := hpresent.unique hpresent'
      rfl

private theorem MayStart.respace {k : Keyword} {isThere : Bool} {rest : List Char}
    (h : MayStart k cs isThere keywords rest) (hstops : ∀ c ∈ cs.head?, isBlank c = false)
    (hne : rest ≠ []) {gaps : Keyword → List Char} (hgaps : ∀ k, ∀ c ∈ gaps k, isBlank c = true) :
    ∃ cs', MayStart k cs' isThere (keywords.map fun k => (k.1, gaps k.1)) rest ∧
      SameButBlanks cs' cs ∧ cs ≠ [] ∧ ∀ c ∈ cs'.head?, isBlank c = false := by
  cases h with
  | absent hnot => exact ⟨cs, .absent hnot, .refl cs, hne, hstops⟩
  | present hstarts =>
    obtain ⟨cs', hstarts', hsame⟩ := hstarts.respace (.refl rest) hne hstarts.stops (hgaps k)
    exact ⟨cs', .present hstarts', hsame, hstarts.ne_nil, hstarts'.head⟩

private theorem ne_nil_of_splitParenthesized {parts : List Char × List Char}
    (h : splitParenthesized cs = .ok parts) : cs ≠ [] := by
  rintro rfl
  cases h

/-- The statement of a change can be written with other blanks behind its keywords. -/
theorem Written.respace (h : Written change keywords cs) {gaps : Keyword → List Char}
    (hgaps : ∀ k, ∀ c ∈ gaps k, isBlank c = true) :
    ∃ cs', Written change (keywords.map fun k => (k.1, gaps k.1)) cs' ∧ SameButBlanks cs' cs ∧
      cs ≠ [] ∧ ∀ c ∈ cs'.head?, isBlank c = false := by
  cases h with
  | createTable hcreate habsent hschema =>
    obtain ⟨name, body, hsplit, hname⟩ := id hschema
    obtain ⟨rest', habsent', hsame, hne, hstops⟩ := habsent.respace hcreate.stops
      (ne_nil_of_splitParenthesized hsplit) hgaps
    obtain ⟨cs', hcreate', hsame'⟩ := hcreate.respace hsame hne hstops (hgaps .createTable)
    exact ⟨cs', .createTable hcreate' habsent' hschema, hsame', hcreate.ne_nil, hcreate'.head⟩
  | @createIndex name before _ _ _ target _ _ _ hcreate hname hbefore hon hsplit =>
    obtain ⟨on', hon', hsame⟩ := hon.respace (.refl target) (ne_nil_of_splitParenthesized hsplit)
      hon.stops (hgaps .on)
    have hrest := hsame.append hon.ne_nil name hbefore.2 hbefore.2
    obtain ⟨cs', hcreate', hsame'⟩ := hcreate.respace hrest (by simp [hname.ne_nil])
      (hname.head_append _) (hgaps .createIndex)
    exact ⟨cs', .createIndex hcreate' hname hbefore hon' hsplit, hsame', hcreate.ne_nil, hcreate'.head⟩
  | dropTable hdrop hpresent hname =>
    obtain ⟨rest', hpresent', hsame, hne, hstops⟩ := hpresent.respace hdrop.stops hname.ne_nil hgaps
    obtain ⟨cs', hdrop', hsame'⟩ := hdrop.respace hsame hne hstops (hgaps .dropTable)
    exact ⟨cs', .dropTable hdrop' hpresent' hname, hsame', hdrop.ne_nil, hdrop'.head⟩

end Written

/-- A text is read as a change exactly if it is the statement of that change, with one list of keywords in
    it. A keyword need not be followed by a blank: whatever blanks are put behind the keywords instead of
    those that are there, and also if none are, there is a text that is read as the same change. -/
theorem read_keywords (text : String) (change : SchemaChange) :
    (read text = .ok change ↔ ∃! keywords, Written change keywords (statementBody text.toList)) ∧
      ∀ keywords (gaps : Keyword → List Char), Written change keywords (statementBody text.toList) →
        (∀ k, ∀ c ∈ gaps k, isBlank c = true) →
        ∃ text', read text' = .ok change ∧
          Written change (keywords.map fun k => (k.1, gaps k.1)) (statementBody text'.toList) ∧
          SameButBlanks (statementBody text'.toList) (statementBody text.toList) := by
  refine ⟨read_eq_ok_iff.trans ⟨?_, ExistsUnique.exists⟩, fun keywords gaps hwritten hgaps => ?_⟩
  · rintro ⟨keywords, hwritten⟩
    exact ⟨keywords, hwritten, fun _ hwritten' => hwritten'.keywords_unique hwritten⟩
  · obtain ⟨cs, hwritten', hsame, hne, hhead⟩ := hwritten.respace hgaps
    have htrimmed : Trimmed cs := by
      refine ⟨hhead, ?_⟩
      rw [hsame.last]
      exact (trimmed_trim _).last
    have hbody : statementBody (String.ofList (cs ++ [' ', ';'])).toList = cs := by
      rw [String.toList_ofList, statementBody_append htrimmed (hsame.ne_nil hne)]
    rw [← hbody] at hwritten' hsame
    exact ⟨_, read_eq_ok_iff.2 ⟨_, hwritten'⟩, hwritten', hsame⟩

/-- The removal of a table, with its keywords apart and with all of them run together. -/
theorem read_keywords_drop :
    let text := "Drop Table  if exists notes;"
    let change : SchemaChange := .dropTable "notes" true
    Written change [(.dropTable, [' ', ' ']), (.ifExists, [' '])] (statementBody text.toList) ∧
      ∃ text', read text' = .ok change ∧
        Written change [(.dropTable, []), (.ifExists, [])] (statementBody text'.toList) ∧
        SameButBlanks (statementBody text'.toList) (statementBody text.toList) := by
  intro text change
  have hbody : statementBody text.toList =
      "Drop Table".toList ++ ([' ', ' '] ++ ("if exists".toList ++ ([' '] ++ "notes".toList))) := by
    decide +kernel
  have hpresent : Starts .ifExists [' '] "notes".toList
      ("if exists".toList ++ ([' '] ++ "notes".toList)) :=
    starts_of_all (by decide) (by decide) (by decide)
  have hdrop : Starts .dropTable [' ', ' '] ("if exists".toList ++ ([' '] ++ "notes".toList))
      (statementBody text.toList) := by
    rw [hbody]
    exact starts_of_all (by decide) (by decide) (by decide)
  have hname : readName "notes".toList = "notes" := by decide +kernel
  have hwritten : Written change [(.dropTable, [' ', ' ']), (.ifExists, [' '])]
      (statementBody text.toList) := by
    have hdropped := Written.dropTable hdrop (.present hpresent) (isWord_of_any (by decide) (by decide))
    rwa [hname] at hdropped
  exact ⟨hwritten, (read_keywords text change).2 _ (fun _ => []) hwritten (by simp)⟩

/-- A table is removed by a text in which the keyword and the name of the table are one word. -/
theorem read_glued :
    let text := "DROP TABLEnotes;"
    Written (.dropTable "notes" false) [(.dropTable, [])] (statementBody text.toList) ∧
      read text = .ok (.dropTable "notes" false) ∧
      Session.noted.Reachable ∧ Session.noted.rowCount "notes" = .ok 1 ∧
      Session.noted.execute (.raw text) = .ok ({}, {}) := by
  intro text
  have hbody : statementBody text.toList = "DROP TABLE".toList ++ ([] ++ "notes".toList) := by
    decide +kernel
  have hdrop : Starts .dropTable [] "notes".toList (statementBody text.toList) := by
    rw [hbody]
    exact starts_of_all (by decide) (by decide) (by decide)
  have habsent : stripKeyword? Keyword.ifExists.text "notes".toList = none := by decide +kernel
  have hname : readName "notes".toList = "notes" := by decide +kernel
  have hwritten := Written.dropTable hdrop (.absent (stripKeyword?_eq_none_iff.1 habsent))
    (isWord_of_any (by decide) (by decide))
  rw [hname] at hwritten
  exact ⟨hwritten, by decide +kernel, Session.reachable_noted, by decide +kernel, by decide +kernel⟩

end SchemaChange

end GraphTables
