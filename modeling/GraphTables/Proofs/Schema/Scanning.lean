import GraphTables.Store.SchemaChange
import Mathlib.Data.List.Basic
import Mathlib.Data.List.DropRight
import Mathlib.Data.List.TakeDrop

namespace GraphTables

namespace Text

/-- A character of a plain name: an ASCII letter or digit, or a low line. -/
def isNameChar (c : Char) : Bool := c.isAlphanum || c == '_'

/-- A plain name, of at least one character. -/
structure IsName (s : String) : Prop where
  ne_nil : s.toList ≠ []
  chars : ∀ c ∈ s.toList, isNameChar c = true

theorem isName_of_all {s : String} (hne : s.toList ≠ []) (h : s.toList.all isNameChar = true) :
    IsName s := ⟨hne, List.all_eq_true.1 h⟩

theorem not_mem_of_isNameChar {cs : List Char} (h : ∀ c ∈ cs, isNameChar c = true) {c : Char}
    (hc : isNameChar c = false) : c ∉ cs := by
  intro hmem
  rw [h c hmem] at hc
  cases hc

theorem toNat_of_isNameChar {c : Char} (h : isNameChar c = true) :
    0x30 ≤ c.toNat ∧ c.toNat ≤ 0x7A := by
  rw [isNameChar, Bool.or_eq_true, beq_iff_eq] at h
  rcases h with h | rfl
  · rcases (Bool.or_eq_true c.isAlpha c.isDigit).mp h with h | h
    · rcases (Bool.or_eq_true c.isUpper c.isLower).mp h with h | h
      · obtain ⟨hlo, hhi⟩ := of_decide_eq_true h
        exact ⟨Nat.le_trans (by decide) hlo, Nat.le_trans hhi (by decide)⟩
      · obtain ⟨hlo, hhi⟩ := Bool.and_eq_true_iff.1 h
        exact ⟨Nat.le_trans (by decide) (of_decide_eq_true hlo),
          Nat.le_trans (of_decide_eq_true hhi) (by decide)⟩
    · obtain ⟨hlo, hhi⟩ := Char.isDigit_iff_toNat.1 h
      exact ⟨hlo, Nat.le_trans hhi (by decide)⟩
  · decide

theorem IsName.ascii {s : String} (h : IsName s) : ∀ c ∈ s.toList, c.toNat < 0x80 := by
  intro c hc
  have hrange := toNat_of_isNameChar (h.chars c hc)
  omega

theorem isBlank_of_isNameChar {c : Char} (h : isNameChar c = true) : isBlank c = false := by
  obtain ⟨hlo, hhi⟩ := toNat_of_isNameChar h
  simp only [isBlank, Bool.or_eq_false_iff, Bool.and_eq_false_iff, decide_eq_false_iff_not,
    beq_eq_false_iff_ne]
  omega

/-- The text neither starts nor ends with a blank. -/
structure Trimmed (cs : List Char) : Prop where
  head : ∀ c ∈ cs.head?, isBlank c = false
  last : ∀ c ∈ cs.getLast?, isBlank c = false

theorem trimmed_of_any {cs : List Char} (hhead : cs.head?.any isBlank = false)
    (hlast : cs.getLast?.any isBlank = false) : Trimmed cs := by
  refine ⟨fun c hc => ?_, fun c hc => ?_⟩
  · rw [Option.mem_def.1 hc] at hhead
    exact hhead
  · rw [Option.mem_def.1 hc] at hlast
    exact hlast

theorem dropWhile_of_head {p : Char → Bool} {cs : List Char} (h : ∀ c ∈ cs.head?, p c = false) :
    cs.dropWhile p = cs := by
  cases cs with
  | nil => rfl
  | cons c cs =>
    have hc : p c = false := h c (by simp)
    rw [List.dropWhile_cons, hc]
    rfl

/-- What starts with a trimmed text starts with no blank. -/
theorem Trimmed.head_append {cs : List Char} (h : Trimmed cs) (hne : cs ≠ []) (rest : List Char) :
    ∀ c ∈ (cs ++ rest).head?, isBlank c = false := by
  rw [List.head?_append_of_ne_nil _ hne]
  exact h.head

theorem Trimmed.trimStart {cs : List Char} (h : Trimmed cs) : Text.trimStart cs = cs :=
  dropWhile_of_head h.head

theorem Trimmed.trim {cs : List Char} (h : Trimmed cs) : Text.trim cs = cs := by
  rw [Text.trim, h.trimStart, trimEnd, dropWhile_of_head, List.reverse_reverse]
  intro c hc
  apply h.last
  rwa [List.head?_reverse] at hc

/-- Blanks before a text that starts with none are taken off. -/
theorem trimStart_append {before rest : List Char} (h : ∀ c ∈ before, isBlank c = true)
    (hstops : ∀ c ∈ rest.head?, isBlank c = false) : trimStart (before ++ rest) = rest := by
  rw [trimStart, List.dropWhile_append_of_pos h, dropWhile_of_head hstops]

theorem trimStart_space {cs : List Char} (h : ∀ c ∈ cs.head?, isBlank c = false) :
    trimStart (' ' :: cs) = cs :=
  trimStart_append (List.forall_mem_singleton.2 (by decide)) h

/-- Nothing blank is left at the start of a text. -/
theorem head?_trimStart (cs : List Char) : ∀ c ∈ (trimStart cs).head?, isBlank c = false := by
  intro c hc
  have hnot := List.head?_dropWhile_not isBlank cs
  rw [← trimStart, Option.mem_def.1 hc] at hnot
  exact hnot

theorem trimmed_trim (cs : List Char) : Trimmed (trim cs) := by
  refine ⟨fun c hc => ?_, fun c hc => ?_⟩
  · obtain ⟨rest, hrest⟩ : trim cs <+: trimStart cs := List.rdropWhile_prefix isBlank (trimStart cs)
    apply head?_trimStart cs
    rw [← hrest, List.head?_append, Option.mem_def.1 hc]
    rfl
  · rw [trim, trimEnd, List.getLast?_reverse] at hc
    exact head?_trimStart _ c hc

/-- Blanks are taken off the start up to a character that is none. -/
theorem trimStart_append_cons {c : Char} (hc : isBlank c = false) (cs rest : List Char) :
    trimStart (cs ++ c :: rest) = trimStart cs ++ c :: rest := by
  unfold trimStart
  induction cs with
  | nil => exact dropWhile_of_head (by simpa using hc)
  | cons d cs ih =>
    rw [List.cons_append, List.dropWhile_cons, List.dropWhile_cons, ih]
    split <;> rfl

theorem mem_of_mem_trim {cs : List Char} {c : Char} (h : c ∈ trim cs) : c ∈ cs := by
  rw [trim, trimEnd, List.mem_reverse] at h
  have hstart := (List.dropWhile_sublist _).subset h
  rw [List.mem_reverse] at hstart
  exact (List.dropWhile_sublist _).subset hstart

theorem trim_trimStart (cs : List Char) : trim (trimStart cs) = trim cs := by
  rw [trim, trim, trimStart, trimStart, List.dropWhile_idempotent]

private theorem trim_space {cs : List Char} (h : Trimmed cs) : trim (' ' :: cs) = cs := by
  have htrim := h.trim
  rw [trim, h.trimStart] at htrim
  rw [trim, trimStart_space h.head, htrim]

theorem trim_append_space {cs : List Char} (h : Trimmed cs) : trim (cs ++ [' ']) = cs := by
  by_cases hne : cs = []
  · subst hne
    decide
  · have hlast : cs.reverse.dropWhile isBlank = cs.reverse := by
      apply dropWhile_of_head
      rw [List.head?_reverse]
      exact h.last
    rw [trim, trimStart, dropWhile_of_head (h.head_append hne _), trimEnd, List.reverse_append,
      List.reverse_singleton, List.singleton_append, List.dropWhile_cons_of_pos (by decide), hlast,
      List.reverse_reverse]

theorem trimmed_of_isNameChar {cs : List Char} (h : ∀ c ∈ cs, isNameChar c = true) :
    Trimmed cs := by
  refine ⟨fun c hc => ?_, fun c hc => ?_⟩
  · exact isBlank_of_isNameChar (h c (List.mem_of_mem_head? hc))
  · exact isBlank_of_isNameChar (h c (List.mem_of_mem_getLast? hc))

/-- A text is trimmed if what it starts and ends with is. -/
theorem trimmed_between {cs ds : List Char} (hcs : cs ≠ []) (hds : ds ≠ []) (hstart : Trimmed cs)
    (hend : Trimmed ds) (between : List Char) : Trimmed (cs ++ (between ++ ds)) := by
  refine ⟨hstart.head_append hcs _, fun c hc => ?_⟩
  rw [← List.append_assoc, List.getLast?_append_of_ne_nil _ hds] at hc
  exact hend.last c hc

theorem trimmed_singleton {c : Char} (h : isBlank c = false) : Trimmed [c] := trimmed_of_any h h

theorem trimmed_of_ends {c d : Char} (hc : isBlank c = false) (hd : isBlank d = false)
    (cs : List Char) : Trimmed (c :: (cs ++ [d])) :=
  trimmed_between (by simp) (by simp) (trimmed_singleton hc) (trimmed_singleton hd) cs

/-- Characters that pass a test are split off from a text that goes on with one that does not. -/
theorem span_append {p : Char → Bool} {cs rest : List Char} (h : ∀ c ∈ cs, p c = true)
    (hstop : ∀ c ∈ rest.head?, p c = false) : (cs ++ rest).span p = (cs, rest) := by
  have hrest : rest.takeWhile p = [] ∧ rest.dropWhile p = rest := by
    cases rest with
    | nil => exact ⟨rfl, rfl⟩
    | cons c rest =>
      have hc := hstop c rfl
      simp [hc]
  rw [List.span_eq_takeWhile_dropWhile, List.takeWhile_append_of_pos h,
    List.dropWhile_append_of_pos h, hrest.1, hrest.2, List.append_nil]

theorem spanWord_append {word : List Char} (hword : ∀ c ∈ word, isBlank c = false)
    {c : Char} (hc : isBlank c = true) (rest : List Char) :
    spanWord (word ++ c :: rest) = (word, c :: rest) := by
  apply span_append
  · intro d hd
    rw [hword d hd]
    rfl
  · intro d hd
    cases hd
    rw [hc]
    rfl

end Text

namespace SchemaChange

open Text

theorem stripKeyword?_append (keyword : String) (cs : List Char) :
    stripKeyword? keyword (keyword.toList ++ cs) = some (trimStart cs) := by
  unfold stripKeyword?
  dsimp only
  rw [List.take_left, List.drop_left, if_pos rfl]

/-- The body of a statement is all of it but the semicolon at its end. -/
theorem statementBody_semicolon {start : List Char} (hne : start ≠ []) (hstart : Trimmed start)
    (between : List Char) {c : Char} (hc : isBlank c = false) (hsemicolon : c ≠ ';') :
    statementBody (start ++ (between ++ [c, ';'])) = start ++ (between ++ [c]) := by
  have hwhole : Trimmed (start ++ (between ++ [c, ';'])) := by
    have hlast : Trimmed [';'] := trimmed_singleton (by decide)
    have hends := trimmed_between hne (by simp) hstart hlast (between ++ [c])
    rwa [List.append_assoc, List.singleton_append] at hends
  have hbody : Trimmed (start ++ (between ++ [c])) :=
    trimmed_between hne (by simp) hstart (trimmed_singleton hc) between
  have hreverse : (start ++ (between ++ [c, ';'])).reverse =
      ';' :: c :: (start ++ between).reverse := by simp
  have hdrop : (';' :: c :: (start ++ between).reverse).dropWhile (· == ';') =
      c :: (start ++ between).reverse := by
    rw [List.dropWhile_cons_of_pos (by decide)]
    apply dropWhile_of_head
    intro d hd
    obtain rfl : c = d := Option.some.inj hd
    simpa using hsemicolon
  have hback : (c :: (start ++ between).reverse).reverse = start ++ (between ++ [c]) := by simp
  rw [statementBody, hwhole.trim, hreverse, hdrop, hback, hbody.trim]

private theorem beforeLastClose_append (cs : List Char) : beforeLastClose (cs ++ [')']) = cs := by
  have hdrop : (cs ++ [')']).reverse.dropWhile (· != ')') = ')' :: cs.reverse := by
    rw [List.reverse_append, List.reverse_singleton, List.singleton_append,
      List.dropWhile_cons_of_neg (by decide)]
  rw [beforeLastClose, hdrop, List.drop_one, List.tail_cons, List.reverse_reverse]

theorem splitParenthesized_append {name : List Char} (hopen : '(' ∉ name) (body : List Char) :
    splitParenthesized (name ++ '(' :: (body ++ [')'])) = .ok (trim name, body) := by
  have hpos : ∀ c ∈ name, (c != '(') = true := by
    intro c hc
    have hne : c ≠ '(' := by
      rintro rfl
      exact hopen hc
    simpa using hne
  have hclose : ')' ∈ body ++ [')'] := by simp
  unfold splitParenthesized
  rw [span_append hpos (by simp)]
  dsimp only
  rw [if_pos hclose, beforeLastClose_append]

theorem unwrap?_append (cs : List Char) : unwrap? ('(' :: (cs ++ [')'])) = some cs := by
  rw [unwrap?, List.getLast?_concat, if_pos rfl, List.dropLast_concat]

/-- The scan for commas finds none in the piece, and what stands behind the piece is scanned at depth
    `e` if the piece is at depth `d`. -/
def Passes (d e : Nat) (piece : List Char) : Prop :=
  ∀ rest, splitCommas d (piece ++ rest) =
    (piece ++ (splitCommas e rest).1, (splitCommas e rest).2)

theorem Passes.append {d e f : Nat} {piece piece' : List Char} (h : Passes d e piece)
    (h' : Passes e f piece') : Passes d f (piece ++ piece') := by
  intro rest
  rw [List.append_assoc, h, h', List.append_assoc]

theorem passes_nil (d : Nat) : Passes d d [] := fun _ => rfl

theorem passes_open (d : Nat) : Passes d (d + 1) ['('] := by
  intro rest
  rw [List.singleton_append, splitCommas, if_neg (by simp)]
  rfl

theorem passes_close (d : Nat) : Passes (d + 1) d [')'] := by
  intro rest
  rw [List.singleton_append, splitCommas, if_neg (by simp)]
  rfl

/-- Without parentheses the depth stays, and commas are passed over inside parentheses. -/
theorem passes_of_plain {d : Nat} {cs : List Char} (hopen : '(' ∉ cs) (hclose : ')' ∉ cs)
    (hcomma : ',' ∈ cs → 0 < d) : Passes d d cs := by
  induction cs with
  | nil => exact passes_nil d
  | cons c cs ih =>
    rw [List.mem_cons, not_or] at hopen hclose
    have hrest : Passes d d cs := by
      apply ih hopen.2 hclose.2
      intro hmem
      exact hcomma (List.mem_cons_of_mem _ hmem)
    intro rest
    have hinside : ¬(c = ',' ∧ d = 0) := by
      rintro ⟨rfl, rfl⟩
      have hpositive := hcomma (by simp)
      omega
    rw [List.cons_append, splitCommas, if_neg hinside, if_neg (Ne.symm hopen.1),
      if_neg (Ne.symm hclose.1)]
    dsimp only
    rw [hrest rest, List.cons_append]

/-- A name is passed over at any depth. -/
theorem passes_name {s : String} (h : ∀ c ∈ s.toList, isNameChar c = true) (d : Nat) :
    Passes d d s.toList :=
  passes_of_plain (not_mem_of_isNameChar h (by decide)) (not_mem_of_isNameChar h (by decide))
    fun hcomma => absurd hcomma (not_mem_of_isNameChar h (by decide))

private theorem splitCommas_of_passes {piece : List Char} (h : Passes 0 0 piece) :
    splitCommas 0 piece = (piece, []) := by
  have hpiece := h []
  rw [List.append_nil, splitCommas, List.append_nil] at hpiece
  exact hpiece

private theorem splitCommas_append_comma {piece : List Char} (h : Passes 0 0 piece) (rest : List Char) :
    splitCommas 0 (piece ++ ',' :: rest) =
      (piece, (splitCommas 0 rest).1 :: (splitCommas 0 rest).2) := by
  rw [h, splitCommas, if_pos ⟨rfl, rfl⟩]
  simp

/-- Every piece after the first keeps the blank that stood behind the comma. -/
theorem splitCommas_intercalate {piece : List Char} {pieces : List (List Char)}
    (h : ∀ p ∈ piece :: pieces, Passes 0 0 p) :
    splitCommas 0 ([',', ' '].intercalate (piece :: pieces)) =
      (piece, pieces.map (' ' :: ·)) := by
  induction pieces generalizing piece with
  | nil =>
    rw [List.intercalate_singleton]
    exact splitCommas_of_passes (h piece (by simp))
  | cons next pieces ih =>
    have hnext := ih fun p hp => h p (List.mem_cons_of_mem _ hp)
    have hblank : Passes 0 0 [' '] := passes_of_plain (by decide) (by decide) (by decide)
    have hrest := hblank ([',', ' '].intercalate (next :: pieces))
    rw [List.singleton_append, hnext] at hrest
    rw [List.intercalate_cons_cons, List.append_assoc, List.cons_append,
      splitCommas_append_comma (h piece (by simp)), List.singleton_append, hrest]
    rfl

/-- Pieces joined by commas come apart again. -/
theorem topLevelPieces_intercalate {pieces : List (List Char)} (hne : pieces ≠ [])
    (hpasses : ∀ p ∈ pieces, Passes 0 0 p) (htrimmed : ∀ p ∈ pieces, p ≠ [] ∧ Trimmed p) :
    topLevelPieces ([',', ' '].intercalate pieces) = pieces := by
  cases pieces with
  | nil => exact absurd rfl hne
  | cons piece pieces =>
    have hmap : (piece :: pieces.map (' ' :: ·)).map trim = piece :: pieces := by
      rw [List.map_cons, (htrimmed piece (by simp)).2.trim, List.map_map]
      congr 1
      have hself : pieces.map (trim ∘ (' ' :: ·)) = pieces.map id := by
        apply List.map_congr_left
        intro p hp
        exact trim_space (htrimmed p (List.mem_cons_of_mem _ hp)).2
      rw [hself, List.map_id]
    have hlast : ¬((piece :: pieces).getLast?.any List.isEmpty) = true := by
      rw [List.getLast?_eq_some_getLast (by simp), Option.any_some, List.isEmpty_iff]
      exact (htrimmed _ (List.getLast_mem (by simp))).1
    unfold topLevelPieces
    rw [splitCommas_intercalate hpasses]
    dsimp only
    rw [hmap, if_neg hlast]

end SchemaChange

end GraphTables
