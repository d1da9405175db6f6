import GraphTables.Json.Tree
import GraphTables.Proofs.Schema.Scanning

namespace GraphTables.Json

namespace Quoted

private theorem hexValue?_hexDigit {n : Nat} (h : n < 16) : hexValue? (hexDigit n) = some n := by
  have hall : ∀ n < 16, hexValue? (hexDigit n) = some n := by decide
  exact hall n h

/-- The number of a control character in an escape is read as the character. -/
theorem ofNumber_toNat {c : Char} (h : c.toNat < 0x20) : Piece.ofNumber c.toNat = .char c := by
  have hlead : isLead c.toNat = false := by simp [isLead]; omega
  have htrail : isTrail c.toNat = false := by simp [isTrail]; omega
  simp [Piece.ofNumber, hlead, htrail, Char.ofNat_toNat]

/-- A character that is not escaped is read as it is. -/
theorem readPieces?_plain {c : Char} (hquote : c ≠ '"') (hbackslash : c ≠ '\\')
    (hcontrol : ¬c.toNat < 0x20) (cs : List Char) :
    readPieces? (c :: cs) = (readPieces? cs).map fun r => (.char c :: r.1, r.2) := by
  rw [readPieces?.eq_def]
  split
  next h => cases h
  next h =>
    cases h
    exact absurd rfl hquote
  next h =>
    cases h
    exact absurd rfl hbackslash
  next h =>
    cases h
    exact absurd rfl hbackslash
  next h =>
    cases h
    rw [if_neg (by simp [hbackslash, hcontrol])]
    cases readPieces? cs <;> rfl

private theorem readPieces?_control {c : Char} (hcontrol : c.toNat < 0x20) (cs : List Char) :
    readPieces? ('\\' :: 'u' :: '0' :: '0' :: hexDigit (c.toNat / 16) :: hexDigit (c.toNat % 16) :: cs) =
      (readPieces? cs).map fun r => (.char c :: r.1, r.2) := by
  have hzero : hexValue? '0' = some 0 := rfl
  have hvalue : hexValue4? '0' '0' (hexDigit (c.toNat / 16)) (hexDigit (c.toNat % 16)) = some c.toNat := by
    have hhigh := hexValue?_hexDigit (n := c.toNat / 16) (by omega)
    have hlow := hexValue?_hexDigit (n := c.toNat % 16) (by omega)
    simp only [hexValue4?, hzero, hhigh, hlow, bind, Option.bind, Option.some.injEq]
    omega
  rw [readPieces?, hvalue]
  simp only [bind, Option.bind, ofNumber_toNat hcontrol]
  cases readPieces? cs <;> rfl

private theorem readPieces?_short {c e : Char} (hu : e ≠ 'u') (he : unescape? e = some c) (cs : List Char) :
    readPieces? ('\\' :: e :: cs) = (readPieces? cs).map fun r => (.char c :: r.1, r.2) := by
  rw [readPieces?.eq_def]
  split
  next h => cases h
  next h => cases h
  next h =>
    cases h
    exact absurd rfl hu
  next h =>
    cases h
    rw [he]
    cases readPieces? cs <;> rfl
  next hshort h =>
    cases h
    exact absurd rfl (hshort e cs rfl)

/-- The characters that have an escape of one letter, with that letter. -/
def shortEscapes : List (Char × Char) :=
  [('"', '"'), ('\\', '\\'), ('\x08', 'b'), ('\t', 't'), ('\n', 'n'), ('\x0c', 'f'), ('\r', 'r')]

private theorem of_mem_shortEscapes : ∀ p ∈ shortEscapes,
    p.2 ≠ 'u' ∧ unescape? p.2 = some p.1 ∧ escapeChar p.1 = ['\\', p.2] := by decide

/-- A character is read as itself. -/
theorem readPieces?_escapeChar (c : Char) (cs : List Char) :
    readPieces? (escapeChar c ++ cs) = (readPieces? cs).map fun r => (.char c :: r.1, r.2) := by
  by_cases hshort : c ∈ shortEscapes.map (·.1)
  · obtain ⟨p, hp, rfl⟩ := List.mem_map.1 hshort
    obtain ⟨hu, he, hescape⟩ := of_mem_shortEscapes p hp
    rw [hescape]
    exact readPieces?_short hu he cs
  · simp only [shortEscapes, List.map_cons, List.map_nil, List.mem_cons, List.not_mem_nil, or_false,
      not_or] at hshort
    by_cases hcontrol : c.toNat < 0x20
    · simp only [escapeChar, hshort, hcontrol, ↓reduceIte]
      exact readPieces?_control hcontrol cs
    · simp only [escapeChar, hshort, hcontrol, ↓reduceIte]
      exact readPieces?_plain hshort.1 hshort.2.1 hcontrol cs

private theorem readPieces?_flatMap_escapeChar (s cs : List Char) :
    readPieces? (s.flatMap escapeChar ++ '"' :: cs) = some (s.map .char, cs) := by
  induction s with
  | nil => rfl
  | cons c rest ih => rw [List.flatMap_cons, List.append_assoc, readPieces?_escapeChar, ih]; rfl

private theorem joinPieces?_map_char (s : List Char) : joinPieces? (s.map .char) = some s := by
  induction s with
  | nil => rfl
  | cons c rest ih => rw [List.map_cons, joinPieces?, ih]; rfl

/-- A text is read as itself, up to its closing quote. -/
theorem read?_write (s : String) (cs : List Char) :
    read? (s.toList.flatMap escapeChar ++ '"' :: cs) = some (some s, cs) := by
  rw [read?, readPieces?_flatMap_escapeChar, Option.map_some, joinPieces?_map_char, Option.map_some,
    String.ofList_toList]

end Quoted

namespace Number

open Numeral

/-- Only zero is written with a zero in front. -/
theorem head?_digits {n : Nat} (h : n ≠ 0) : (digits n).head? ≠ some '0' := by
  induction n using Nat.strongRecOn with
  | ind n ih =>
    rw [digits, Nat.toDigits_eq_if (by decide)]
    split
    next hsmall =>
      simpa [Nat.digitChar_eq_zero] using h
    next hlarge =>
      have hrest := ih (n / 10) (by omega) (by omega)
      rwa [List.head?_append, Option.or_of_isSome (by simp [Nat.toDigits_ne_nil])]

/-- No character that a number goes on with follows. -/
def Ends (cs : List Char) : Prop :=
  ∀ c ∈ cs.head?, c.isDigit = false ∧ c ≠ '.' ∧ c ≠ 'e' ∧ c ≠ 'E'

private theorem spanDigits_digits (n : Nat) {cs : List Char} (h : Ends cs) :
    spanDigits (digits n ++ cs) = (digits n, cs) :=
  Text.span_append (fun _ => isDigit_of_mem_digits) fun c hc => (h c hc).1

private theorem readFraction?_of_ends {cs : List Char} (h : Ends cs) : readFraction? cs = some ([], cs) := by
  unfold readFraction?
  split
  next rest => exact absurd rfl (h '.' rfl).2.1
  next => rfl

private theorem readPower?_of_ends {cs : List Char} (h : Ends cs) : readPower? cs = some (none, cs) := by
  cases cs with
  | nil => rfl
  | cons c rest =>
    obtain ⟨_, _, hsmall, hlarge⟩ := h c rfl
    have hother : ¬(c = 'e' ∨ c = 'E') := by simp [hsmall, hlarge]
    simp only [readPower?, if_neg hother]

private theorem text_ofInt (i : Int) :
    (ofInt i).text = if i < 0 then '-' :: digits i.natAbs else digits i.natAbs := by
  simp [text, ofInt, Spelling.text]

/-- An integer starts with a digit or a minus sign. -/
theorem exists_head_ofInt (i : Int) :
    ∃ c cs, (ofInt i).text = c :: cs ∧ (c = '-' ∨ c.isDigit = true) := by
  obtain ⟨c, cs, hdigits⟩ := List.exists_cons_of_ne_nil (digits_ne_nil i.natAbs)
  rw [text_ofInt]
  split
  next => exact ⟨_, _, rfl, .inl rfl⟩
  next => exact ⟨c, cs, hdigits, .inr (isDigit_of_mem_digits (n := i.natAbs) (by simp [hdigits]))⟩

/-- An integer is read as itself, up to what ends it. -/
theorem read?_ofInt (i : Int) {cs : List Char} (h : Ends cs) :
    read? ((ofInt i).text ++ cs) = some (ofInt i, cs) := by
  have hzero : (digits i.natAbs).head? = some '0' → (digits i.natAbs).length = 1 := by
    intro hhead
    by_cases hi : i.natAbs = 0
    · rw [hi]
      rfl
    · exact absurd hhead (head?_digits hi)
  have hspan := spanDigits_digits i.natAbs h
  have hpoint := readFraction?_of_ends h
  have hpower := readPower?_of_ends h
  unfold read?
  rw [text_ofInt]
  by_cases hnegative : i < 0
  · simpa [hnegative, hspan, digits_ne_nil, hpoint, hpower, ofInt] using hzero
  · obtain ⟨c, rest, hdigits⟩ := List.exists_cons_of_ne_nil (digits_ne_nil i.natAbs)
    have hminus : c ≠ '-' := by
      rintro rfl
      exact absurd (isDigit_of_mem_digits (n := i.natAbs) (c := '-') (by simp [hdigits])) (by decide)
    rw [hdigits] at hzero
    rw [hdigits, List.cons_append] at hspan
    simpa [hnegative, hdigits, hminus, hspan, hpoint, hpower, ofInt] using hzero

private theorem int?_ofInt (i : Int) : (ofInt i).int? = some i := by
  have hvalue : Nat.ofDigitChars 10 (digits i.natAbs) 0 = i.natAbs :=
    Nat.ofDigitChars_toDigits (by decide) (by decide)
  simp only [int?, ofInt, hvalue, List.isEmpty_nil, Option.isNone_none, Bool.and_self, ↓reduceIte,
    decide_eq_true_eq]
  split
  next hnegative =>
    rw [if_neg (by omega)]
    congr 1
    omega
  next hnegative =>
    congr 1
    omega

theorem int64?_ofInt (i : Int64) : (ofInt i.toInt).int64? = some i := by
  rw [int64?, int?_ofInt, Option.bind_some, int64?_toInt]

theorem uint64?_ofInt (n : UInt64) : (ofInt n.toNat).uint64? = some n := by
  have hfits : (0 : Int) ≤ n.toNat ∧ (n.toNat : Int) < UInt64.size := by
    have hlt := n.toNat_lt
    exact ⟨by omega, by exact_mod_cast hlt⟩
  rw [uint64?, int?_ofInt, Option.bind_some, if_pos hfits, Int.toNat_natCast, UInt64.ofNat_toNat]

end Number

end GraphTables.Json
