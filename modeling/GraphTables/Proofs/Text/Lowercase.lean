import GraphTables.Text.Basic
import GraphTables.Text.Lowercase

namespace GraphTables.Text

namespace CaseRun

/-- No small letter of the run `r` is a capital of the run `q`: the two lie apart, or they alternate. -/
def avoids (r q : CaseRun) : Bool :=
  Nat.blt (r.target + (r.last - r.first)) q.first || Nat.blt q.last r.target ||
    ((Nat.beq r.stride 2 || Nat.beq r.first r.last) && Nat.beq q.stride 2 &&
      Nat.beq ((r.target + q.first) % 2) 1)

private theorem contains_eq_false_of_avoids {r q : CaseRun} (h : r.avoids q = true) {n : Nat}
    (hn : r.contains n = true) : q.contains (r.target + (n - r.first)) = false := by
  obtain ⟨⟨hfirst, hlast⟩, hstep⟩ : (r.first ≤ n ∧ n ≤ r.last) ∧ (n - r.first) % r.stride = 0 := by
    simpa [contains] using hn
  refine Bool.eq_false_iff.2 fun hcontains => ?_
  obtain ⟨⟨hlo, hhi⟩, hq⟩ : (q.first ≤ r.target + (n - r.first) ∧
      r.target + (n - r.first) ≤ q.last) ∧
        (r.target + (n - r.first) - q.first) % q.stride = 0 := by
    simpa [contains] using hcontains
  simp only [avoids, Bool.or_eq_true, Bool.and_eq_true, Nat.blt_eq, Nat.beq_eq] at h
  rcases h with (hbelow | habove) | ⟨⟨hsingle, hqstride⟩, hodd⟩
  · omega
  · omega
  · rw [hqstride] at hq
    rcases hsingle with hstride | hone
    · rw [hstride] at hstep
      omega
    · omega

end CaseRun

/-- The dotted capital I, which is no capital of any run but has small letters all the same. -/
def dottedRun : CaseRun := ⟨0x130, 0x130, 1, 0⟩

private theorem avoids_of_mem : ∀ r ∈ capitalRuns, ∀ q ∈ dottedRun :: capitalRuns, r.avoids q = true := by
  have hall : (capitalRuns.all fun r => (dottedRun :: capitalRuns).all r.avoids) = true := by
    decide +kernel
  intro r hr
  exact List.all_eq_true.1 (List.all_eq_true.1 hall r hr)

private theorem lowercaseChar_eq_self {c : Char} (h : ∀ q ∈ dottedRun :: capitalRuns, q.contains c.toNat = false) :
    lowercaseChar c = [c] := by
  have hdotted : c ≠ '\u0130' := by
    rintro rfl
    have := h dottedRun (by simp)
    revert this
    decide
  have hfind : (capitalRuns.find? (·.contains c.toNat)) = none := by
    rw [List.find?_eq_none]
    intro q hq
    simp [h q (List.mem_cons_of_mem _ hq)]
  rw [lowercaseChar, if_neg hdotted, hfind]

private theorem toNat_ofNat_eq_or (n : Nat) : (Char.ofNat n).toNat = n ∨ (Char.ofNat n).toNat = 0 := by
  by_cases hvalid : n.isValidChar
  · left
    rw [Char.ofNat, dif_pos hvalid]
    rfl
  · right
    rw [Char.ofNat, dif_neg hvalid]
    rfl

/-- Small letters have no small letters of their own, and are no capital sigma. -/
theorem lowercaseChar_of_mem {c d : Char} (h : d ∈ lowercaseChar c) :
    d ≠ 'Σ' ∧ lowercaseChar d = [d] := by
  have hsmall (hd : ∀ q ∈ dottedRun :: capitalRuns, q.contains d.toNat = false) :
      d ≠ 'Σ' ∧ lowercaseChar d = [d] := by
    refine ⟨?_, lowercaseChar_eq_self hd⟩
    rintro rfl
    have hsigma : ∃ q ∈ capitalRuns, q.contains 'Σ'.toNat = true := by decide +kernel
    obtain ⟨q, hq, hcontains⟩ := hsigma
    rw [hd q (List.mem_cons_of_mem _ hq)] at hcontains
    cases hcontains
  unfold lowercaseChar at h
  split at h
  next hdotted =>
    have hi : ∀ q ∈ dottedRun :: capitalRuns, q.contains 'i'.toNat = false := by decide +kernel
    have hdot : ∀ q ∈ dottedRun :: capitalRuns, q.contains '\u0307'.toNat = false := by
      decide +kernel
    rw [List.mem_cons, List.mem_singleton] at h
    rcases h with rfl | rfl
    · exact hsmall hi
    · exact hsmall hdot
  next hdotted =>
    split at h
    next run hrun =>
      obtain rfl : d = Char.ofNat (run.target + (c.toNat - run.first)) := by simpa using h
      have hmem := List.mem_of_find?_eq_some hrun
      have hcontains : run.contains c.toNat = true := by
        have := List.find?_some hrun
        exact this
      apply hsmall
      intro q hq
      rcases toNat_ofNat_eq_or (run.target + (c.toNat - run.first)) with hnat | hnull
      · rw [hnat]
        exact CaseRun.contains_eq_false_of_avoids (avoids_of_mem run hmem q hq) hcontains
      · rw [hnull]
        have hzero : ∀ q ∈ dottedRun :: capitalRuns, q.contains 0 = false := by decide +kernel
        exact hzero q hq
    next hnone =>
      obtain rfl : c = d := by simpa [eq_comm] using h
      apply hsmall
      intro q hq
      rcases List.mem_cons.1 hq with rfl | hq
      · refine Bool.eq_false_iff.2 fun hcontains => hdotted ?_
        have hnat : c.toNat = '\u0130'.toNat := by
          simp only [CaseRun.contains, dottedRun, Bool.and_eq_true] at hcontains
          obtain ⟨⟨hlo, hhi⟩, _⟩ := hcontains
          exact Nat.le_antisymm (of_decide_eq_true hhi) (of_decide_eq_true hlo)
        exact Char.toNat_inj.1 hnat
      · simpa using List.find?_eq_none.1 hnone q hq

private theorem lowercaseFrom_eq_self {before cs : List Char}
    (h : ∀ c ∈ cs, c ≠ 'Σ' ∧ lowercaseChar c = [c]) : lowercaseFrom before cs = cs := by
  induction cs generalizing before with
  | nil => rfl
  | cons c cs ih =>
    obtain ⟨hsigma, hself⟩ := h c (by simp)
    rw [lowercaseFrom, if_neg hsigma, hself, ih fun d hd => h d (List.mem_cons_of_mem _ hd)]
    rfl

private theorem lowercaseChar_of_mem_lowercaseFrom {before cs : List Char} {d : Char}
    (h : d ∈ lowercaseFrom before cs) : d ≠ 'Σ' ∧ lowercaseChar d = [d] := by
  induction cs generalizing before with
  | nil => cases h
  | cons c cs ih =>
    rw [lowercaseFrom, List.mem_append] at h
    rcases h with hhead | htail
    · split at hhead
      · have hfinal : 'ς' ≠ 'Σ' ∧ lowercaseChar 'ς' = ['ς'] := by decide +kernel
        have hinner : 'σ' ≠ 'Σ' ∧ lowercaseChar 'σ' = ['σ'] := by decide +kernel
        rw [List.mem_singleton] at hhead
        split at hhead
        · exact hhead ▸ hfinal
        · exact hhead ▸ hinner
      · exact lowercaseChar_of_mem hhead
    · exact ih htail

/-- An ASCII character that is no capital. -/
def isSmallAscii (c : Char) : Bool := c.toNat < 0x41 || 0x5A < c.toNat && c.toNat < 0x80

private theorem lowercaseChar_of_isSmallAscii {c : Char} (h : isSmallAscii c = true) :
    c ≠ 'Σ' ∧ lowercaseChar c = [c] := by
  have hfar : ∀ q ∈ dottedRun :: capitalRuns, q.first = 0x41 ∧ q.last = 0x5A ∨ 0x80 ≤ q.first := by
    have hall : ((dottedRun :: capitalRuns).all fun q =>
        Nat.beq q.first 0x41 && Nat.beq q.last 0x5A || Nat.ble 0x80 q.first) = true := by
      decide +kernel
    intro q hq
    have hq := List.all_eq_true.1 hall q hq
    simpa [Nat.beq_eq] using hq
  simp only [isSmallAscii, Bool.or_eq_true, Bool.and_eq_true, decide_eq_true_eq] at h
  constructor
  · rintro rfl
    revert h
    decide
  · apply lowercaseChar_eq_self
    intro q hq
    refine Bool.eq_false_iff.2 fun hcontains => ?_
    simp only [CaseRun.contains, Bool.and_eq_true, decide_eq_true_eq] at hcontains
    have hq := hfar q hq
    omega

theorem lowercase_of_isSmallAscii {s : String} (h : s.toList.all isSmallAscii = true) :
    lowercase s = s := by
  have hself : lowercaseFrom [] s.toList = s.toList := lowercaseFrom_eq_self fun c hc =>
    lowercaseChar_of_isSmallAscii (List.all_eq_true.1 h c hc)
  rw [lowercase, hself, String.ofList_toList]

/-- A text in small letters is in small letters. -/
@[simp] theorem lowercase_lowercase (s : String) : lowercase (lowercase s) = lowercase s := by
  unfold lowercase
  rw [String.toList_ofList]
  congr 1
  exact lowercaseFrom_eq_self fun c hc => lowercaseChar_of_mem_lowercaseFrom hc

/-- A character without case stays in its text. -/
theorem mem_lowercase_of_isSmallAscii {c : Char} (hc : isSmallAscii c = true) {s : String}
    (h : c ∈ s.toList) : c ∈ (lowercase s).toList := by
  obtain ⟨hsigma, hself⟩ := lowercaseChar_of_isSmallAscii hc
  have hfrom : ∀ before cs, c ∈ cs → c ∈ lowercaseFrom before cs := by
    intro before cs hmem
    induction cs generalizing before with
    | nil => cases hmem
    | cons d cs ih =>
      rw [lowercaseFrom, List.mem_append]
      rcases List.mem_cons.1 hmem with rfl | hmem
      · left
        rw [if_neg hsigma, hself]
        simp
      · exact .inr (ih _ hmem)
  rw [lowercase, String.toList_ofList]
  exact hfrom [] _ h

private theorem lowercaseChar_of_ascii {c : Char} (h : c.toNat < 0x80) :
    c ≠ 'Σ' ∧ lowercaseChar c = [c.toLower] := by
  by_cases hcapital : 0x41 ≤ c.toNat ∧ c.toNat ≤ 0x5A
  · have hcapitals : ∀ n < 26, Char.ofNat (0x41 + n) ≠ 'Σ' ∧
        lowercaseChar (Char.ofNat (0x41 + n)) = [(Char.ofNat (0x41 + n)).toLower] := by
      decide +kernel
    have hc := hcapitals (c.toNat - 0x41) (by omega)
    rwa [Nat.add_sub_cancel' hcapital.1, Char.ofNat_toNat] at hc
  · have hsmall : isSmallAscii c = true := by
      simp only [isSmallAscii, Bool.or_eq_true, Bool.and_eq_true, decide_eq_true_eq]
      omega
    have hlower : c.toLower = c := dif_neg hcapital
    rw [hlower]
    exact lowercaseChar_of_isSmallAscii hsmall

theorem lowercase_of_ascii {s : String} (h : ∀ c ∈ s.toList, c.toNat < 0x80) :
    lowercase s = String.ofList (foldAscii s.toList) := by
  have hfrom : ∀ before cs, (∀ c ∈ cs, c.toNat < 0x80) → lowercaseFrom before cs = foldAscii cs := by
    intro before cs hcs
    induction cs generalizing before with
    | nil => rfl
    | cons c cs ih =>
      rw [List.forall_mem_cons] at hcs
      obtain ⟨hsigma, hlower⟩ := lowercaseChar_of_ascii hcs.1
      rw [lowercaseFrom, if_neg hsigma, hlower, ih _ hcs.2]
      rfl
  rw [lowercase, hfrom [] _ h]

/-- ASCII texts differ in case alone exactly if they have the same small letters. -/
theorem sameIgnoringCase_iff_of_ascii {a b : String} (ha : ∀ c ∈ a.toList, c.toNat < 0x80)
    (hb : ∀ c ∈ b.toList, c.toNat < 0x80) :
    sameIgnoringCase a b = true ↔ lowercase a = lowercase b := by
  rw [sameIgnoringCase, beq_iff_eq, lowercase_of_ascii ha, lowercase_of_ascii hb,
    String.ofList_inj]

/-- An opening parenthesis is the small letter of nothing else. -/
theorem eq_of_open_mem_lowercaseChar {c : Char} (h : '(' ∈ lowercaseChar c) : c = '(' := by
  unfold lowercaseChar at h
  split at h
  · have hdotted : '(' ∉ ['i', '\u0307'] := by decide
    exact absurd h hdotted
  · split at h
    next run hrun =>
      have htargets : (capitalRuns.all fun r => Nat.blt '('.toNat r.target) = true := by
        decide +kernel
      have htarget := List.all_eq_true.1 htargets run (List.mem_of_find?_eq_some hrun)
      rw [Nat.blt_eq] at htarget
      have hnat := congrArg Char.toNat (List.mem_singleton.1 h)
      have hpositive : '('.toNat ≠ 0 := by decide
      rcases toNat_ofNat_eq_or (run.target + (c.toNat - run.first)) with hcode | hnull <;> omega
    · exact (List.mem_singleton.1 h).symm

theorem open_mem_of_mem_lowercase {s : String} (h : '(' ∈ (lowercase s).toList) : '(' ∈ s.toList := by
  have hfrom : ∀ before cs, '(' ∈ lowercaseFrom before cs → '(' ∈ cs := by
    intro before cs hmem
    induction cs generalizing before with
    | nil => cases hmem
    | cons d cs ih =>
      rw [lowercaseFrom, List.mem_append] at hmem
      rw [List.mem_cons]
      rcases hmem with hhead | htail
      · left
        have hsigmas : '(' ∉ ['ς'] ∧ '(' ∉ ['σ'] := by decide
        split at hhead
        · split at hhead
          · exact absurd hhead hsigmas.1
          · exact absurd hhead hsigmas.2
        · exact (eq_of_open_mem_lowercaseChar hhead).symm
      · exact .inr (ih _ htail)
  rw [lowercase, String.toList_ofList] at h
  exact hfrom [] _ h

end GraphTables.Text
