import GraphTables.Proofs.Schema.Setup

namespace GraphTables

open Text

private theorem foldAscii_layoutTable (k : Kind) : foldAscii k.layout.table.toList = k.layout.table.toList := by
  cases k <;> rfl

private theorem layoutTable_injective {k k' : Kind} (h : k.layout.table = k'.layout.table) : k = k' := by
  have hall : ∀ k ∈ Kind.all, ∀ k' ∈ Kind.all, k.layout.table = k'.layout.table → k = k' := by
    decide
  exact hall k k.mem_all k' k'.mem_all h

/-- No name of a kind ends in a low line and the name of a kind. -/
theorem layoutTable_ne_append (k k' : Kind) (cs : List Char) :
    k.layout.table.toList ≠ cs ++ '_' :: k'.layout.table.toList := by
  have hall : ∀ k ∈ Kind.all, ∀ k' ∈ Kind.all,
      ¬('_' :: k'.layout.table.toList) <:+ k.layout.table.toList := by decide
  intro h
  exact hall k k.mem_all k' k'.mem_all ⟨cs, h.symm⟩

namespace Settings

/-- Neither has a prefix, or the prefixes differ at most in the case of ASCII letters. An empty prefix is
    a prefix. -/
def samePrefix (s u : Settings) : Bool :=
  match s.tablePrefix, u.tablePrefix with
  | none, none => true
  | some p, some q => sameIgnoringCase p q
  | none, some _ => false
  | some _, none => false

/-- What stands before the name of a kind, in small letters. -/
def foldedPrefix (s : Settings) : List Char :=
  match s.tablePrefix with
  | some p => foldAscii p.toList ++ ['_']
  | none => []

private theorem foldedPrefix_eq_iff {s u : Settings} :
    s.foldedPrefix = u.foldedPrefix ↔ s.samePrefix u = true := by
  unfold foldedPrefix samePrefix
  cases s.tablePrefix with
  | none => cases u.tablePrefix <;> simp
  | some p => cases u.tablePrefix <;> simp [sameIgnoringCase]

/-- The end of a prefix is a low line. -/
theorem getLast?_foldedPrefix (s : Settings) : ∀ c ∈ s.foldedPrefix.getLast?, c = '_' := by
  unfold foldedPrefix
  cases s.tablePrefix <;> simp

private theorem lowercase_tableName {s : Settings} (h : s.PlainPrefix) (k : Kind) :
    lowercase (s.tableName k) = String.ofList (s.foldedPrefix ++ k.layout.table.toList) := by
  rw [lowercase_of_ascii (isName_tableName h k).ascii]
  unfold tableName foldedPrefix
  cases s.tablePrefix with
  | none => rw [foldAscii_layoutTable, List.nil_append]
  | some p =>
    have hseparator : foldAscii "_".toList = ['_'] := rfl
    rw [String.toList_append, String.toList_append, SchemaChange.foldAscii_append,
      SchemaChange.foldAscii_append, foldAscii_layoutTable, hseparator]

/-- A name shows where its prefix ends. -/
theorem eq_of_foldedPrefix_append {s u : Settings} {k k' : Kind}
    (h : s.foldedPrefix ++ k.layout.table.toList = u.foldedPrefix ++ k'.layout.table.toList) :
    s.foldedPrefix = u.foldedPrefix ∧ k = k' := by
  have hlonger {s u : Settings} {k k' : Kind} {rest : List Char}
      (hbefore : u.foldedPrefix = s.foldedPrefix ++ rest)
      (hname : k.layout.table.toList = rest ++ k'.layout.table.toList) :
      s.foldedPrefix = u.foldedPrefix ∧ k = k' := by
    rcases List.eq_nil_or_concat rest with rfl | ⟨cs, c, rfl⟩
    · rw [List.append_nil] at hbefore
      exact ⟨hbefore.symm, layoutTable_injective (String.toList_inj.1 hname)⟩
    · obtain rfl : c = '_' := u.getLast?_foldedPrefix c (by simp [hbefore])
      exact absurd (by simpa using hname) (layoutTable_ne_append k k' cs)
  rcases List.append_eq_append_iff.1 h with ⟨rest, hbefore, hname⟩ | ⟨rest, hbefore, hname⟩
  · exact hlonger hbefore hname
  · obtain ⟨hbefore, hkind⟩ := hlonger hbefore hname
    exact ⟨hbefore.symm, hkind.symm⟩

/-- Tables of different kinds, or under prefixes that differ in more than case, have names that differ
    in more than case. A prefix ends in a low line, and no name of a kind ends in a low line and the name of a
    kind, so a name shows where its prefix ends. -/
theorem lowercase_tableName_ne {s u : Settings} (hs : s.PlainPrefix) (hu : u.PlainPrefix) {k k' : Kind}
    (h : k ≠ k' ∨ s.samePrefix u = false) : lowercase (s.tableName k) ≠ lowercase (u.tableName k') := by
  rw [lowercase_tableName hs, lowercase_tableName hu, Ne, String.ofList_inj]
  intro hname
  obtain ⟨hbefore, hkind⟩ := eq_of_foldedPrefix_append hname
  rcases h with hne | hne
  · exact hne hkind
  · rw [foldedPrefix_eq_iff.1 hbefore] at hne
    cases hne

end Settings

/-- Only index labels have an indexed column. -/
theorem Kind.of_mem_indexed {k : Kind} {c : Column} (h : c ∈ k.layout.indexed) :
    k = .indexLabel ∧ c = .baseValue := by
  revert c
  cases k <;> decide

private theorem lowercase_append_of_ascii {a b : String} (ha : ∀ c ∈ a.toList, c.toNat < 0x80)
    (hb : ∀ c ∈ b.toList, c.toNat < 0x80) : lowercase (a ++ b) = lowercase a ++ lowercase b := by
  rw [lowercase_of_ascii (forall_mem_append ha hb), lowercase_of_ascii ha, lowercase_of_ascii hb,
    String.toList_append, SchemaChange.foldAscii_append, String.ofList_append]

namespace KindTable

variable {t u : KindTable}

/-- The name of an index in small letters is that of the index of a table in small letters. -/
theorem indexKey_eq (ht : t.settings.PlainPrefix) (c : Column) :
    t.indexKey c = indexName (lowercase t.name) c.text := by
  have hname : IsName t.name := Settings.isName_tableName ht t.kind
  have hcolumn : IsName c.text := isName_columnText c
  have hseparator : IsName "_" := isName_of_all (by decide) (by decide)
  have hend : IsName "_index" := isName_of_all (by decide) (by decide)
  have hstart := forall_mem_append hname.ascii hseparator.ascii
  have hsmall : lowercase "_" = "_" ∧ lowercase "_index" = "_index" := by decide +kernel
  rw [indexKey, indexName, indexName,
    lowercase_append_of_ascii (forall_mem_append hstart hcolumn.ascii) hend.ascii,
    lowercase_append_of_ascii hstart hcolumn.ascii,
    lowercase_append_of_ascii hname.ascii hseparator.ascii, lowercase_columnText, hsmall.1, hsmall.2]

/-- Tables that have an index of one name are of one name themselves. -/
theorem lowercase_name_eq_of_indexKey (ht : t.settings.PlainPrefix) (hu : u.settings.PlainPrefix)
    {c d : Column} (hc : c ∈ t.layout.indexed) (hd : d ∈ u.layout.indexed)
    (h : t.indexKey c = u.indexKey d) : lowercase t.name = lowercase u.name := by
  obtain ⟨_, rfl⟩ := Kind.of_mem_indexed hc
  obtain ⟨_, rfl⟩ := Kind.of_mem_indexed hd
  rw [indexKey_eq ht, indexKey_eq hu, indexName, indexName, ← String.toList_inj] at h
  simp only [String.toList_append, List.append_cancel_right_eq] at h
  exact String.toList_inj.1 h

end KindTable

end GraphTables
