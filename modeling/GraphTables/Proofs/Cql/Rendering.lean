import GraphTables.Proofs.Batch.Rejection
import GraphTables.Proofs.Schema.Reading

namespace GraphTables

open Text

variable {α β : Type}

/-- How far the texts of certain values go can be told from the characters that may stand behind them: of two
    texts that start with such values and are the same, the values are the same, and so is what follows. So a
    text is taken apart from its front, and no text in it closes its quotes early. -/
structure Delimited (write : α → List Char) (valid : α → Prop) (stop : Char → Prop) : Prop where
  cancel : ∀ {a b : α} {rest rest' : List Char}, valid a → valid b → (∀ c ∈ rest.head?, stop c) →
    (∀ c ∈ rest'.head?, stop c) → write a ++ rest = write b ++ rest' → a = b ∧ rest = rest'

private theorem forall_head?_cons {p : Char → Prop} {c : Char} (hc : p c) (l : List Char) :
    ∀ d ∈ (c :: l).head?, p d := by
  rintro _ ⟨⟩
  exact hc

namespace Delimited

private theorem cancel_cons {write : α → List Char} {valid : α → Prop} {stop : Char → Prop}
    (h : Delimited write valid stop) {a b : α} (ha : valid a) (hb : valid b) {c : Char} (hc : stop c)
    {rest rest' : List Char} (heq : write a ++ c :: rest = write b ++ c :: rest') : a = b ∧ rest = rest' := by
  obtain ⟨hab, hbehind⟩ := h.cancel ha hb (forall_head?_cons hc _) (forall_head?_cons hc _) heq
  exact ⟨hab, (List.cons.inj hbehind).2⟩

/-- A pair is told by its parts, if what stands between them ends the first part. -/
theorem pair {write : α → List Char} {write' : β → List Char} {valid : α → Prop} {valid' : β → Prop}
    {stop stop' : Char → Prop} (h : Delimited write valid stop) (h' : Delimited write' valid' stop')
    {c : Char} (hc : stop c) (between : List Char) :
    Delimited (fun e : α × β => write e.1 ++ c :: (between ++ write' e.2))
      (fun e => valid e.1 ∧ valid' e.2) stop' := by
  refine ⟨?_⟩
  intro a b rest rest' ha hb hrest hrest' heq
  simp only [List.append_assoc, List.cons_append] at heq
  obtain ⟨hfirst, hbehind⟩ := h.cancel_cons ha.1 hb.1 hc heq
  rw [List.append_cancel_left_eq] at hbehind
  obtain ⟨hsecond, hrest⟩ := h'.cancel ha.2 hb.2 hrest hrest' hbehind
  exact ⟨Prod.ext hfirst hsecond, hrest⟩

/-- A list that is not empty is told by its elements, if the character that a separator starts with ends them
    but cannot stand behind the list. -/
theorem intercalate {write : α → List Char} {valid : α → Prop} {stop : Char → Prop}
    (h : Delimited write valid stop) {c : Char} (hc : stop c) (separator : List Char) :
    Delimited (fun l : List α => (c :: separator).intercalate (l.map write))
      (fun l => l ≠ [] ∧ ∀ a ∈ l, valid a) (fun d => stop d ∧ d ≠ c) := by
  refine ⟨?_⟩
  rintro xs ys rest rest' ⟨hxs, hvalid⟩ ⟨hys, hvalid'⟩ hrest hrest' heq
  have hstop : ∀ d ∈ rest.head?, stop d := fun d hd => (hrest d hd).1
  have hstop' : ∀ d ∈ rest'.head?, stop d := fun d hd => (hrest' d hd).1
  induction xs generalizing ys with
  | nil => exact absurd rfl hxs
  | cons x xs ih =>
    cases ys with
    | nil => exact absurd rfl hys
    | cons y ys =>
      rw [List.forall_mem_cons] at hvalid hvalid'
      cases xs with
      | nil =>
        cases ys with
        | nil =>
          simp only [List.map_cons, List.map_nil, List.intercalate_singleton] at heq
          obtain ⟨rfl, hbehind⟩ := h.cancel hvalid.1 hvalid'.1 hstop hstop' heq
          exact ⟨rfl, hbehind⟩
        | cons y' ys =>
          simp only [List.map_cons, List.map_nil, List.intercalate_singleton, List.intercalate_cons_cons,
            List.append_assoc, List.cons_append] at heq
          obtain ⟨_, rfl⟩ := h.cancel hvalid.1 hvalid'.1 hstop (forall_head?_cons hc _) heq
          exact absurd rfl (hrest c rfl).2
      | cons x' xs =>
        cases ys with
        | nil =>
          simp only [List.map_cons, List.map_nil, List.intercalate_singleton, List.intercalate_cons_cons,
            List.append_assoc, List.cons_append] at heq
          obtain ⟨_, rfl⟩ := h.cancel hvalid.1 hvalid'.1 (forall_head?_cons hc _) hstop' heq
          exact absurd rfl (hrest' c rfl).2
        | cons y' ys =>
          simp only [List.map_cons, List.intercalate_cons_cons, List.append_assoc, List.cons_append] at heq
          obtain ⟨rfl, hbehind⟩ := h.cancel_cons hvalid.1 hvalid'.1 hc heq
          rw [List.append_cancel_left_eq] at hbehind
          obtain ⟨htail, hbehind⟩ := ih (by simp) hvalid.2 (by simp) hvalid'.2 hbehind
          exact ⟨by rw [htail], hbehind⟩

end Delimited

private theorem delimited_name : Delimited String.toList IsName (isNameChar · = false) := by
  refine ⟨?_⟩
  intro s t rest rest' hs ht hrest hrest' heq
  have hspan := span_append hs.chars hrest
  rw [heq, span_append ht.chars hrest', Prod.mk.injEq] at hspan
  exact ⟨(String.toList_inj.1 hspan.1).symm, hspan.2.symm⟩

private theorem doubleQuotes_cons_quote (cs : List Char) :
    doubleQuotes (singleQuote :: cs) = singleQuote :: singleQuote :: doubleQuotes cs := by
  rw [doubleQuotes, if_pos rfl]

private theorem doubleQuotes_cons_other {c : Char} (hc : c ≠ singleQuote) (cs : List Char) :
    doubleQuotes (c :: cs) = c :: doubleQuotes cs := by
  rw [doubleQuotes, if_neg hc]

private theorem exists_doubleQuotes_cons (c : Char) (cs : List Char) : ∃ l, doubleQuotes (c :: cs) = c :: l := by
  by_cases hc : c = singleQuote
  · exact ⟨_, hc ▸ doubleQuotes_cons_quote cs⟩
  · exact ⟨_, doubleQuotes_cons_other hc cs⟩

/-- A quote that no other quote follows does not stand at the start of a text with its quotes doubled. -/
theorem close_ne_doubleQuotes {c : Char} {cs rest rest' : List Char}
    (hrest : ∀ d ∈ rest.head?, d ≠ singleQuote) :
    singleQuote :: rest ≠ doubleQuotes (c :: cs) ++ rest' := by
  intro h
  by_cases hc : c = singleQuote
  · subst hc
    rw [doubleQuotes_cons_quote, List.cons_append, List.cons_append, List.cons.injEq] at h
    rw [h.2] at hrest
    exact hrest singleQuote rfl rfl
  · rw [doubleQuotes_cons_other hc, List.cons_append, List.cons.injEq] at h
    exact hc h.1.symm

/-- The first quote that is not doubled is the one that closes, whatever the text is. -/
theorem doubleQuotes_cancel {cs ds rest rest' : List Char} (hrest : ∀ c ∈ rest.head?, c ≠ singleQuote)
    (hrest' : ∀ c ∈ rest'.head?, c ≠ singleQuote)
    (h : doubleQuotes cs ++ singleQuote :: rest = doubleQuotes ds ++ singleQuote :: rest') :
    cs = ds ∧ rest = rest' := by
  induction cs generalizing ds with
  | nil =>
    cases ds with
    | nil => exact ⟨rfl, (List.cons.inj h).2⟩
    | cons d ds => exact absurd h (close_ne_doubleQuotes hrest)
  | cons c cs ih =>
    cases ds with
    | nil => exact absurd h.symm (close_ne_doubleQuotes hrest')
    | cons d ds =>
      have hhead : c = d := by
        obtain ⟨l, hl⟩ := exists_doubleQuotes_cons c cs
        obtain ⟨l', hl'⟩ := exists_doubleQuotes_cons d ds
        rw [hl, hl'] at h
        exact (List.cons.inj h).1
      subst hhead
      have htail : doubleQuotes cs ++ singleQuote :: rest = doubleQuotes ds ++ singleQuote :: rest' := by
        by_cases hc : c = singleQuote
        · subst hc
          simpa only [doubleQuotes_cons_quote, List.cons_append, List.cons.injEq, true_and] using h
        · simpa only [doubleQuotes_cons_other hc, List.cons_append, List.cons.injEq, true_and] using h
      obtain ⟨rfl, hbehind⟩ := ih htail
      exact ⟨rfl, hbehind⟩

private theorem delimited_quote : Delimited (fun s => (quote s).toList) (fun _ => True) (· ≠ singleQuote) := by
  refine ⟨?_⟩
  intro s t rest rest' _ _ hrest hrest' heq
  simp only [quote, String.toList_ofList, List.cons_append, List.append_assoc, List.nil_append,
    List.cons.injEq, true_and] at heq
  obtain ⟨htext, hrest⟩ := doubleQuotes_cancel hrest hrest' heq
  exact ⟨String.toList_inj.1 htext, hrest⟩

private theorem delimited_text :
    Delimited (fun l : Literal => l.render.toList) (fun l => ∃ s, l = .text s) (· ≠ singleQuote) := by
  refine ⟨?_⟩
  rintro _ _ rest rest' ⟨s, rfl⟩ ⟨t, rfl⟩ hrest hrest' heq
  obtain ⟨rfl, hbehind⟩ := delimited_quote.cancel (a := s) (b := t) trivial trivial hrest hrest' heq
  exact ⟨rfl, hbehind⟩

namespace Insert

/-- The insert is into a table with a plain name, and sets columns with plain names to texts. -/
structure Plain (i : Insert) : Prop where
  table : IsName i.table
  ne_nil : i.values ≠ []
  column : ∀ v ∈ i.values, IsName v.1
  text : ∀ v ∈ i.values, ∃ s, v.2 = .text s

private theorem get?_of_mem {i : Insert} {v : String × Literal} (hv : v ∈ i.values) : i.get? v.1 = some v.2 := by
  have hlookup := SortedMap.map_lookup_keys i.nodup
  rw [List.map_map, List.map_inj_left] at hlookup
  exact hlookup v hv

/-- An insert that sets columns of the graph to texts is plain. -/
theorem Sets.plain {i : Insert} {m : SortedMap Column String} (h : i.Sets m) (htable : IsName i.table)
    {c : Column} (hc : (m.get? c).isSome) : i.Plain where
  table := htable
  ne_nil hnil := by
    have hget := h.text c
    rw [get?, hnil, List.lookup_nil, eq_comm, Option.map_eq_none_iff] at hget
    rw [hget] at hc
    cases hc
  column v hv := by
    obtain ⟨d, hd, _⟩ := h.mem_columns (List.mem_map_of_mem hv)
    exact hd ▸ isName_columnText d
  text v hv := by
    obtain ⟨d, hd, _⟩ := h.mem_columns (List.mem_map_of_mem hv)
    have hget := h.text d
    rw [← hd, get?_of_mem hv, eq_comm, Option.map_eq_some_iff] at hget
    obtain ⟨s, _, hs⟩ := hget
    exact ⟨s, hs.symm⟩

private theorem toList_render (i : Insert) :
    i.render.toList = "INSERT INTO ".toList ++ (i.table.toList ++ ' ' :: '(' ::
      ([',', ' '].intercalate ((i.values.map (·.1)).map String.toList) ++ ')' :: (" VALUES (".toList ++
        ([',', ' '].intercalate ((i.values.map (·.2)).map fun l => l.render.toList) ++ [')', ';'])))) := by
  have hopen : " (".toList = [' ', '('] := by decide
  have hcomma : ", ".toList = [',', ' '] := by decide
  have hvalues : ") VALUES (".toList = ')' :: " VALUES (".toList := by decide
  have hclose : ");".toList = [')', ';'] := by decide
  unfold render
  simp only [String.toList_append, String.toList_intercalate, hopen, hcomma, hvalues, hclose, List.map_map,
    List.append_assoc, List.cons_append, List.nil_append, Function.comp_def]

private theorem Plain.columns {i : Insert} (h : i.Plain) :
    i.values.map (·.1) ≠ [] ∧ ∀ s ∈ i.values.map (·.1), IsName s :=
  ⟨by simpa using h.ne_nil, by simpa only [List.forall_mem_map] using h.column⟩

private theorem Plain.literals {i : Insert} (h : i.Plain) :
    i.values.map (·.2) ≠ [] ∧ ∀ l ∈ i.values.map (·.2), ∃ s, l = .text s :=
  ⟨by simpa using h.ne_nil, by simpa only [List.forall_mem_map] using h.text⟩

private theorem ext_values {i j : Insert} (htable : i.table = j.table)
    (hcolumns : i.values.map (·.1) = j.values.map (·.1))
    (hliterals : i.values.map (·.2) = j.values.map (·.2)) : i = j := by
  have hvalues : i.values = j.values :=
    (List.zip_of_prod hcolumns hliterals).trans (List.zip_of_prod rfl rfl).symm
  obtain ⟨table, values, _⟩ := i
  obtain ⟨table', values', _⟩ := j
  cases htable
  cases hvalues
  rfl

private theorem exists_toList_render (i : Insert) : ∃ l, i.render.toList = 'I' :: l := by
  have hstart : "INSERT INTO ".toList = 'I' :: "NSERT INTO ".toList := by decide
  rw [toList_render, hstart]
  exact ⟨_, rfl⟩

/-- Where a plain insert ends can be told from its text. -/
theorem Plain.eq_of_toList_render {i j : Insert} (hi : i.Plain) (hj : j.Plain) {rest rest' : List Char}
    (h : i.render.toList ++ rest = j.render.toList ++ rest') : i = j ∧ rest = rest' := by
  have hcolumns := delimited_name.intercalate (c := ',') (by decide) [' ']
  have hliterals := delimited_text.intercalate (c := ',') (by decide) [' ']
  simp only [toList_render, List.append_assoc, List.cons_append, List.nil_append,
    List.append_cancel_left_eq] at h
  obtain ⟨htable, h⟩ := delimited_name.cancel_cons hi.table hj.table (by decide) h
  obtain ⟨hnames, h⟩ := hcolumns.cancel_cons hi.columns hj.columns (by decide) (List.cons.inj h).2
  rw [List.append_cancel_left_eq] at h
  obtain ⟨htexts, h⟩ := hliterals.cancel_cons hi.literals hj.literals (by decide) h
  exact ⟨ext_values htable hnames htexts, (List.cons.inj h).2⟩

end Insert

private theorem Clause.renderEach_eq_map (clauses : List Clause) : renderEach clauses = clauses.map render := by
  induction clauses with
  | nil => rw [renderEach, List.map_nil]
  | cons c rest ih => rw [renderEach, ih, List.map_cons]

namespace Delete

/-- The deletion is from a table with a plain name, by texts in columns with plain names. -/
structure Plain (d : Delete) (pairs : List (String × String)) : Prop where
  table : IsName d.table
  ne_nil : pairs ≠ []
  column : ∀ e ∈ pairs, IsName e.1
  clauses : d.clauses = pairs.map fun e => Clause.equals e.1 e.2

variable {d d' : Delete} {pairs pairs' : List (String × String)}

private theorem Plain.toList_render (h : d.Plain pairs) :
    d.render.toList = "DELETE FROM ".toList ++ (d.table.toList ++ ' ' :: ("WHERE ".toList ++
      ([' ', 'A', 'N', 'D', ' '].intercalate (pairs.map fun e =>
        e.1.toList ++ ' ' :: (['=', ' '] ++ (quote e.2).toList)) ++ [';']))) := by
  have hwhere : " WHERE ".toList = ' ' :: "WHERE ".toList := by decide
  have hand : " AND ".toList = [' ', 'A', 'N', 'D', ' '] := by decide
  have hend : ";".toList = [';'] := by decide
  have hspace : " ".toList = [' '] := by decide
  have hequal : "=".toList = ['='] := by decide
  have hclauses : d.clauses.isEmpty = false := by simpa [h.clauses] using h.ne_nil
  have hpieces : (Clause.renderEach d.clauses).map String.toList =
      pairs.map fun e => e.1.toList ++ ' ' :: (['=', ' '] ++ (quote e.2).toList) := by
    rw [Clause.renderEach_eq_map, h.clauses, List.map_map, List.map_map]
    refine List.map_congr_left fun e _ => ?_
    simp [Clause.equals, Clause.render, Restriction.render, Comparison.symbol, Literal.render, hspace, hequal]
  unfold render renderWhere
  rw [hclauses]
  simp only [Bool.false_eq_true, ↓reduceIte, String.toList_append, String.toList_intercalate, hpieces, hwhere,
    hand, hend, List.append_assoc, List.cons_append]

private theorem Plain.exists_toList_render (h : d.Plain pairs) : ∃ l, d.render.toList = 'D' :: l := by
  have hstart : "DELETE FROM ".toList = 'D' :: "ELETE FROM ".toList := by decide
  rw [h.toList_render, hstart]
  exact ⟨_, rfl⟩

private theorem Plain.valid (h : d.Plain pairs) : pairs ≠ [] ∧ ∀ e ∈ pairs, IsName e.1 ∧ True :=
  ⟨h.ne_nil, fun e he => ⟨h.column e he, trivial⟩⟩

/-- Where a plain deletion ends can be told from its text. -/
theorem Plain.eq_of_toList_render (hd : d.Plain pairs) (hd' : d'.Plain pairs') {rest rest' : List Char}
    (h : d.render.toList ++ rest = d'.render.toList ++ rest') : d = d' ∧ rest = rest' := by
  have hpairs := (delimited_name.pair delimited_quote (c := ' ') (by decide) ['=', ' ']).intercalate
    (c := ' ') (by decide) ['A', 'N', 'D', ' ']
  simp only [hd.toList_render, hd'.toList_render, List.append_assoc, List.cons_append, List.nil_append,
    List.append_cancel_left_eq] at h
  obtain ⟨htable, h⟩ := delimited_name.cancel_cons hd.table hd'.table (by decide) h
  rw [List.append_cancel_left_eq] at h
  obtain ⟨hsame, h⟩ := hpairs.cancel_cons hd.valid hd'.valid (by decide) h
  have hclauses : d.clauses = d'.clauses := by rw [hd.clauses, hd'.clauses, hsame]
  exact ⟨congrArg₂ Delete.mk htable hclauses, h⟩

end Delete

namespace Layout

variable {table : String} {r : Request}

private theorem plain_of_mem_inserts {l : Layout} {inserts : List Insert} (htable : IsName table)
    (h : l.inserts table r = .ok inserts) {i : Insert} (hi : i ∈ inserts) : i.Plain := by
  have hname : IsName i.table := (columns_of_mem_inserts h hi).1 ▸ htable
  obtain ⟨_, hcontent, _⟩ := bind_eq_ok_iff.1 h
  obtain ⟨_, rfl⟩ := inserts_eq_ok h
  split at hi
  next hcells =>
    obtain rfl := List.mem_singleton.1 hi
    have hkeys : r.keys.entries ≠ [] := by
      intro hnone
      simp [Request.requireContent, Request.isEmpty, SortedMap.isEmpty, hnone, hcells] at hcontent
    obtain ⟨e, he⟩ := List.exists_mem_of_ne_nil _ hkeys
    refine (sets_keyInsert table r).plain hname (c := e.1) ?_
    rw [SortedMap.get?_of_mem_entries he]
    rfl
  next =>
    obtain ⟨p, _, rfl⟩ := List.mem_map.1 hi
    refine (sets_cellInsert table r p).plain hname (c := p.valueColumn) ?_
    rw [SortedMap.get?_insert, if_pos rfl]
    rfl

end Layout

private theorem Kind.plain_of_mem_deletes (k : Kind) {table : String} {r : Request} {deletes : List Delete}
    (htable : IsName table) (h : k.layout.deletes table r = .ok deletes) {d : Delete} (hd : d ∈ deletes) :
    ∃ pairs, d.Plain pairs := by
  obtain ⟨pairs, hne, _, rfl⟩ := k.equalities_of_mem_deletes h d hd
  refine ⟨pairs.map fun e => (e.1.text, e.2), htable, by simpa using hne, ?_, ?_⟩
  · rw [List.forall_mem_map]
    exact fun e _ => isName_columnText e.1
  · rw [List.map_map]
    rfl

namespace Statement

/-- The statement is one of those that a request is turned into, for a table with a plain name. -/
inductive Emitted : Statement → Prop where
  | insert {k : Kind} {table : String} {r : Request} {inserts : List Insert} {i : Insert} :
    IsName table → k.layout.inserts table r = .ok inserts → i ∈ inserts → Emitted (.insert i)
  | delete {k : Kind} {table : String} {r : Request} {deletes : List Delete} {d : Delete} :
    IsName table → k.layout.deletes table r = .ok deletes → d ∈ deletes → Emitted (.delete d)

variable {s s' : Statement}

private theorem Emitted.plain (h : s.Emitted) :
    (∃ i, s = .insert i ∧ i.Plain) ∨ ∃ d pairs, s = .delete d ∧ d.Plain pairs := by
  cases h with
  | insert htable hinserts hi => exact .inl ⟨_, rfl, Layout.plain_of_mem_inserts htable hinserts hi⟩
  | delete htable hdeletes hd =>
    obtain ⟨pairs, hplain⟩ := Kind.plain_of_mem_deletes _ htable hdeletes hd
    exact .inr ⟨_, pairs, rfl, hplain⟩

private theorem Emitted.eq_of_toList_render (h : s.Emitted) (h' : s'.Emitted) {rest rest' : List Char}
    (heq : s.render.toList ++ rest = s'.render.toList ++ rest') : s = s' ∧ rest = rest' := by
  obtain ⟨i, rfl, hi⟩ | ⟨d, pairs, rfl, hd⟩ := h.plain
  · obtain ⟨j, rfl, hj⟩ | ⟨e, pairs, rfl, he⟩ := h'.plain
    · obtain ⟨rfl, hrest⟩ := hi.eq_of_toList_render hj heq
      exact ⟨rfl, hrest⟩
    · obtain ⟨l, hl⟩ := i.exists_toList_render
      obtain ⟨l', hl'⟩ := he.exists_toList_render
      rw [render, render, hl, hl'] at heq
      cases (List.cons.inj heq).1
  · obtain ⟨j, rfl, hj⟩ | ⟨e, pairs', rfl, he⟩ := h'.plain
    · obtain ⟨l, hl⟩ := hd.exists_toList_render
      obtain ⟨l', hl'⟩ := j.exists_toList_render
      rw [render, render, hl, hl'] at heq
      cases (List.cons.inj heq).1
    · obtain ⟨rfl, hrest⟩ := hd.eq_of_toList_render he heq
      exact ⟨rfl, hrest⟩

/-- No member of a batch is taken for the end of the batch. -/
theorem Emitted.toList_render_ne (h : s.Emitted) (rest rest' : List Char) :
    ' ' :: (s.render.toList ++ rest) ≠ ' ' :: 'A' :: rest' := by
  intro heq
  obtain ⟨i, rfl, _⟩ | ⟨d, pairs, rfl, hd⟩ := h.plain
  · obtain ⟨l, hl⟩ := i.exists_toList_render
    rw [render, hl] at heq
    cases (List.cons.inj (List.cons.inj heq).2).1
  · obtain ⟨l, hl⟩ := hd.exists_toList_render
    rw [render, hl] at heq
    cases (List.cons.inj (List.cons.inj heq).2).1

private theorem toList_renderMembers_cons (s : Statement) (members : List Statement) :
    (renderMembers (s :: members)).toList = ' ' :: (s.render.toList ++ (renderMembers members).toList) := by
  have hspace : " ".toList = [' '] := by decide
  rw [renderMembers, String.toList_append, String.toList_append, hspace, List.append_assoc]
  rfl

/-- The members of a batch are told by their text, up to the end of the batch. -/
theorem eq_of_toList_renderMembers {members members' : List Statement} {rest : List Char}
    (hmembers : ∀ s ∈ members, s.Emitted) (hmembers' : ∀ s ∈ members', s.Emitted)
    (h : (renderMembers members).toList ++ ' ' :: 'A' :: rest =
      (renderMembers members').toList ++ ' ' :: 'A' :: rest) : members = members' := by
  induction members generalizing members' with
  | nil =>
    cases members' with
    | nil => rfl
    | cons s' members' =>
      rw [toList_renderMembers_cons, List.cons_append, List.append_assoc] at h
      exact absurd h.symm ((List.forall_mem_cons.1 hmembers').1.toList_render_ne _ _)
  | cons s members ih =>
    rw [List.forall_mem_cons] at hmembers
    cases members' with
    | nil =>
      rw [toList_renderMembers_cons, List.cons_append, List.append_assoc] at h
      exact absurd h (hmembers.1.toList_render_ne _ _)
    | cons s' members' =>
      rw [List.forall_mem_cons] at hmembers'
      rw [toList_renderMembers_cons, toList_renderMembers_cons, List.cons_append, List.cons_append,
        List.cons.injEq, List.append_assoc, List.append_assoc] at h
      obtain ⟨rfl, hrest⟩ := hmembers.1.eq_of_toList_render hmembers'.1 h.2
      rw [ih hmembers.2 hmembers'.2 hrest]

/-- The text of a batch tells its statements: those of requests of any kinds, with any texts in them, for
    tables with plain names. No text in them is read as another column, restriction or statement. -/
theorem render_batch_inj {first second : List Statement} (hfirst : ∀ s ∈ first, s.Emitted)
    (hsecond : ∀ s ∈ second, s.Emitted) :
    (batch first).render = (batch second).render ↔ first = second := by
  refine ⟨fun h => ?_, fun h => by rw [h]⟩
  have hend : " APPLY BATCH;".toList = ' ' :: 'A' :: "PPLY BATCH;".toList := by decide
  have htext := congrArg String.toList h
  simp only [render, String.toList_append, hend, List.append_assoc, List.append_cancel_left_eq] at htext
  exact eq_of_toList_renderMembers hfirst hsecond htext

/-- A text that would be two inserts, if its quotes were not doubled. -/
theorem render_batch_inj_quotes :
    let request (text : String) : Request := ⟨⟨""⟩, .ofList [(.name, text)], []⟩
    let write (text : String) : Statement := .insert (Layout.keyInsert "notes" (request text))
    let erase (text : String) : Statement := .delete ⟨"notes", Clause.equalities [(.name, text)]⟩
    let one := [write "a'); INSERT INTO notes (name) VALUES ('b", erase "a"]
    let two := [write "a", write "b", erase "a"]
    (∀ s ∈ one, s.Emitted) ∧ (∀ s ∈ two, s.Emitted) ∧ (batch one).render ≠ (batch two).render ∧
      (batch one).render = "BEGIN BATCH INSERT INTO notes (name) VALUES ('a''); INSERT INTO notes (name) " ++
        "VALUES (''b'); DELETE FROM notes WHERE name = 'a'; APPLY BATCH;" := by
  intro request write erase one two
  have htable : IsName "notes" := isName_of_all (by decide) (by decide)
  have hwrite (text : String) : (write text).Emitted :=
    .insert (k := .propertyKey) (r := request text) htable rfl (List.mem_singleton_self _)
  have herase (text : String) : (erase text).Emitted :=
    .delete (k := .propertyKey) (r := request text) htable rfl (List.mem_singleton_self _)
  have hone : ∀ s ∈ one, s.Emitted := by simp [one, hwrite, herase]
  have htwo : ∀ s ∈ two, s.Emitted := by simp [two, hwrite, herase]
  refine ⟨hone, htwo, fun h => ?_, by decide +kernel⟩
  have hlength := congrArg List.length ((render_batch_inj hone htwo).1 h)
  cases hlength

end Statement

end GraphTables
