import GraphTables.Proofs.Schema.Scanning
import GraphTables.Proofs.Store.Mutation
import GraphTables.Schema.Definition

namespace GraphTables

open Text

private theorem isName_columnType (type : ColumnType) : IsName type.name := by
  cases type <;> exact isName_of_all (by decide) (by decide)

theorem isName_columnText (c : Column) : IsName c.text := by
  cases c <;> exact isName_of_all (by decide) (by decide)

namespace TableDefinition

theorem validate_eq_ok {d : TableDefinition} (h : d.validate = .ok ()) :
    d.columns ≠ [] ∧ d.partitionKey ≠ [] ∧
      (∀ types, d.columnTypes = some types → types.length = d.columns.length) ∧
      ∀ k ∈ d.partitionKey ++ d.clusteringKey, k ∈ d.columns := by
  unfold validate at h
  split at h
  · cases h
  next hcolumns =>
    split at h
    · cases h
    next hpartition =>
      split at h
      · cases h
      next htypes =>
        split at h
        · cases h
        next =>
          split at h
          · cases h
          next hkey =>
            refine ⟨by simpa using hcolumns, by simpa using hpartition, ?_, ?_⟩
            · intro types heq
              rw [heq] at htypes
              simpa using htypes
            · intro k hk
              simpa using List.find?_eq_none.1 hkey k hk

private theorem map_fst_typedColumns {d : TableDefinition} (h : d.validate = .ok ())
    (defaultType : ColumnType) : (d.typedColumns defaultType).map (·.1) = d.columns := by
  obtain ⟨_, _, htypes, _⟩ := validate_eq_ok h
  unfold typedColumns
  split
  next types heq =>
    apply List.map_fst_zip
    exact Nat.le_of_eq (htypes types heq).symm
  next => exact List.map_map.trans (List.map_id _)

/-- The part of a statement that declares a column. -/
def columnPart (c : String × ColumnType) : List Char := c.1.toList ++ ' ' :: c.2.name.toList

/-- The columns of the key, those of the partition key in parentheses of their own. -/
def keyList (partitionKey clusteringKey : List String) : List Char :=
  [',', ' '].intercalate
    (('(' :: ([',', ' '].intercalate (partitionKey.map String.toList) ++ [')'])) ::
      clusteringKey.map String.toList)

/-- The part of a statement that gives the key. -/
def keyPart (partitionKey clusteringKey : List String) : List Char :=
  "PRIMARY KEY".toList ++ '(' :: (keyList partitionKey clusteringKey ++ [')'])

/-- The parts between the parentheses behind the name of the table. -/
def bodyParts (d : TableDefinition) (defaultType : ColumnType) : List (List Char) :=
  (d.typedColumns defaultType).map columnPart ++ [keyPart d.partitionKey d.clusteringKey]

private theorem intercalate_append_singleton {α : Type} (sep : List α) {pieces : List (List α)}
    (h : pieces ≠ []) (last : List α) :
    sep.intercalate (pieces ++ [last]) = sep.intercalate pieces ++ sep ++ last := by
  induction pieces with
  | nil => exact absurd rfl h
  | cons piece pieces ih =>
    cases pieces with
    | nil => simp [List.intercalate_cons_cons]
    | cons next pieces =>
      have hnext := ih (by simp)
      rw [List.cons_append, List.cons_append, List.intercalate_cons_cons, List.intercalate_cons_cons,
        ← List.cons_append, hnext]
      simp [List.append_assoc]

private theorem toList_render {d : TableDefinition} (h : d.validate = .ok ()) (defaultType : ColumnType) :
    (d.render defaultType).toList =
      "CREATE TABLE".toList ++ ((' ' :: ("IF NOT EXISTS".toList ++ (' ' :: (d.table.toList ++
        '(' :: [',', ' '].intercalate (d.bodyParts defaultType))))) ++ [')', ';']) := by
  have hcolumns : (d.typedColumns defaultType).map columnPart ≠ [] := by
    have hne := (validate_eq_ok h).1
    rw [← map_fst_typedColumns h defaultType] at hne
    simpa using hne
  have hpart : (((d.typedColumns defaultType).map fun c => c.1 ++ " " ++ c.2.name).map
      String.toList) = (d.typedColumns defaultType).map columnPart := by
    rw [List.map_map]
    apply List.map_congr_left
    intro c _
    simp [columnPart]
  have hstart : "CREATE TABLE IF NOT EXISTS ".toList =
      "CREATE TABLE".toList ++ ' ' :: ("IF NOT EXISTS".toList ++ [' ']) := by decide
  have hkey : ", PRIMARY KEY(".toList = [',', ' '] ++ ("PRIMARY KEY".toList ++ ['(']) := by
    decide
  have hend : "));".toList = [')', ')', ';'] := by decide
  have hcomma : ", ".toList = [',', ' '] := by decide
  have hopen : "(".toList = ['('] := by decide
  have hclose : ")".toList = [')'] := by decide
  unfold render bodyParts
  rw [intercalate_append_singleton _ hcolumns]
  unfold keyPart keyList
  dsimp only
  repeat rw [String.toList_append]
  repeat rw [String.toList_intercalate]
  rw [hpart, hstart, hkey, hend, hcomma, List.map_cons]
  repeat rw [String.toList_append]
  rw [String.toList_intercalate, hcomma, hopen, hclose]
  generalize "CREATE TABLE".toList = create
  generalize "IF NOT EXISTS".toList = absent
  generalize "PRIMARY KEY".toList = key
  simp only [List.append_assoc, List.cons_append, List.nil_append]

end TableDefinition

namespace SchemaChange

open TableDefinition

theorem readName_toList (s : String) : readName s.toList = lowercase s := by
  rw [readName, String.ofList_toList]

private theorem map_readName_toList (names : List String) :
    (names.map String.toList).map readName = names.map lowercase := by
  rw [List.map_map]
  apply List.map_congr_left
  intro s _
  exact readName_toList s

/-- Names joined by commas, which come apart again. -/
theorem topLevelPieces_names {names : List String} (hne : names ≠ [])
    (h : ∀ s ∈ names, IsName s) :
    topLevelPieces ([',', ' '].intercalate (names.map String.toList)) = names.map String.toList := by
  apply topLevelPieces_intercalate (by simpa using hne)
  · intro p hp
    obtain ⟨s, hs, rfl⟩ := List.mem_map.1 hp
    exact passes_name (h s hs).chars 0
  · intro p hp
    obtain ⟨s, hs, rfl⟩ := List.mem_map.1 hp
    exact ⟨(h s hs).ne_nil, trimmed_of_isNameChar (h s hs).chars⟩

private theorem trimmed_parens (cs : List Char) : Trimmed ('(' :: (cs ++ [')'])) :=
  trimmed_of_ends (by decide) (by decide) cs

/-- A list of names is passed over inside parentheses, its commas too. -/
theorem passes_names {names : List String} (h : ∀ s ∈ names, IsName s) (d : Nat) :
    Passes (d + 1) (d + 1) ([',', ' '].intercalate (names.map String.toList)) := by
  have hcomma : Passes (d + 1) (d + 1) [',', ' '] :=
    passes_of_plain (by decide) (by decide) fun _ => Nat.succ_pos d
  induction names with
  | nil => exact passes_nil _
  | cons s names ih =>
    have hs : Passes (d + 1) (d + 1) s.toList := passes_name (h s (by simp)).chars _
    cases names with
    | nil =>
      rw [List.map_singleton, List.intercalate_singleton]
      exact hs
    | cons next names =>
      have hrest := ih fun t ht => h t (List.mem_cons_of_mem _ ht)
      rw [List.map_cons, List.map_cons, List.intercalate_cons_cons, ← List.map_cons]
      exact (hs.append hcomma).append hrest

private theorem Passes.parens {d : Nat} {cs : List Char} (h : Passes (d + 1) (d + 1) cs) :
    Passes d d ('(' :: (cs ++ [')'])) :=
  (passes_open d).append (h.append (passes_close d))

private theorem passes_keyList {partitionKey clusteringKey : List String}
    (hpartition : ∀ k ∈ partitionKey, IsName k) (hclustering : ∀ k ∈ clusteringKey, IsName k)
    (d : Nat) : Passes (d + 1) (d + 1) (keyList partitionKey clusteringKey) := by
  have hgroup := (passes_names hpartition (d + 1)).parens
  unfold keyList
  cases clusteringKey with
  | nil =>
    rw [List.map_nil, List.intercalate_singleton]
    exact hgroup
  | cons k rest =>
    have hcomma : Passes (d + 1) (d + 1) [',', ' '] :=
      passes_of_plain (by decide) (by decide) fun _ => Nat.succ_pos d
    rw [List.map_cons, List.intercalate_cons_cons, ← List.map_cons]
    exact (hgroup.append hcomma).append (passes_names hclustering d)

private theorem readKey_keyList {partitionKey clusteringKey : List String} (hne : partitionKey ≠ [])
    (hpartition : ∀ k ∈ partitionKey, IsName k) (hclustering : ∀ k ∈ clusteringKey, IsName k) :
    readKey ('(' :: (keyList partitionKey clusteringKey ++ [')'])) =
      .ok (partitionKey.map lowercase, clusteringKey.map lowercase) := by
  have hpieces : topLevelPieces (keyList partitionKey clusteringKey) =
      ('(' :: ([',', ' '].intercalate (partitionKey.map String.toList) ++ [')'])) ::
        clusteringKey.map String.toList := by
    apply topLevelPieces_intercalate (by simp)
    · rw [List.forall_mem_cons]
      refine ⟨(passes_names hpartition 0).parens, fun p hp => ?_⟩
      obtain ⟨k, hk, rfl⟩ := List.mem_map.1 hp
      exact passes_name (hclustering k hk).chars 0
    · rw [List.forall_mem_cons]
      refine ⟨⟨by simp, trimmed_parens _⟩, fun p hp => ?_⟩
      obtain ⟨k, hk, rfl⟩ := List.mem_map.1 hp
      exact ⟨(hclustering k hk).ne_nil, trimmed_of_isNameChar (hclustering k hk).chars⟩
  unfold readKey
  rw [(trimmed_parens _).trim, unwrap?_append]
  dsimp only
  rw [hpieces]
  dsimp only
  rw [List.head?_cons, if_pos rfl, unwrap?_append]
  dsimp only
  rw [topLevelPieces_names hne hpartition, ← map_readName_toList, ← map_readName_toList]
  cases partitionKey with
  | nil => exact absurd rfl hne
  | cons k rest => rfl

theorem foldAscii_append (cs ds : List Char) :
    foldAscii (cs ++ ds) = foldAscii cs ++ foldAscii ds := List.map_append

private theorem eq_of_toLower_eq_space {c : Char} (h : c.toLower = ' ') : c = ' ' := by
  unfold Char.toLower at h
  split at h
  next hupper =>
    have hval : (c.val + ('a'.val - 'A'.val)).toNat = 32 := congrArg (fun d => d.val.toNat) h
    have hlo : 65 ≤ c.val.toNat := UInt32.le_iff_toNat_le.1 hupper.1
    have hhi : c.val.toNat ≤ 90 := UInt32.le_iff_toNat_le.1 hupper.2
    have hshift : ('a'.val - 'A'.val).toNat = 32 := by decide
    rw [UInt32.toNat_add, hshift] at hval
    omega
  next => exact h

/-- A column declaration is never taken for a key, whatever the name of the column: the name of no type
    starts as the second word of the keyword does. -/
theorem stripKeyword?_columnPart {c : String × ColumnType} (h : IsName c.1) :
    stripKeyword? "PRIMARY KEY" (columnPart c) = none := by
  have hkeyword : foldAscii "PRIMARY KEY".toList =
      "primary".toList ++ ' ' :: 'k' :: "ey".toList := by decide
  have hblank {s : String} (hs : IsName s) : ' ' ∉ foldAscii s.toList := by
    intro hmem
    obtain ⟨d, hd, hlower⟩ := List.mem_map.1 hmem
    rw [eq_of_toLower_eq_space hlower] at hd
    exact not_mem_of_isNameChar hs.chars (by decide) hd
  have htype : (foldAscii c.2.name.toList).head? ≠ some 'k' := by
    cases c.2 <;> decide
  unfold stripKeyword?
  dsimp only
  apply if_neg
  intro hfold
  have hwhole : foldAscii c.1.toList ++ ' ' :: foldAscii c.2.name.toList =
      "primary".toList ++ ' ' :: 'k' :: ("ey".toList ++
        foldAscii ((columnPart c).drop "PRIMARY KEY".toList.length)) := by
    have hsplit := List.take_append_drop "PRIMARY KEY".toList.length (columnPart c)
    have hpart : foldAscii (columnPart c) =
        foldAscii c.1.toList ++ ' ' :: foldAscii c.2.name.toList := foldAscii_append _ _
    rw [← hpart]
    conv => lhs; rw [← hsplit]
    rw [foldAscii_append, hfold, hkeyword, List.append_assoc]
    rfl
  obtain ⟨_, _, htail⟩ := (List.append_cons_inj_of_notMem (hblank h)
    (hblank (isName_columnType c.2))).1 hwhole
  apply htype
  rw [htail, List.head?_cons]

/-- Reading the parts gives back the columns and the key. -/
theorem readParts_bodyParts {columns : List (String × ColumnType)}
    {partitionKey clusteringKey : List String} (hcolumns : ∀ c ∈ columns, IsName c.1)
    (hne : partitionKey ≠ []) (hpartition : ∀ k ∈ partitionKey, IsName k)
    (hclustering : ∀ k ∈ clusteringKey, IsName k) :
    readParts (columns.map columnPart ++ [keyPart partitionKey clusteringKey]) =
      .ok (columns.map (fun c => lowercase c.1),
        some (partitionKey.map lowercase, clusteringKey.map lowercase)) := by
  induction columns with
  | nil =>
    have hstrip : stripKeyword? "PRIMARY KEY" (keyPart partitionKey clusteringKey) =
        some ('(' :: (keyList partitionKey clusteringKey ++ [')'])) := by
      unfold keyPart
      rw [stripKeyword?_append, (trimmed_parens _).trimStart]
    rw [List.map_nil, List.nil_append, readParts, hstrip]
    dsimp only
    rw [readKey_keyList hne hpartition hclustering]
    rfl
  | cons c columns ih =>
    have hname := hcolumns c (by simp)
    have hrest := ih fun c' hc' => hcolumns c' (List.mem_cons_of_mem _ hc')
    have hword : spanWord (columnPart c) = (c.1.toList, ' ' :: c.2.name.toList) :=
      spanWord_append (fun d hd => isBlank_of_isNameChar (hname.chars d hd)) (by decide) _
    have hstart : trimStart (columnPart c) = columnPart c :=
      dropWhile_of_head ((trimmed_of_isNameChar hname.chars).head_append hname.ne_nil _)
    rw [List.map_cons, List.cons_append, readParts, stripKeyword?_columnPart hname, hstart, hword]
    dsimp only
    split
    next hempty => exact absurd hempty hname.ne_nil
    next =>
      rw [hrest, readName_toList]
      rfl

private theorem passes_columnPart {c : String × ColumnType} (h : IsName c.1) :
    Passes 0 0 (columnPart c) := by
  have hblank : Passes 0 0 [' '] := passes_of_plain (by decide) (by decide) (by decide)
  exact (passes_name h.chars 0).append (hblank.append (passes_name (isName_columnType c.2).chars 0))

/-- The parts between the parentheses come apart at the commas between them. -/
theorem topLevelPieces_bodyParts {d : TableDefinition} {defaultType : ColumnType}
    (hcolumns : ∀ c ∈ d.typedColumns defaultType, IsName c.1)
    (hpartition : ∀ k ∈ d.partitionKey, IsName k) (hclustering : ∀ k ∈ d.clusteringKey, IsName k) :
    topLevelPieces ([',', ' '].intercalate (d.bodyParts defaultType)) =
      d.bodyParts defaultType := by
  unfold bodyParts
  apply topLevelPieces_intercalate (by simp)
  · intro p hp
    rw [List.mem_append, List.mem_singleton] at hp
    rcases hp with hp | rfl
    · obtain ⟨c, hc, rfl⟩ := List.mem_map.1 hp
      exact passes_columnPart (hcolumns c hc)
    · have hkeyword : Passes 0 0 "PRIMARY KEY".toList :=
        passes_of_plain (by decide) (by decide) (by decide)
      exact hkeyword.append (passes_keyList hpartition hclustering 0).parens
  · intro p hp
    rw [List.mem_append, List.mem_singleton] at hp
    rcases hp with hp | rfl
    · obtain ⟨c, hc, rfl⟩ := List.mem_map.1 hp
      have hname := hcolumns c hc
      have htype := isName_columnType c.2
      exact ⟨by simp [columnPart], trimmed_between hname.ne_nil htype.ne_nil
        (trimmed_of_isNameChar hname.chars) (trimmed_of_isNameChar htype.chars) [' ']⟩
    · have hkeyword : Trimmed "PRIMARY KEY".toList :=
        trimmed_of_any (by decide) (by decide)
      refine ⟨List.append_ne_nil_of_right_ne_nil _ (by simp), ?_⟩
      exact trimmed_between (by decide) (by simp) hkeyword (trimmed_singleton (by decide))
        ('(' :: keyList d.partitionKey d.clusteringKey)

/-- A table is created under the name before the first opening parenthesis, with the columns and the key
    that stand between this one and the last closing one. -/
theorem readCreateTable_eq_ok_iff {name body : List Char} (hopen : '(' ∉ name)
    {change : SchemaChange} :
    readCreateTable ("IF NOT EXISTS".toList ++ ' ' :: (name ++ '(' :: (body ++ [')']))) = .ok change ↔
      trim name ≠ [] ∧ ∃ columns partitionKey clusteringKey,
        readParts (topLevelPieces body) = .ok (columns, some (partitionKey, clusteringKey)) ∧
          change = .createTable ⟨readName (trim name), columns, partitionKey, clusteringKey⟩ true := by
  have hstart : trimStart (' ' :: (name ++ '(' :: (body ++ [')']))) =
      trimStart name ++ '(' :: (body ++ [')']) := by
    rw [trimStart, List.dropWhile_cons_of_pos (by decide)]
    exact trimStart_append_cons (by decide) _ _
  have hopenTrimmed : '(' ∉ trimStart name := fun hmem => hopen ((List.dropWhile_sublist _).subset hmem)
  unfold readCreateTable
  rw [stripKeyword?_append, hstart]
  dsimp only
  rw [splitParenthesized_append hopenTrimmed, trim_trimStart]
  simp only [bind, Except.bind]
  by_cases hname : trim name = []
  · simp [hname]
  · have hnotEmpty : ¬(trim name).isEmpty = true := by simpa using hname
    rw [if_neg hnotEmpty, and_iff_right hname]
    cases readParts (topLevelPieces body) with
    | error fault => simp
    | ok parts =>
      rcases parts with ⟨columns, _ | ⟨partitionKey, clusteringKey⟩⟩
      · simp
      · simp [eq_comm]

/-- The statement that creates a table is read as one, whatever the name of the table. -/
theorem read_render_eq {d : TableDefinition} (hvalid : d.validate = .ok ())
    (defaultType : ColumnType) :
    read (d.render defaultType) = readCreateTable ("IF NOT EXISTS".toList ++ ' ' :: (d.table.toList ++
      '(' :: ([',', ' '].intercalate (d.bodyParts defaultType) ++ [')']))) := by
  have hcreate : Trimmed "CREATE TABLE".toList :=
    trimmed_of_any (by decide) (by decide)
  have habsent : Trimmed "IF NOT EXISTS".toList :=
    trimmed_of_any (by decide) (by decide)
  unfold read
  rw [toList_render hvalid, statementBody_semicolon (by decide) hcreate _ (by decide)
    (by decide)]
  dsimp only
  rw [stripKeyword?_append, List.cons_append, trimStart_space]
  · simp only [List.append_assoc, List.cons_append]
  · rw [List.append_assoc]
    exact habsent.head_append (by decide) _

/-- The parts between the parentheses give the columns and the key of the definition. -/
theorem readParts_body {d : TableDefinition} (hvalid : d.validate = .ok ())
    (hcolumns : ∀ c ∈ d.columns, IsName c) (defaultType : ColumnType) :
    readParts (topLevelPieces ([',', ' '].intercalate (d.bodyParts defaultType))) =
      .ok (d.columns.map lowercase,
        some (d.partitionKey.map lowercase, d.clusteringKey.map lowercase)) := by
  obtain ⟨_, hpartition, _, hkeys⟩ := validate_eq_ok hvalid
  have htyped := map_fst_typedColumns hvalid defaultType
  have htypedNames : ∀ c ∈ d.typedColumns defaultType, IsName c.1 := by
    intro c hc
    apply hcolumns
    rw [← htyped]
    exact List.mem_map_of_mem hc
  have hpartitionNames : ∀ k ∈ d.partitionKey, IsName k := fun k hk =>
    hcolumns k (hkeys k (List.mem_append_left _ hk))
  have hclusteringNames : ∀ k ∈ d.clusteringKey, IsName k := fun k hk =>
    hcolumns k (hkeys k (List.mem_append_right _ hk))
  rw [topLevelPieces_bodyParts htypedNames hpartitionNames hclusteringNames, bodyParts,
    readParts_bodyParts htypedNames hpartition hpartitionNames hclusteringNames, ← htyped,
    List.map_map]
  rfl

/-- The statement that creates a table is read as the creation of that table. -/
theorem read_render {d : TableDefinition} (hvalid : d.validate = .ok ()) (htable : IsName d.table)
    (hcolumns : ∀ c ∈ d.columns, IsName c) (defaultType : ColumnType) :
    read (d.render defaultType) =
      .ok (.createTable
        ⟨lowercase d.table, d.columns.map lowercase, d.partitionKey.map lowercase,
          d.clusteringKey.map lowercase⟩ true) := by
  have htrim := (trimmed_of_isNameChar htable.chars).trim
  have hopen : '(' ∉ d.table.toList := not_mem_of_isNameChar htable.chars (by decide)
  rw [read_render_eq hvalid, readCreateTable_eq_ok_iff hopen, htrim, readName_toList]
  exact ⟨htable.ne_nil, _, _, _, readParts_body hvalid hcolumns defaultType, rfl⟩

end SchemaChange

end GraphTables
