import GraphTables.Proofs.Layout.Row
import Mathlib.Data.List.Forall2

namespace GraphTables

/-- The column has the text that the keys give it, if any, after a property is set over the keys. A property
    whose two columns are one leaves its value there. -/
def Property.Leaves (p : Property) (keys : SortedMap Column String) (c : Column) : Prop :=
  (c = p.valueColumn → keys.get? c = some p.value) ∧
    (c = p.nameColumn → c ≠ p.valueColumn → keys.get? c = some p.name)

instance (p : Property) (keys : SortedMap Column String) (c : Column) : Decidable (p.Leaves keys c) :=
  inferInstanceAs (Decidable (_ ∧ _))

private theorem Property.leaves_of_ne {p : Property} {keys : SortedMap Column String} {c : Column}
    (hname : c ≠ p.nameColumn) (hvalue : c ≠ p.valueColumn) : p.Leaves keys c :=
  ⟨fun h => absurd h hvalue, fun h => absurd h hname⟩

namespace Layout

variable {l : Layout} {table : String} {r : Request} {inserts : List Insert}

/-- A property sets its columns over the keys, the column of its value last. -/
theorem get?_cellInsert (p : Property) (c : Column) :
    (cellInsert table r p).get? c.text =
      if c = p.valueColumn then some (.text p.value)
      else if c = p.nameColumn then some (.text p.name)
      else (r.keys.get? c).map .text := by
  rw [(sets_cellInsert table r p).text, SortedMap.get?_insert, SortedMap.get?_insert]
  split
  · rfl
  · split <;> rfl

private theorem some_text_eq_map_iff {text : String} {text? : Option String} :
    some (Literal.text text) = text?.map .text ↔ text? = some text := by
  cases text? <;> simp [eq_comm]

/-- The insert of a property sets a column to the text of the keys exactly if the property leaves it. -/
theorem get?_cellInsert_eq_keys_iff (p : Property) (c : Column) :
    (cellInsert table r p).get? c.text = (r.keys.get? c).map .text ↔ p.Leaves r.keys c := by
  rw [get?_cellInsert]
  split
  next hvalue =>
    rw [some_text_eq_map_iff]
    exact ⟨fun h => ⟨fun _ => h, fun _ hne => absurd hvalue hne⟩, fun h => h.1 hvalue⟩
  next hvalue =>
    split
    next hname =>
      rw [some_text_eq_map_iff]
      exact ⟨fun h => ⟨fun heq => absurd heq hvalue, fun _ _ => h⟩, fun h => h.2 hname hvalue⟩
    next hname => exact iff_of_true rfl (Property.leaves_of_ne hname hvalue)

private theorem table_of_mem_inserts (h : l.inserts table r = .ok inserts) : ∀ i ∈ inserts, i.table = table := by
  obtain ⟨_, rfl⟩ := inserts_eq_ok h
  intro i hi
  split at hi
  next =>
    obtain rfl := List.mem_singleton.1 hi
    exact Insert.table_setAll _ _
  next =>
    obtain ⟨p, _, rfl⟩ := List.mem_map.1 hi
    exact Insert.table_setAll _ _

/-- A column has the text of the keys in all inserts exactly if each property leaves it. -/
theorem forall_get?_inserts_iff (h : l.inserts table r = .ok inserts) (c : Column) :
    (∀ i ∈ inserts, i.get? c.text = (r.keys.get? c).map .text) ↔ ∀ p ∈ r.cells, p.Leaves r.keys c := by
  obtain ⟨_, rfl⟩ := inserts_eq_ok h
  cases r.cells with
  | nil => simp [(sets_keyInsert table r).text]
  | cons p rest =>
    simp only [List.isEmpty_cons, Bool.false_eq_true, ↓reduceIte, List.forall_mem_map,
      get?_cellInsert_eq_keys_iff]

end Layout

/-- What the inserts of a request set, if it names columns of the table alone.

    * Without properties there is one insert, of the keys. With properties there is one for each, in their
      order, which sets the columns of the keys and of the property, and no others. A column that is set twice
      has the last text: the value over the name of the property, and both over a key.
    * A column is set as the keys have it, in all inserts, exactly if each property leaves it. So a property
      with another text in the column of a key replaces the key, and keys that share no column with a
      property are set as they are given. -/
theorem Kind.inserts_assign (k : Kind) {table : String} {r : Request} {inserts : List Insert}
    (h : k.layout.inserts table r = .ok inserts) :
    (∀ i ∈ inserts, i.table = table) ∧
      (r.cells = [] → ∃ i, inserts = [i] ∧ i.Sets r.keys) ∧
      (r.cells ≠ [] → List.Forall₂ (fun p i =>
        i.Sets ((r.keys.insert p.nameColumn p.name).insert p.valueColumn p.value)) r.cells inserts) ∧
      (∀ c, (∀ i ∈ inserts, i.get? c.text = (r.keys.get? c).map .text) ↔
        ∀ p ∈ r.cells, p.Leaves r.keys c) ∧
      ((∀ p ∈ r.cells, p.nameColumn ∉ r.keys.keys ∧ p.valueColumn ∉ r.keys.keys) →
        ∀ i ∈ inserts, ∀ c text, r.keys.get? c = some text → i.get? c.text = some (.text text)) := by
  refine ⟨Layout.table_of_mem_inserts h, fun hcells => ?_, fun hcells => ?_,
    Layout.forall_get?_inserts_iff h, fun hapart i hi c text hkey => ?_⟩
  · obtain ⟨_, rfl⟩ := Layout.inserts_eq_ok h
    exact ⟨_, if_pos (List.isEmpty_iff.2 hcells), Layout.sets_keyInsert table r⟩
  · obtain ⟨_, rfl⟩ := Layout.inserts_eq_ok h
    rw [if_neg (mt List.isEmpty_iff.1 hcells), List.forall₂_map_right_iff, List.forall₂_same]
    exact fun p _ => Layout.sets_cellInsert table r p
  · have hmem : c ∈ r.keys.keys := SortedMap.isSome_get?_iff_mem_keys.1 (by rw [hkey, Option.isSome_some])
    have hleaves : ∀ p ∈ r.cells, p.Leaves r.keys c := fun p hp =>
      Property.leaves_of_ne (fun heq => (hapart p hp).1 (heq ▸ hmem))
        (fun heq => (hapart p hp).2 (heq ▸ hmem))
    rw [(Layout.forall_get?_inserts_iff h c).2 hleaves i hi, hkey, Option.map_some]

/-- A person with the key of a property given, and a property that is kept in the column of the label. -/
def Request.relabelled : Request :=
  ⟨.composite ["person", "marko"],
    .ofList [(.label, "person"), (.primaryValues, "marko"), (.propertyKey, "age")],
    [⟨.label, "software", .propertyValue, "29"⟩]⟩

/-- The property takes the place of the label: its insert is of a row of another label, and there is no
    insert with the label that the keys give. -/
theorem Kind.inserts_relabelled :
    ∃ i, Kind.vertex.layout.inserts "vertices" .relabelled = .ok [i] ∧
      Request.relabelled.keys.get? .label = some "person" ∧
      i.get? Column.label.text = some (.text "software") ∧
      i.get? Column.primaryValues.text = some (.text "marko") := by
  refine ⟨_, rfl, ?_, ?_, ?_⟩ <;> decide

/-- Two properties of a person, the second in the column of the label. The label is not as given in all
    inserts, the other key is. -/
theorem Kind.inserts_assign_relabelled :
    let r : Request := ⟨.composite ["person", "marko"],
      .ofList [(.label, "person"), (.primaryValues, "marko")],
      [⟨.propertyKey, "age", .propertyValue, "29"⟩, ⟨.label, "software", .propertyValue, "lop"⟩]⟩
    ∃ inserts, Kind.vertex.layout.inserts "vertices" r = .ok inserts ∧ inserts.length = 2 ∧
      (¬∀ i ∈ inserts, i.get? Column.label.text = some (.text "person")) ∧
      ∀ i ∈ inserts, i.get? Column.primaryValues.text = some (.text "marko") := by
  intro r
  have hinserts : Kind.vertex.layout.inserts "vertices" r =
      .ok (r.cells.map (Layout.cellInsert "vertices" r)) := rfl
  obtain ⟨_, _, heach, hcolumn, _⟩ := Kind.vertex.inserts_assign hinserts
  refine ⟨_, hinserts, ?_, ?_, ?_⟩
  · exact (heach (by decide)).length_eq.symm
  · exact mt (hcolumn .label).1 (by decide)
  · exact (hcolumn .primaryValues).2 (by decide)

end GraphTables
