import Mathlib.Data.List.Nodup
import GraphTables.Json.Form
import GraphTables.Proofs.Json.Tree
import GraphTables.Proofs.SortedMap

namespace GraphTables.Json

/-- Read one after the other, the members of a list are what each is read as. -/
theorem mapM_map_eq_some {α β : Type} {g : α → β} {r : β → Option α} {l : List α}
    (h : ∀ a ∈ l, r (g a) = some a) : (l.map g).mapM r = some l := by
  induction l with
  | nil => rfl
  | cons a rest ih =>
    rw [List.map_cons, List.mapM_cons, h a List.mem_cons_self,
      ih fun b hb => h b (List.mem_cons_of_mem _ hb)]
    rfl

namespace Tree

theorem Plain.record {members : List (String × Tree)} (h : ∀ m ∈ members, m.2.Plain) :
    (record members).Plain := by
  refine .object ?_ ?_
  · simpa only [List.forall_mem_map] using fun m _ => ⟨m.1, rfl⟩
  · simpa only [List.forall_mem_map] using h

theorem depth_record_le_iff {members : List (String × Tree)} {n : Nat} :
    (record members).depth ≤ n + 1 ↔ ∀ m ∈ members, m.2.depth ≤ n := by
  rw [record, depth_object_le_iff, List.forall_mem_map]

/-- A record is read field by field. -/
theorem fields?_record (members : List (String × Tree)) (hnodup : (members.map (·.1)).Nodup)
    (openEnded : Bool) (bound : Nat) :
    fields? (members.map (·.1)) openEnded (bound + 1) (record members) =
      some (members.map (some ∘ (·.2)), bound) := by
  have hmembers := mapM_map_eq_some (g := fun m : String × Tree => (some m.1, m.2))
    (r := fun m => m.1.map (·, m.2)) (l := members) fun _ _ => rfl
  have hknown : (members.filter fun m => (members.map (·.1)).contains m.1) = members := by
    rw [List.filter_eq_self]
    intro m hm
    simpa only [List.contains_iff_mem] using List.mem_map_of_mem hm
  simp only [record, fields?, hmembers, bind, Option.bind, hknown, if_pos hnodup,
    SortedMap.map_lookup_keys hnodup]

end Tree

namespace Form

variable {α β κ ν : Type}

/-- The value is read from its tree, and the tree is read from its text. A form that is built from the forms
    of parts gives back what was written if these do. -/
structure ReadsBack (f : Form α) (a : α) : Prop where
  plain : (f.toTree a).Plain
  ofTree? : ∀ bound, (f.toTree a).depth ≤ bound → f.ofTree? bound (f.toTree a) = some a

/-- Reading undoes writing, unless the text nests too deep. -/
theorem ReadsBack.read?_write {f : Form α} {a : α} (h : f.ReadsBack a)
    (hdepth : (f.toTree a).depth ≤ nestingBound) : f.read? (f.write a) = some a := by
  rw [read?, write, h.plain.read?_render, Option.bind_some, h.ofTree? _ hdepth]

theorem readsBack_text (s : String) : text.ReadsBack s := ⟨.text s, fun _ _ => rfl⟩

theorem readsBack_bool (b : Bool) : bool.ReadsBack b := ⟨.bool b, fun _ _ => rfl⟩

theorem readsBack_int64 (i : Int64) : int64.ReadsBack i :=
  ⟨.int _, fun _ _ => Number.int64?_ofInt i⟩

theorem readsBack_uint64 (n : UInt64) : uint64.ReadsBack n where
  plain := .int n.toNat
  ofTree? bound _ := by
    simp only [uint64]
    exact Number.uint64?_ofInt n

/-- What is there is told apart from what is not, unless it is written as null itself. -/
theorem readsBack_option {f : Form α} {a : Option α}
    (h : ∀ b ∈ a, f.ReadsBack b ∧ f.toTree b ≠ .null) : (option f).ReadsBack a := by
  cases a with
  | none => exact ⟨.null, fun _ _ => rfl⟩
  | some b =>
    obtain ⟨hb, hnull⟩ := h b rfl
    refine ⟨hb.plain, fun bound hdepth => ?_⟩
    have hread := hb.ofTree? bound hdepth
    simp only [option, Option.map_some, Option.getD_some, hread]

theorem readsBack_list {f : Form α} {l : List α} (h : ∀ a ∈ l, f.ReadsBack a) :
    (list f).ReadsBack l := by
  refine ⟨.array ?_, fun n hdepth => ?_⟩
  · simpa only [List.forall_mem_map] using fun a ha => (h a ha).plain
  · obtain ⟨bound, rfl, hitems⟩ := Tree.exists_of_depth_array_le hdepth
    rw [List.forall_mem_map] at hitems
    exact mapM_map_eq_some fun a ha => (h a ha).ofTree? bound (hitems a ha)

theorem readsBack_pair {f : Form α} {g : Form β} {p : α × β} (hf : f.ReadsBack p.1)
    (hg : g.ReadsBack p.2) : (pair f g).ReadsBack p := by
  refine ⟨.array ?_, fun n hdepth => ?_⟩
  · simpa using ⟨hf.plain, hg.plain⟩
  · obtain ⟨bound, rfl, hitems⟩ := Tree.exists_of_depth_array_le hdepth
    simp only [List.forall_mem_cons] at hitems
    simp only [pair, hf.ofTree? bound hitems.1, hg.ofTree? bound hitems.2.1, bind, Option.bind]

/-- Names that are different find what they name. -/
theorem find?_name {all : List α} {name : α → String} (hnodup : (all.map name).Nodup) {a : α}
    (ha : a ∈ all) : all.find? (name · == name a) = some a := by
  obtain ⟨b, hb⟩ : ∃ b, all.find? (name · == name a) = some b :=
    Option.isSome_iff_exists.1 (List.find?_isSome.2 ⟨a, ha, beq_self_eq_true (name a)⟩)
  have hname : name b = name a := by simpa using List.find?_some hb
  rw [hb, List.inj_on_of_nodup_map hnodup (List.mem_of_find?_eq_some hb) ha hname]

theorem readsBack_named {all : List α} {name : α → String} (hnodup : (all.map name).Nodup) {a : α}
    (ha : a ∈ all) : (named all name).ReadsBack a :=
  ⟨.text _, fun _ _ => find?_name hnodup ha⟩

theorem readsBack_map [Ord κ] [Std.TransOrd κ] [Std.LawfulEqOrd κ] [DecidableEq κ] {all : List κ}
    {name : κ → String} (hnodup : (all.map name).Nodup) (hall : ∀ k, k ∈ all) {f : Form ν}
    {m : SortedMap κ ν} (h : ∀ e ∈ m.entries, f.ReadsBack e.2) : (map all name f).ReadsBack m := by
  refine ⟨.object ?_ ?_, fun n hdepth => ?_⟩
  · simpa only [List.forall_mem_map] using fun e _ => ⟨_, rfl⟩
  · simpa only [List.forall_mem_map] using fun e he => (h e he).plain
  · obtain ⟨bound, rfl, hmembers⟩ := Tree.exists_of_depth_object_le hdepth
    rw [List.forall_mem_map] at hmembers
    have hentries := mapM_map_eq_some (g := fun e : κ × ν => (some (name e.1), f.toTree e.2))
      (r := fun m => do
        let k ← m.1.bind fun s => all.find? (name · == s)
        let v ← f.ofTree? bound m.2
        some (k, v)) (l := m.entries) fun e he => by
          simp [find?_name hnodup (hall e.1), (h e he).ofTree? bound (hmembers e he)]
    simp only [map, hentries, Option.map_some, SortedMap.ofList_entries]

theorem ReadsBack.required {f : Form α} {a : α} (h : f.ReadsBack a) {bound : Nat}
    (hdepth : (f.toTree a).depth ≤ bound) : f.required bound (some (f.toTree a)) = some a :=
  h.ofTree? bound hdepth

theorem ReadsBack.orElse {f : Form α} {a : α} (h : f.ReadsBack a) {bound : Nat} (default : α)
    (hdepth : (f.toTree a).depth ≤ bound) : f.orElse bound default (some (f.toTree a)) = some a :=
  h.ofTree? bound hdepth

/-- What is written as a record is read from its fields, with one level less for them. -/
theorem readsBack_of_record {f : Form α} {a : α} {members : List (String × Tree)}
    (htree : f.toTree a = .record members) (hplain : ∀ m ∈ members, m.2.Plain)
    (hnodup : (members.map (·.1)).Nodup)
    (hread : ∀ bound, (∀ m ∈ members, m.2.depth ≤ bound) →
      Tree.fields? (members.map (·.1)) false (bound + 1) (.record members) =
        some (members.map (some ∘ (·.2)), bound) →
      f.ofTree? (bound + 1) (.record members) = some a) : f.ReadsBack a := by
  refine ⟨htree ▸ .record hplain, fun n hdepth => ?_⟩
  rw [htree] at hdepth ⊢
  obtain ⟨bound, rfl, hmembers⟩ := Tree.exists_of_depth_object_le hdepth
  rw [List.forall_mem_map] at hmembers
  exact hread bound hmembers (Tree.fields?_record members hnodup false bound)

/-- What is written under the name of its variant is read with one level less. -/
theorem readsBack_of_tagged {f : Form α} {g : Form β} (make : β → α) {name : String} {b : β}
    (hb : g.ReadsBack b) (htree : f.toTree (make b) = .tagged name (g.toTree b))
    (hread : ∀ bound, f.ofTree? (bound + 1) (.tagged name (g.toTree b)) =
      (g.ofTree? bound (g.toTree b)).map make) : f.ReadsBack (make b) := by
  refine readsBack_of_record htree ?_ (List.nodup_singleton name) fun bound hbound _ => ?_
  · simpa using hb.plain
  · rw [List.forall_mem_singleton] at hbound
    exact (hread bound).trans (by rw [hb.ofTree? bound hbound, Option.map_some])

end Form

end GraphTables.Json
