import Mathlib.Data.List.Sort
import ThemeBuilder.Proofs.FileTree.Saving

/-! The names that a directory lists: each once, and the same ones after files were made or
written, but for the names of files that were made in it. -/
namespace ThemeBuilder

theorem Name.bytes_injective : Function.Injective Name.bytes := by
  rintro ⟨m, hm⟩ ⟨n, hn⟩ rfl
  rfl

namespace FileTree

@[simp]
private theorem names_modify (t : FileTree) (loc : Location) (f : Node → Node) (dir : Location)
    (made : Bool) : children.names (t.modify loc f) dir made = children.names t dir made := by
  simp only [children.names, modify, List.filterMap_map]
  congr 1
  funext e
  by_cases he : e.location = loc <;> simp [he]

@[simp]
theorem children_write (t : FileTree) (loc : Location) (bytes : Bytes) (dir : Location) :
    (t.write loc bytes).children dir = t.children dir := by
  simp only [children, write, names_modify]

private theorem names_add {t : FileTree} {name : Name} {parent : Location} {node : Node}
    {made : Bool} (h : t.node? (name :: parent) = none) (dir : Location) (b : Bool) :
    children.names (t.add ⟨name :: parent, node, made⟩) dir b =
      children.names t dir b ++ if parent = dir ∧ made = b then [name] else [] := by
  have hfree : name :: parent ∉ t.entries.map (·.location) := fun hm =>
    (mem_locations_of_node? (List.cons_ne_nil _ _)).mp hm h
  have hadd : (t.add ⟨name :: parent, node, made⟩).entries =
      t.entries ++ [⟨name :: parent, node, made⟩] := by
    rw [add, dif_neg hfree]
  rw [children.names, hadd, List.filterMap_append, children.names]
  congr 1
  by_cases hd : parent = dir ∧ made = b
  · simp [hd]
  · simp [hd]

/-- Names in the order of their bytes. -/
private def before (a b : Name) : Bool := decide (a.bytes ≤ b.bytes)

private theorem before_trans (a b c : Name) (hab : before a b = true) (hbc : before b c = true) :
    before a c = true := by
  simp only [before, decide_eq_true_eq] at *
  exact List.le_trans hab hbc

private theorem before_total (a b : Name) : (before a b || before b a) = true := by
  simp only [before, Bool.or_eq_true, decide_eq_true_eq]
  exact List.le_total a.bytes b.bytes

private theorem before_antisymm {a b : Name} (hab : before a b = true) (hba : before b a = true) :
    a = b := by
  simp only [before, decide_eq_true_eq] at *
  exact Name.bytes_injective (List.le_antisymm hab hba)

/-- Names that a filter drops do not matter for the order of the others. -/
private theorem filter_mergeSort_append {p : Name → Bool} {xs : List Name}
    (hx : ∀ x ∈ xs, p x = false) (l : List Name) :
    ((l ++ xs).mergeSort before).filter p = (l.mergeSort before).filter p := by
  have hsorted (l : List Name) : ((l.mergeSort before).filter p).Pairwise (before · · = true) :=
    (List.pairwise_mergeSort before_trans before_total l).filter p
  have hperm : (((l ++ xs).mergeSort before).filter p).Perm ((l.mergeSort before).filter p) := by
    refine ((List.mergeSort_perm ..).filter p).trans ?_
    have hnone : xs.filter p = [] := List.filter_eq_nil_iff.mpr (by simpa using hx)
    rw [List.filter_append, hnone, List.append_nil]
    exact ((List.mergeSort_perm l before).filter p).symm
  exact hperm.eq_of_pairwise (fun _ _ _ _ => before_antisymm) (hsorted _) (hsorted _)

/-- A file that is saved adds its own name at most to what a directory lists. -/
theorem filter_children_save {t : FileTree} {loc : Location} (h : t.Writable loc) (bytes : Bytes)
    {dir : Location} {keep : Name → Bool}
    (hkeep : ∀ name, name :: dir = loc → t.node? loc = none → keep name = false) :
    ((t.save loc bytes).children dir).filter keep = (t.children dir).filter keep := by
  unfold save
  cases hn : t.node? loc with
  | some node => rw [children_write]
  | none =>
    obtain ⟨name, parent, rfl⟩ := List.exists_cons_of_ne_nil h.ne_nil
    simp only [children, names_add hn, List.filter_append]
    rw [if_neg (by simp), List.filter_nil, List.append_nil]
    congr 1
    refine filter_mergeSort_append ?_ _
    intro x hx
    split at hx
    · rename_i hd
      rw [List.mem_singleton] at hx
      subst hx
      exact hkeep x (by rw [hd.1]) hn
    · cases hx

/-- The name of an entry in a directory, from the place of the entry. -/
private theorem mem_names {t : FileTree} {dir : Location} {made : Bool} {name : Name} :
    name ∈ children.names t dir made ↔
      ∃ e ∈ t.entries, e.location = name :: dir ∧ e.made = made := by
  simp only [children.names, List.mem_filterMap]
  constructor
  · rintro ⟨e, he, hname⟩
    split at hname
    · split at hname
      · rename_i hloc hd
        cases hname
        exact ⟨e, he, hd.1 ▸ hloc, hd.2⟩
      · cases hname
    · cases hname
  · rintro ⟨e, he, hloc, hmade⟩
    exact ⟨e, he, by simp [hloc, hmade]⟩

private theorem nodup_names (t : FileTree) (dir : Location) (made : Bool) :
    (children.names t dir made).Nodup := by
  have hplaces : ((children.names t dir made).map (· :: dir)).Sublist
      (t.entries.map (·.location)) := by
    rw [children.names]
    generalize t.entries = es
    induction es with
    | nil => exact .slnil
    | cons e es ih =>
      rw [List.filterMap_cons, List.map_cons]
      split
      · exact ih.cons _
      · rename_i name hname
        split at hname
        · split at hname
          · rename_i hloc hd
            cases hname
            rw [List.map_cons, hloc, hd.1]
            exact ih.cons_cons _
          · cases hname
        · cases hname
  exact List.Nodup.of_map _ (t.distinct.sublist hplaces)

/-- A directory lists no name twice. -/
theorem nodup_children (t : FileTree) (dir : Location) : (t.children dir).Nodup := by
  refine List.nodup_append.mpr ⟨nodup_names .., ?_, ?_⟩
  · exact (List.mergeSort_perm ..).nodup_iff.mpr (nodup_names ..)
  · rintro a ha b hb rfl
    rw [List.mem_mergeSort] at hb
    obtain ⟨e, he, hloc, hmade⟩ := mem_names.mp ha
    obtain ⟨e', he', hloc', hmade'⟩ := mem_names.mp hb
    have : e = e' := List.inj_on_of_nodup_map t.distinct he he' (hloc.trans hloc'.symm)
    rw [this, hmade'] at hmade
    cases hmade

/-- A directory lists the names of what is in it. -/
theorem mem_children {t : FileTree} {dir : Location} {name : Name} :
    name ∈ t.children dir ↔ t.node? (name :: dir) ≠ none := by
  rw [← mem_locations_of_node? (List.cons_ne_nil _ _), children, List.mem_append,
    List.mem_mergeSort, mem_names, mem_names, List.mem_map]
  constructor
  · rintro (⟨e, he, hloc, -⟩ | ⟨e, he, hloc, -⟩) <;> exact ⟨e, he, hloc⟩
  · rintro ⟨e, he, hloc⟩
    cases hmade : e.made
    · exact .inl ⟨e, he, hloc, hmade⟩
    · exact .inr ⟨e, he, hloc, hmade⟩

/-- `u` is `t` after files were made or written, all of them at places in `written`. Directories
list what they listed, in the same order, and besides it the names of new files. -/
structure Later (t u : FileTree) (written : Location → Prop) : Prop extends Grown t u written where
  filter_children : ∀ (dir : Location) (keep : Name → Bool),
    (∀ name, written (name :: dir) → t.node? (name :: dir) = none → keep name = false) →
      (u.children dir).filter keep = (t.children dir).filter keep

section
variable {t u v : FileTree} {W V : Location → Prop}

theorem Later.refl (t : FileTree) (W : Location → Prop) : Later t t W :=
  ⟨Grown.refl t W, fun _ _ _ => rfl⟩

theorem Later.mono (h : Later t u W) (hW : ∀ l, W l → V l) : Later t u V :=
  ⟨h.toGrown.mono hW, fun dir keep hkeep =>
    h.filter_children dir keep fun name hw => hkeep name (hW _ hw)⟩

theorem Later.trans (h : Later t u W) (h' : Later u v W) : Later t v W := by
  refine ⟨h.toGrown.trans h'.toGrown, fun dir keep hkeep => ?_⟩
  rw [h'.filter_children dir keep, h.filter_children dir keep hkeep]
  intro name hw hn
  refine hkeep name hw ?_
  rw [← hn]
  exact (h.node?_of_ne fun f => by simp [hn]).symm

theorem later_save {loc : Location} (h : t.Writable loc) (bytes : Bytes) :
    Later t (t.save loc bytes) (· = loc) :=
  ⟨(saved_save h bytes).toGrown, fun _ _ hkeep =>
    filter_children_save h bytes fun name hl hn => hkeep name hl (hl ▸ hn)⟩

end

/-- The same tree at another time. -/
def atTime (t : FileTree) (now : Int) : FileTree := { t with clock := now }

theorem grown_of_atTime (t : FileTree) (now : Int) (W : Location → Prop) :
    Grown (t.atTime now) t W := ⟨fun _ => .inl rfl⟩

theorem later_atTime (t : FileTree) (now : Int) (W : Location → Prop) : Later t (t.atTime now) W :=
  ⟨⟨fun _ => .inl rfl⟩, fun _ _ _ => rfl⟩

@[simp]
theorem list_atTime (t : FileTree) (now : Int) (p : Path) : (t.atTime now).list p = t.list p := by
  have hspot := (later_atTime t now fun _ => False).spot_eq (fun _ hl => hl.elim) .use p
  unfold list locate
  rw [hspot]
  rfl

end FileTree
end ThemeBuilder
