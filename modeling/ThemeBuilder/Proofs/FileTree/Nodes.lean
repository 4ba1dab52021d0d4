import ThemeBuilder.FileTree.Access

/-! What is at a place after a file has been made, emptied or written, and which files a path
leads to. -/
namespace ThemeBuilder.FileTree

theorem eq_of_entries {t u : FileTree} (he : t.entries = u.entries) (hc : t.clock = u.clock) :
    t = u := by
  cases t
  cases u
  cases he
  cases hc
  rfl

theorem file?_eq_some {t : FileTree} {loc : Location} {f : File} :
    t.file? loc = some f ↔ t.node? loc = some (.file f) := by
  unfold file?
  split <;> simp_all

private theorem entry?_modify (t : FileTree) (loc : Location) (f : Node → Node) (l : Location) :
    entry? (t.modify loc f) l =
      (t.entry? l).map fun e => if e.location = loc then { e with node := f e.node } else e := by
  simp only [modify, entry?, List.find?_map]
  congr 2
  funext e
  simp only [Function.comp]
  split <;> rfl

private theorem location_of_find? {t : FileTree} {l : Location} {e : Entry}
    (h : t.entry? l = some e) : e.location = l := by
  simpa using List.find?_some h

theorem node?_modify_ne {l loc : Location} (h : l ≠ loc) (t : FileTree) (f : Node → Node) :
    (t.modify loc f).node? l = t.node? l := by
  simp only [node?, entry?_modify]
  split
  · rfl
  · cases he : t.entry? l with
    | none => rfl
    | some e => simp [location_of_find? he, h]

theorem node?_modify_self {loc : Location} (h : loc ≠ []) (t : FileTree) (f : Node → Node) :
    (t.modify loc f).node? loc = (t.node? loc).map f := by
  simp only [node?, entry?_modify, if_neg h]
  cases he : t.entry? loc with
  | none => rfl
  | some e => simp [location_of_find? he]

theorem mem_locations_of_node? {t : FileTree} {loc : Location} (hne : loc ≠ []) :
    loc ∈ t.entries.map (·.location) ↔ t.node? loc ≠ none := by
  simp [node?, entry?, hne]

theorem node?_add {t : FileTree} {e : Entry} (hne : e.location ≠ []) (h : t.node? e.location = none)
    (l : Location) : (t.add e).node? l = if l = e.location then some e.node else t.node? l := by
  have hfree : e.location ∉ t.entries.map (·.location) := fun hm =>
    (mem_locations_of_node? hne).mp hm h
  have hadd : (t.add e).entries = t.entries ++ [e] := by
    rw [add, dif_neg hfree]
  by_cases hl : l = e.location
  · have hnone : t.entry? e.location = none := by
      simpa [node?, hne] using h
    rw [if_pos hl, hl, node?, if_neg hne, entry?, hadd, List.find?_append, ← entry?, hnone]
    simp
  · have hl' : e.location ≠ l := Ne.symm hl
    simp [node?, entry?, hadd, List.find?_append, hl, hl']

section
variable {t : FileTree} {loc : Location}

private theorem ne_nil_of_file? {f : File} (h : t.file? loc = some f) : loc ≠ [] := by
  rintro rfl
  rw [file?_eq_some] at h
  cases h

@[simp]
theorem node?_write_ne {l : Location} (h : l ≠ loc) (t : FileTree) (bytes : Bytes) :
    (t.write loc bytes).node? l = t.node? l :=
  node?_modify_ne h t _

@[simp]
theorem file?_write {f : File} (h : t.file? loc = some f) (bytes : Bytes) :
    (t.write loc bytes).file? loc = some { f with bytes := bytes, modified := t.clock } := by
  rw [file?_eq_some] at h ⊢
  rw [write, node?_modify_self (ne_nil_of_file? (file?_eq_some.mpr h)), h]
  rfl

@[simp]
theorem write_write (a b : Bytes) :
    (t.write loc a).write loc b = t.write loc b := by
  refine eq_of_entries ?_ rfl
  simp only [write, modify, List.map_map]
  apply List.map_congr_left
  intro e _
  by_cases he : e.location = loc
  · cases hn : e.node <;> simp [he, hn]
  · simp [he]

theorem append_of_file? {f : File} (h : t.file? loc = some f) (bytes : Bytes) :
    t.append loc bytes = t.write loc (f.bytes ++ bytes) := by
  rw [append, h]

@[simp]
theorem file?_append {f : File} (h : t.file? loc = some f) (bytes : Bytes) :
    (t.append loc bytes).file? loc =
      some { f with bytes := f.bytes ++ bytes, modified := t.clock } := by
  rw [append_of_file? h, file?_write h]

/-- Bytes that are added one after the other may as well be added together. -/
@[simp]
theorem append_append (t : FileTree) (loc : Location) (a b : Bytes) :
    (t.append loc a).append loc b = t.append loc (a ++ b) := by
  cases h : t.file? loc with
  | none => simp [append, h]
  | some f =>
    rw [append_of_file? (file?_append h a), append_of_file? h, write_write, append_of_file? h,
      List.append_assoc]

end

theorem read_eq_ok {t : FileTree} {p : Path} {f : File} :
    t.read p = .ok f ↔ ∃ loc, t.locate p = .ok loc ∧ t.file? loc = some f := by
  unfold read
  cases h : t.locate p with
  | error e => simp [bind, Except.bind]
  | ok loc =>
    simp only [bind, Except.bind, Except.ok.injEq, exists_eq_left']
    rw [file?_eq_some]
    split <;> simp_all

theorem isFile_iff_read {t : FileTree} {p : Path} : t.isFile p = true ↔ ∃ f, t.read p = .ok f := by
  simp only [read_eq_ok, isFile, nodeAt?, file?_eq_some]
  cases h : t.locate p with
  | error e => simp
  | ok loc =>
    simp only [Except.ok.injEq]
    split <;> simp_all

theorem isDirectory_iff {t : FileTree} {p : Path} :
    t.isDirectory p = true ↔ ∃ loc, t.locate p = .ok loc ∧ t.node? loc = some .directory := by
  simp only [isDirectory, nodeAt?]
  cases h : t.locate p <;> simp

theorem list_of_isDirectory {t : FileTree} {p : Path} {loc : Location} (h : t.locate p = .ok loc)
    (hd : t.node? loc = some .directory) : t.list p = .ok (t.children loc) := by
  simp [list, h, hd, bind, Except.bind]

theorem list_eq_ok {t : FileTree} {p : Path} {names : List Name} : t.list p = .ok names ↔
    ∃ loc, t.locate p = .ok loc ∧ t.node? loc = some .directory ∧ t.children loc = names := by
  unfold list
  cases h : t.locate p with
  | error e => simp [bind, Except.bind]
  | ok loc =>
    simp only [bind, Except.bind, Except.ok.injEq, exists_eq_left']
    split <;> simp_all

end ThemeBuilder.FileTree
