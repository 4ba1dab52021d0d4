import ThemeBuilder.Proofs.FileTree.Creation

/-! Saving files: each is made or emptied, and then it gets its bytes. -/
namespace ThemeBuilder.FileTree

/-- The place of the file that is made or emptied along a path, if that can be done. -/
def target? (t : FileTree) (p : Path) : Option Location := (t.create p).toOption.map Prod.fst

/-- The tree with a file of these bytes at a place. The permission bits of one that is there
stay. -/
def save (t : FileTree) (loc : Location) (bytes : Bytes) : FileTree :=
  match t.node? loc with
  | none => t.add ⟨loc, .file ⟨bytes, t.clock, madeMode⟩, true⟩
  | some _ => t.write loc bytes

/-- Whether a file may be saved at a place: nothing else is there. -/
def Writable (t : FileTree) (loc : Location) : Prop :=
  t.node? loc = none ∨ ∃ f, t.node? loc = some (.file f)

variable {t u : FileTree} {W : Location → Prop} {p : Path} {loc l : Location} {bytes : Bytes}

/-- Where a file can be made is either a vacant name or a file. -/
theorem create_eq_ok : t.create p = .ok (loc, u) ↔ u = t.save loc [] ∧
    ((∃ dir name, name :: dir = loc ∧ t.spot .create p = .ok (.vacant dir name)) ∨
      t.spot .create p = .ok (.occupied loc) ∧ ∃ f, t.node? loc = some (.file f)) := by
  unfold create
  cases hs : t.spot .create p with
  | error e => simp [bind, Except.bind]
  | ok s =>
    cases s with
    | vacant dir name =>
      have hn := node?_of_spot_vacant hs
      simp only [bind, Except.bind, Except.ok.injEq, Prod.mk.injEq, Spot.vacant.injEq,
        reduceCtorEq, false_and, or_false]
      constructor
      · rintro ⟨rfl, rfl⟩
        exact ⟨by rw [save, hn], dir, name, rfl, rfl, rfl⟩
      · rintro ⟨rfl, dir', name', rfl, rfl, rfl⟩
        exact ⟨rfl, by rw [save, hn]⟩
    | occupied l =>
      simp only [bind, Except.bind, Except.ok.injEq, Spot.occupied.injEq, reduceCtorEq, and_false,
        exists_false, false_or]
      cases hf : t.file? l with
      | none =>
        simp only [reduceCtorEq, false_iff]
        rintro ⟨-, rfl, f, hf'⟩
        rw [← file?_eq_some, hf] at hf'
        cases hf'
      | some f =>
        rw [file?_eq_some] at hf
        simp only [Except.ok.injEq, Prod.mk.injEq]
        constructor
        · rintro ⟨rfl, rfl⟩
          exact ⟨by rw [save, hf], rfl, f, hf⟩
        · rintro ⟨rfl, rfl, -⟩
          exact ⟨rfl, by rw [save, hf]⟩

theorem target?_eq_some : t.target? p = some loc ↔ t.create p = .ok (loc, t.save loc []) := by
  unfold target?
  cases h : t.create p with
  | error e => simp [Except.toOption]
  | ok r =>
    obtain ⟨l, u⟩ := r
    obtain ⟨rfl, -⟩ := create_eq_ok.mp h
    simp only [Except.toOption, Option.map_some, Option.some.injEq, Except.ok.injEq,
      Prod.mk.injEq, iff_self_and]
    rintro rfl
    rfl

theorem target?_of_create (h : t.create p = .ok (loc, u)) : t.target? p = some loc := by
  rw [target?, h]
  rfl

theorem target?_eq_none : t.target? p = none ↔ ∃ e, t.create p = .error e := by
  unfold target?
  cases t.create p <;> simp [Except.toOption]

theorem writable_of_target? (h : t.target? p = some loc) : t.Writable loc := by
  obtain ⟨-, ⟨dir, name, rfl, hs⟩ | ⟨-, hf⟩⟩ := create_eq_ok.mp (target?_eq_some.mp h)
  · exact .inl (node?_of_spot_vacant hs)
  · exact .inr hf

theorem Writable.ne_nil (h : t.Writable loc) : loc ≠ [] := by
  rintro rfl
  obtain hn | ⟨f, hf⟩ := h
  · cases hn
  · cases hf

/-- A saved file has the bytes, whatever was there. -/
theorem file?_save (h : t.Writable loc) (bytes : Bytes) :
    ∃ mode, (t.save loc bytes).file? loc = some ⟨bytes, t.clock, mode⟩ := by
  unfold save
  obtain hn | ⟨f, hf⟩ := h
  · rw [hn]
    refine ⟨madeMode, file?_eq_some.mpr ?_⟩
    exact (node?_add (e := ⟨loc, .file ⟨bytes, t.clock, madeMode⟩, true⟩)
      (Writable.ne_nil (.inl hn)) hn loc).trans (if_pos rfl)
  · rw [hf]
    exact ⟨f.mode, file?_write (file?_eq_some.mpr hf) bytes⟩

theorem saved_save (h : t.Writable loc) (bytes : Bytes) : Saved t (t.save loc bytes) loc := by
  unfold save
  obtain hn | ⟨f, hf⟩ := h
  · rw [hn]
    have hnode := node?_add (e := ⟨loc, .file ⟨bytes, t.clock, madeMode⟩, true⟩)
      (Writable.ne_nil (.inl hn)) hn
    have hover : Overwritten (t.node? loc)
        ((t.add ⟨loc, .file ⟨bytes, t.clock, madeMode⟩, true⟩).node? loc) := by
      rw [hn, (hnode loc).trans (if_pos rfl)]
      exact .made ..
    refine { node? := fun l => ?_, here := hover }
    by_cases hl : l = loc
    · exact .inr ⟨hl, hl ▸ hover⟩
    · exact .inl ((hnode l).trans (if_neg hl))
  · rw [hf]
    exact saved_write (file?_eq_some.mpr hf) bytes

/-- Bytes that are added to a saved file may as well be saved with the others. -/
@[simp]
theorem append_save (h : t.Writable loc) (a b : Bytes) :
    (t.save loc a).append loc b = t.save loc (a ++ b) := by
  obtain ⟨mode, hfile⟩ := file?_save h a
  rw [append_of_file? hfile]
  dsimp only
  unfold save
  obtain hn | ⟨f, hf⟩ := h
  · have hne : loc ∉ t.entries.map (·.location) := fun hm =>
      (mem_locations_of_node? (Writable.ne_nil (.inl hn))).mp hm hn
    rw [hn]
    refine eq_of_entries ?_ (by rw [add, add, dif_neg hne, dif_neg hne]; rfl)
    simp only [write, modify, add, dif_neg hne, List.map_append, List.map_cons, List.map_nil,
      if_pos]
    congr 1
    refine (List.map_congr_left fun e he => if_neg ?_).trans (List.map_id _)
    rintro rfl
    exact hne (List.mem_map_of_mem he)
  · rw [hf]
    exact write_write a (a ++ b)

@[simp]
theorem locate_save (h : t.target? p = some loc) (bytes : Bytes) :
    (t.save loc bytes).locate p = .ok loc := by
  have hcreated := created_of_create (target?_eq_some.mp h)
  obtain ⟨mode, hfile⟩ := hcreated.file
  rw [← List.nil_append bytes, ← append_save (writable_of_target? h), locate_append hfile]
  exact hcreated.locate

/-- The path of a saved file leads to its bytes. -/
theorem read_save (h : t.target? p = some loc) (bytes : Bytes) :
    ∃ f, (t.save loc bytes).read p = .ok f ∧ f.bytes = bytes := by
  obtain ⟨mode, hfile⟩ := file?_save (writable_of_target? h) bytes
  exact ⟨_, read_eq_ok.mpr ⟨loc, locate_save h bytes, hfile⟩, rfl⟩

/-- A path along which a file is overwritten leads to that file. -/
theorem read_of_target? (h : t.target? p = some loc) {f : File} (hf : t.file? loc = some f) :
    t.read p = .ok f := by
  obtain ⟨-, ⟨dir, name, rfl, hs⟩ | ⟨hs, -⟩⟩ := create_eq_ok.mp (target?_eq_some.mp h)
  · rw [file?_eq_some, node?_of_spot_vacant hs] at hf
    cases hf
  · exact read_eq_ok.mpr ⟨loc, locate_eq_ok.mpr (spot_use hs), hf⟩

/-- Files that are made along the same path before and after others are made at the same place. -/
theorem Grown.target? (h : Grown t u W) (p : Path) : u.target? p = t.target? p := by
  have hfile (l : Location) (hn : t.node? l ≠ none) :
      (∃ f, u.node? l = some (.file f)) ↔ ∃ f, t.node? l = some (.file f) := by
    obtain he | ⟨-, ho⟩ := h.node? l
    · rw [he]
    · exact ⟨fun _ => ho.before.resolve_left hn, fun _ => ho.file⟩
  refine Option.ext fun l => ?_
  simp only [target?_eq_some, create_eq_ok, true_and]
  obtain he | ⟨dir, name, hn, ht, hu⟩ | ⟨-, ht, hu⟩ := h.spot .create p
  · rw [he]
    refine or_congr_right (and_congr_right fun hs => ?_)
    exact hfile l (node?_of_spot_occupied hs)
  · rw [ht, hu]
    constructor
    · rintro (⟨_, _, -, hs⟩ | ⟨hs, -⟩) <;> cases hs
      exact .inl ⟨dir, name, rfl, rfl⟩
    · rintro (⟨_, _, rfl, hs⟩ | ⟨hs, -⟩) <;> cases hs
      exact .inr ⟨rfl, hn.2⟩
  · rw [ht, hu]
    simp

private theorem create_of_spot_error {e : FileError} (h : t.spot .create p = .error e) :
    t.create p = .error e := by
  rw [create, h]
  rfl

private theorem eq_noSuchDevice_of_create {e : FileError}
    (hs : t.spot .create p = .ok (.occupied l))
    (h : t.create p = .error e) : e = .system .noSuchDevice := by
  unfold create at h
  rw [hs] at h
  simp only [bind, Except.bind] at h
  split at h
  · cases h
  · cases h
    rfl

/-- A path along which no file can be made is refused later too. The reason is another one at most
for a path that leads on behind a new file. -/
theorem Grown.create_error (h : Grown t u W) {e : FileError} (he : t.create p = .error e) :
    u.create p = .error e ∨ (∃ l, Fresh t u l) ∧ e = .system .notFound ∧
      u.create p = .error (.system .notDirectory) := by
  have hnone : u.target? p = none := (h.target? p).trans (target?_eq_none.mpr ⟨e, he⟩)
  obtain ⟨e', he'⟩ := target?_eq_none.mp hnone
  cases hs : t.spot .create p with
  | error e₀ =>
    cases (create_of_spot_error hs).symm.trans he
    obtain hu | ⟨_, _, -, ht, -⟩ | ⟨hl, ht, hu⟩ := h.spot .create p
    · exact .inl (create_of_spot_error (hu.trans hs))
    · rw [hs] at ht
      cases ht
    · rw [hs] at ht
      cases ht
      exact .inr ⟨hl, rfl, create_of_spot_error hu⟩
  | ok s =>
    left
    cases s with
    | vacant dir name =>
      rw [create, hs] at he
      cases he
    | occupied l =>
      obtain hu | ⟨_, _, -, ht, -⟩ | ⟨-, ht, -⟩ := h.spot .create p
      · rw [he', eq_noSuchDevice_of_create (hu.trans hs) he', eq_noSuchDevice_of_create hs he]
      · rw [hs] at ht
        cases ht
      · rw [hs] at ht
        cases ht

theorem Grown.create_error_eq (h : Grown t u W) (hW : ∀ l, W l → t.node? l ≠ none) {e : FileError}
    (he : t.create p = .error e) : u.create p = .error e := by
  refine (h.create_error he).resolve_right ?_
  rintro ⟨⟨l, hn, f, hf⟩, -⟩
  obtain hsame | ⟨hl, -⟩ := h.node? l
  · rw [hsame, hn] at hf
    cases hf
  · exact hW l hl hn

end ThemeBuilder.FileTree
