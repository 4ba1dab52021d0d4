import ThemeBuilder.Proofs.FileTree.Nodes

/-! Where paths lead in a tree in which files were made or written: to where they led before,
but for those that now find one of the files. -/
namespace ThemeBuilder.FileTree
open Bytes

/-- What a place may come to hold when files are made or written: a file where there was nothing,
or other bytes in the file that was there, whose permission bits stay. -/
inductive Overwritten : Option Node → Option Node → Prop
  | made (bytes : Bytes) (modified : Int) :
      Overwritten none (some (.file ⟨bytes, modified, madeMode⟩))
  | changed (f : File) (bytes : Bytes) (modified : Int) :
      Overwritten (some (.file f)) (some (.file { f with bytes := bytes, modified := modified }))

namespace Overwritten
variable {a b c : Option Node}

theorem file (h : Overwritten a b) : ∃ f, b = some (.file f) := by
  cases h <;> exact ⟨_, rfl⟩

theorem before (h : Overwritten a b) : a = none ∨ ∃ f, a = some (.file f) := by
  cases h
  · exact .inl rfl
  · exact .inr ⟨_, rfl⟩

theorem trans (hab : Overwritten a b) (hbc : Overwritten b c) : Overwritten a c := by
  cases hab <;> cases hbc <;> constructor

end Overwritten

/-- `u` is `t` with files made or written, all of them at places in `written`. -/
structure Grown (t u : FileTree) (written : Location → Prop) : Prop where
  node? : ∀ l, u.node? l = t.node? l ∨ written l ∧ Overwritten (t.node? l) (u.node? l)

/-- `u` is `t` with other content of the regular file at `loc`, which `t` may lack. -/
structure Saved (t u : FileTree) (loc : Location) : Prop extends Grown t u (· = loc) where
  here : Overwritten (t.node? loc) (u.node? loc)

/-- There is a file at the place now, where there was nothing. -/
def Fresh (t u : FileTree) (l : Location) : Prop := t.node? l = none ∧ ∃ f, u.node? l = some (.file f)

/-- How where a path leads changes with new files. A path that went on behind the name of one is
refused for another reason. -/
inductive Redirected (t u : FileTree) : Except Errno Spot → Except Errno Spot → Prop
  | same (r : Except Errno Spot) : Redirected t u r r
  | found {dir : Location} {name : Name} : Fresh t u (name :: dir) →
      Redirected t u (.ok (.vacant dir name)) (.ok (.occupied (name :: dir)))
  | blocked {l : Location} : Fresh t u l → Redirected t u (.error .notFound) (.error .notDirectory)

section
variable {t u v : FileTree} {W V : Location → Prop} {l : Location} {p : Path}

theorem Grown.refl (t : FileTree) (W : Location → Prop) : Grown t t W := ⟨fun _ => .inl rfl⟩

theorem Grown.mono (h : Grown t u W) (hW : ∀ l, W l → V l) : Grown t u V :=
  ⟨fun l => (h.node? l).imp_right (And.imp_left (hW l))⟩

theorem Grown.trans (h : Grown t u W) (h' : Grown u v W) : Grown t v W := by
  refine ⟨fun l => ?_⟩
  obtain he | ⟨hl, ho⟩ := h.node? l
  · rw [← he]
    exact h'.node? l
  · obtain he' | ⟨-, ho'⟩ := h'.node? l
    · exact .inr ⟨hl, he' ▸ ho⟩
    · exact .inr ⟨hl, ho.trans ho'⟩

theorem Grown.elsewhere (h : Grown t u W) (hl : ¬W l) : u.node? l = t.node? l :=
  (h.node? l).resolve_right fun hw => hl hw.1

/-- What is no regular file now is as it was. -/
theorem Grown.node?_of_ne (h : Grown t u W) (hl : ∀ f, u.node? l ≠ some (.file f)) :
    u.node? l = t.node? l := by
  refine (h.node? l).resolve_right fun hw => ?_
  obtain ⟨f, hf⟩ := hw.2.file
  exact hl f hf

theorem Grown.walkWith (h : Grown t u W) (purpose : Purpose) (trailing : Bool)
    {jump jump' : Location → Route → Except Errno Spot}
    (hjump : ∀ dir route, Redirected t u (jump dir route) (jump' dir route))
    (dir : Location) (cs : List Bytes) :
    Redirected t u (walkWith t purpose trailing jump dir cs)
      (walkWith u purpose trailing jump' dir cs) := by
  induction cs generalizing dir with
  | nil => exact .same _
  | cons c cs ih =>
    rw [FileTree.walkWith, FileTree.walkWith]
    dsimp only
    split
    · exact .same _
    split
    · exact ih _
    split
    · exact ih _
    split
    · rename_i hc
      obtain he | ⟨-, ho⟩ := h.node? (⟨c, hc⟩ :: dir)
      · rw [he]
        split
        · exact .same _
        · split
          · exact .same _
          · exact ih _
        · exact hjump _ _
        · exact .same _
      · obtain ⟨f, hf⟩ := ho.file
        rw [hf]
        obtain hn | ⟨g, hg⟩ := ho.before
        · rw [hn]
          dsimp only
          split
          · exact .found ⟨hn, f, hf⟩
          · exact .blocked ⟨hn, f, hf⟩
        · rw [hg]
          exact .same _
    · exact .same _

theorem Grown.walk (h : Grown t u W) (purpose : Purpose) (links : Nat) (dir : Location)
    (route : Route) :
    Redirected t u (walk t purpose links dir route) (walk u purpose links dir route) := by
  induction links generalizing dir route with
  | zero => exact h.walkWith _ _ (fun _ _ => .same _) _ _
  | succ n ih => exact h.walkWith _ _ ih _ _

theorem Grown.spot (h : Grown t u W) (purpose : Purpose) (p : Path) :
    u.spot purpose p = t.spot purpose p ∨
      (∃ dir name, Fresh t u (name :: dir) ∧ t.spot purpose p = .ok (.vacant dir name) ∧
        u.spot purpose p = .ok (.occupied (name :: dir))) ∨
      (∃ l, Fresh t u l) ∧ t.spot purpose p = .error (.system .notFound) ∧
        u.spot purpose p = .error (.system .notDirectory) := by
  unfold FileTree.spot
  split
  · exact .inl rfl
  split
  · exact .inl rfl
  split
  · exact .inl rfl
  have hw := h.walk purpose mostLinks [] (Route.ofPath p)
  generalize FileTree.walk t purpose mostLinks [] (Route.ofPath p) = r at hw ⊢
  generalize FileTree.walk u purpose mostLinks [] (Route.ofPath p) = r' at hw ⊢
  cases hw with
  | same => exact .inl rfl
  | found hn => exact .inr (.inl ⟨_, _, hn, rfl, rfl⟩)
  | blocked hn => exact .inr (.inr ⟨⟨_, hn⟩, rfl, rfl⟩)

/-- Paths lead where they led if no file is new. -/
theorem Grown.spot_eq (h : Grown t u W) (hW : ∀ l, W l → t.node? l ≠ none) (purpose : Purpose)
    (p : Path) : u.spot purpose p = t.spot purpose p := by
  have hold (l : Location) : ¬Fresh t u l := by
    rintro ⟨hn, f, hf⟩
    obtain he | ⟨hl, -⟩ := h.node? l
    · rw [he, hn] at hf
      cases hf
    · exact hW l hl hn
  obtain he | ⟨_, _, hn, -⟩ | ⟨⟨l, hn⟩, -⟩ := h.spot purpose p
  · exact he
  · exact absurd hn (hold _)
  · exact absurd hn (hold l)

/-- Only the way through the directories remains once a path is well formed. -/
theorem spot_eq_ok {purpose : Purpose} {p : Path} {s : Spot} :
    t.spot purpose p = .ok s ↔ (nul ∉ p ∧ p ≠ [] ∧ p.length ≤ longestPath) ∧
      FileTree.walk t purpose mostLinks [] (Route.ofPath p) = .ok s := by
  unfold FileTree.spot
  split
  · simp_all
  split
  · simp_all
  split <;> rename_i hnul hempty hlong
  · simp [Nat.not_le.mpr hlong]
  have hp : nul ∉ p ∧ p ≠ [] ∧ p.length ≤ longestPath := ⟨hnul, hempty, Nat.not_lt.mp hlong⟩
  cases FileTree.walk t purpose mostLinks [] (Route.ofPath p) with
  | error e =>
    constructor
    · intro h
      cases h
    · rintro ⟨-, h⟩
      cases h
  | ok r =>
    constructor
    · intro h
      cases h
      exact ⟨hp, rfl⟩
    · rintro ⟨-, h⟩
      cases h
      rfl

theorem locate_eq_ok {p : Path} {l : Location} :
    t.locate p = .ok l ↔ t.spot .use p = .ok (.occupied l) := by
  unfold locate
  cases h : t.spot .use p with
  | error e => simp [bind, Except.bind]
  | ok s => cases s <;> simp [bind, Except.bind]

/-- What led to something leads there still. -/
theorem Grown.locate (h : Grown t u W) (hp : t.locate p = .ok l) : u.locate p = .ok l := by
  rw [locate_eq_ok] at hp ⊢
  obtain he | ⟨_, _, -, he, -⟩ | ⟨-, he, -⟩ := h.spot .use p
  · rw [he, hp]
  · rw [hp] at he
    cases he
  · rw [hp] at he
    cases he

/-- What leads to anything but a new file led there before. -/
private theorem Grown.locate_of_not_fresh (h : Grown t u W) (hp : u.locate p = .ok l)
    (hl : ¬Fresh t u l) : t.locate p = .ok l := by
  rw [locate_eq_ok] at hp ⊢
  obtain he | ⟨_, _, hn, -, he⟩ | ⟨-, -, he⟩ := h.spot .use p
  · rw [← he, hp]
  · rw [hp] at he
    cases he
    exact absurd hn hl
  · rw [hp] at he
    cases he

theorem Grown.locate_back (h : Grown t u W) (hp : u.locate p = .ok l) (hl : ¬W l) :
    t.locate p = .ok l := by
  refine h.locate_of_not_fresh hp fun hn => ?_
  obtain ⟨f, hf⟩ := hn.2
  rw [h.elsewhere hl, hn.1] at hf
  cases hf

theorem Grown.file?_ne (h : Grown t u W) (hl : ¬W l) : u.file? l = t.file? l := by
  rw [file?, h.elsewhere hl]
  rfl

theorem Grown.read (h : Grown t u W) {f : File} (hp : t.read p = .ok f)
    (hW : ∀ l, W l → t.locate p ≠ .ok l) : u.read p = .ok f := by
  obtain ⟨l, hl, hf⟩ := read_eq_ok.mp hp
  exact read_eq_ok.mpr ⟨l, h.locate hl, (h.file?_ne fun hw => hW l hw hl).trans hf⟩

theorem Grown.read_back (h : Grown t u W) {f : File} (hp : u.read p = .ok f)
    (hW : ∀ l, W l → u.locate p ≠ .ok l) : t.read p = .ok f := by
  obtain ⟨l, hl, hf⟩ := read_eq_ok.mp hp
  have hne : ¬W l := fun hw => hW l hw hl
  exact read_eq_ok.mpr ⟨l, h.locate_back hl hne, (h.file?_ne hne).symm.trans hf⟩

theorem Saved.read (h : Saved t u l) {f : File} (hp : t.read p = .ok f)
    (hloc : t.locate p ≠ .ok l) : u.read p = .ok f :=
  h.toGrown.read hp fun _ hw => hw ▸ hloc

theorem Saved.read_back (h : Saved t u l) {f : File} (hp : u.read p = .ok f)
    (hloc : u.locate p ≠ .ok l) : t.read p = .ok f :=
  h.toGrown.read_back hp fun _ hw => hw ▸ hloc

theorem Saved.read_iff (h : Saved t u l) {f : File} (hloc : u.locate p ≠ .ok l) :
    u.read p = .ok f ↔ t.read p = .ok f :=
  ⟨fun hp => h.read_back hp hloc, fun hp => h.read hp fun hl => hloc (h.locate hl)⟩

/-- The regular files are still there. -/
theorem Grown.isFile (h : Grown t u W) (hp : t.isFile p = true) : u.isFile p = true := by
  rw [isFile_iff_read] at hp ⊢
  obtain ⟨f, hf⟩ := hp
  obtain ⟨l, hl, hfile⟩ := read_eq_ok.mp hf
  obtain he | ⟨-, ho⟩ := h.node? l
  · exact ⟨f, read_eq_ok.mpr ⟨l, h.locate hl, file?_eq_some.mpr (he.trans (file?_eq_some.mp hfile))⟩⟩
  · obtain ⟨g, hg⟩ := ho.file
    exact ⟨g, read_eq_ok.mpr ⟨l, h.locate hl, file?_eq_some.mpr hg⟩⟩

theorem Grown.directory (h : Grown t u W) (hd : t.node? l = some .directory) :
    u.node? l = some .directory := by
  obtain he | ⟨-, ho⟩ := h.node? l
  · rw [he, hd]
  · rw [hd] at ho
    cases ho

/-- The directories are the same ones. -/
theorem Grown.isDirectory (h : Grown t u W) (p : Path) : u.isDirectory p = t.isDirectory p := by
  rw [Bool.eq_iff_iff, isDirectory_iff, isDirectory_iff]
  constructor
  · rintro ⟨l, hl, hd⟩
    have he := h.node?_of_ne (l := l) fun f => by simp [hd]
    refine ⟨l, h.locate_of_not_fresh hl ?_, he ▸ hd⟩
    rintro ⟨hn, -⟩
    rw [← he, hd] at hn
    cases hn
  · rintro ⟨l, hl, hd⟩
    exact ⟨l, h.locate hl, h.directory hd⟩

end

theorem saved_write {t : FileTree} {loc : Location} {f : File} (h : t.file? loc = some f)
    (bytes : Bytes) : Saved t (t.write loc bytes) loc := by
  have ho : Overwritten (t.node? loc) ((t.write loc bytes).node? loc) := by
    rw [file?_eq_some.mp h, file?_eq_some.mp (file?_write h bytes)]
    exact .changed ..
  refine { node? := fun l => ?_, here := ho }
  by_cases hl : l = loc
  · exact .inr ⟨hl, hl ▸ ho⟩
  · exact .inl (node?_write_ne hl t bytes)

theorem saved_append {t : FileTree} {loc : Location} {f : File} (h : t.file? loc = some f)
    (bytes : Bytes) : Saved t (t.append loc bytes) loc := by
  rw [append_of_file? h]
  exact saved_write h _

/-- Where a path leads does not depend on the content of files. -/
@[simp]
theorem locate_append {t : FileTree} {loc : Location} {f : File} (h : t.file? loc = some f)
    (bytes : Bytes) (p : Path) : (t.append loc bytes).locate p = t.locate p := by
  have he := (saved_append h bytes).toGrown.spot_eq (fun l hl => by simp [hl, file?_eq_some.mp h])
    .use p
  rw [locate, he]
  rfl

/-- Nor does the reason why a path leads to no file. -/
theorem read_append_of_error {t : FileTree} {loc : Location} {f : File} (h : t.file? loc = some f)
    (bytes : Bytes) {p : Path} {e : FileError} (hp : t.read p = .error e) :
    (t.append loc bytes).read p = .error e := by
  rw [← hp]
  unfold read
  rw [locate_append h]
  cases hl : t.locate p with
  | error e' => rfl
  | ok l =>
    have hne : l ≠ loc := by
      rintro rfl
      rw [read_eq_ok.mpr ⟨l, hl, h⟩] at hp
      cases hp
    simp only [bind, Except.bind, (saved_append h bytes).elsewhere hne]

end ThemeBuilder.FileTree
