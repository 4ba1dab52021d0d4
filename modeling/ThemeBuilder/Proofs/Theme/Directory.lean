import ThemeBuilder.Proofs.Action
import ThemeBuilder.Proofs.FileTree.Children
import ThemeBuilder.Proofs.FileTree.Descent
import ThemeBuilder.Theme.Directory

/-! The regular files of a directory by name, which stay as they are when other files are made,
and those among them that a filter keeps. -/
namespace ThemeBuilder

namespace FileTree

/-- The regular files directly in a directory, links followed, with their names, in the order of
the directory. -/
def filesIn (t : FileTree) (dir : Path) : List (Name × File) :=
  match t.list dir with
  | .error _ => []
  | .ok names => names.filterMap fun n => (t.read (dir.join n.bytes)).toOption.map (n, ·)

variable {t u : FileTree} {W : Location → Prop} {dir p : Path} {names : List Name}
  {d loc : Location}

theorem mem_filesIn (h : t.list dir = .ok names) {x : Name × File} :
    x ∈ t.filesIn dir ↔ x.1 ∈ names ∧ t.read (dir.join x.1.bytes) = .ok x.2 := by
  obtain ⟨n, f⟩ := x
  rw [filesIn, h]
  simp only [List.mem_filterMap, Option.map_eq_some_iff]
  constructor
  · rintro ⟨m, hm, g, hg, heq⟩
    cases heq
    cases hr : t.read (dir.join n.bytes) with
    | error e =>
      rw [hr] at hg
      cases hg
    | ok f' =>
      rw [hr] at hg
      cases hg
      exact ⟨hm, rfl⟩
  · rintro ⟨hm, hr⟩
    exact ⟨n, hm, f, by rw [hr]; rfl, rfl⟩

theorem read_of_mem_filesIn {x : Name × File} (h : x ∈ t.filesIn dir) :
    t.read (dir.join x.1.bytes) = .ok x.2 := by
  cases hl : t.list dir with
  | error e =>
    rw [filesIn, hl] at h
    cases h
  | ok names => exact ((mem_filesIn hl).mp h).2

theorem filter_filesIn (h : t.list dir = .ok names) (good : Name → Bool) :
    (t.filesIn dir).filter (good ·.1) =
      (names.filter fun n => t.isFile (dir.join n.bytes) && good n).filterMap fun n =>
        (t.read (dir.join n.bytes)).toOption.map (n, ·) := by
  rw [filesIn, h, List.filter_filterMap, List.filterMap_filter]
  apply List.filterMap_congr
  intro n _
  cases hr : t.read (dir.join n.bytes) with
  | error e =>
    have : t.isFile (dir.join n.bytes) = false := by
      rw [← Bool.not_eq_true, isFile_iff_read, hr]
      simp
    simp [this, Except.toOption]
  | ok f =>
    have : t.isFile (dir.join n.bytes) = true := isFile_iff_read.mpr ⟨f, hr⟩
    simp [this, Except.toOption, Option.filter]

theorem map_fst_filesIn (h : t.list dir = .ok names) (good : Name → Bool) :
    ((t.filesIn dir).filter (good ·.1)).map Prod.fst =
      names.filter fun n => t.isFile (dir.join n.bytes) && good n := by
  rw [filter_filesIn h, List.map_filterMap]
  conv_rhs => rw [← List.filterMap_some (l := names.filter _)]
  apply List.filterMap_congr
  intro n hn
  obtain ⟨f, hf⟩ := isFile_iff_read.mp (Bool.and_eq_true_iff.mp (List.mem_filter.mp hn).2).1
  rw [hf]
  rfl

theorem nodup_of_list (h : t.list dir = .ok names) : names.Nodup := by
  obtain ⟨loc, -, -, rfl⟩ := list_eq_ok.mp h
  exact nodup_children t loc

theorem nodup_filesIn (t : FileTree) (dir : Path) : ((t.filesIn dir).map Prod.fst).Nodup := by
  cases hl : t.list dir with
  | error e =>
    rw [filesIn, hl]
    exact List.nodup_nil
  | ok names =>
    have hmap := map_fst_filesIn hl fun _ => true
    rw [List.filter_true] at hmap
    rw [hmap]
    exact (nodup_of_list hl).filter _

/-- The names of the regular files that a filter keeps are the same ones after files were made, if
those found then are found to be files before. -/
private theorem Later.filter_isFile (h : Later t u W) (hdir : t.locate dir = .ok d)
    (hnode : t.node? d = some .directory) {good : Name → Bool}
    (hback : ∀ n ∈ u.children d, good n = true → ∀ f, u.read (dir.join n.bytes) = .ok f →
      t.read (dir.join n.bytes) = .ok f) :
    ((u.children d).filter fun n => u.isFile (dir.join n.bytes) && good n) =
      (t.children d).filter fun n => t.isFile (dir.join n.bytes) && good n := by
  rw [← h.filter_children d]
  · apply List.filter_congr
    intro n hn
    rw [Bool.eq_iff_iff, Bool.and_eq_true, Bool.and_eq_true]
    constructor
    · rintro ⟨hf, hg⟩
      obtain ⟨f, hf⟩ := isFile_iff_read.mp hf
      exact ⟨isFile_iff_read.mpr ⟨f, hback n hn hg f hf⟩, hg⟩
    · rintro ⟨hf, hg⟩
      exact ⟨h.isFile hf, hg⟩
  · -- the name of a new file led nowhere
    intro n _ hnone
    rw [Bool.and_eq_false_iff, ← Bool.not_eq_true, isFile_iff_read]
    left
    rintro ⟨f, hf⟩
    obtain ⟨l, hl, -⟩ := read_eq_ok.mp hf
    exact locate_join_ne hdir hnode hnone l hl

/-- No regular file of a directory with a name of some kind is one at a place in `W`, be it by a
link. -/
def Avoids (t : FileTree) (dir : Path) (good : Name → Bool) (W : Location → Prop) : Prop :=
  ∀ x ∈ t.filesIn dir, good x.1 = true → ∀ l, W l → t.locate (dir.join x.1.bytes) ≠ .ok l

theorem avoids_iff {good : Name → Bool} : t.Avoids dir good (· = loc) ↔
    ∀ x ∈ t.filesIn dir, good x.1 = true → t.locate (dir.join x.1.bytes) ≠ .ok loc := by
  simp only [Avoids, forall_eq]

/-- Making files leaves the others of a directory as they were. -/
theorem Later.filter_filesIn (h : Later t u W) (hd : t.isDirectory dir = true)
    {good : Name → Bool} (hout : u.Avoids dir good W) :
    (u.filesIn dir).filter (good ·.1) = (t.filesIn dir).filter (good ·.1) := by
  obtain ⟨d, hdir, hnode⟩ := isDirectory_iff.mp hd
  have hlist := list_of_isDirectory hdir hnode
  have hlist' := list_of_isDirectory (h.locate hdir) (h.directory hnode)
  have hback : ∀ n ∈ u.children d, good n = true → ∀ f, u.read (dir.join n.bytes) = .ok f →
      t.read (dir.join n.bytes) = .ok f := by
    intro n hn hg f hf
    exact h.read_back hf (hout (n, f) ((mem_filesIn hlist').mpr ⟨hn, hf⟩) hg)
  rw [FileTree.filter_filesIn hlist', FileTree.filter_filesIn hlist,
    ← h.filter_isFile hdir hnode hback]
  apply List.filterMap_congr
  intro n hn
  obtain ⟨hn, hkept⟩ := List.mem_filter.mp hn
  obtain ⟨hf, hg⟩ := Bool.and_eq_true_iff.mp hkept
  obtain ⟨f, hf⟩ := isFile_iff_read.mp hf
  rw [hf, hback n hn hg f hf]

/-- What a file of a directory leads to, it leads to after other files are made. -/
theorem Grown.avoids {V : Location → Prop} (h : Grown t u V) (hd : t.isDirectory dir = true)
    {good : Name → Bool} (hu : u.Avoids dir good W) : t.Avoids dir good W := by
  obtain ⟨d, hdir, hnode⟩ := isDirectory_iff.mp hd
  have hlist := list_of_isDirectory hdir hnode
  have hlist' := list_of_isDirectory (h.locate hdir) (h.directory hnode)
  intro x hx hg l hl hloc
  obtain ⟨hn, hr⟩ := (mem_filesIn hlist).mp hx
  have hn' : x.1 ∈ u.children d := by
    rw [mem_children] at hn ⊢
    obtain he | ⟨-, ho⟩ := h.node? (x.1 :: d)
    · rwa [he]
    · obtain ⟨f, hf⟩ := ho.file
      simp [hf]
  obtain ⟨f, hf⟩ := isFile_iff_read.mp (h.isFile (isFile_iff_read.mpr ⟨x.2, hr⟩))
  exact hu (x.1, f) ((mem_filesIn hlist').mpr ⟨hn', hf⟩) hg l hl (h.locate hloc)

end FileTree

namespace Theme

/-- What is noted of the entries that a filter drops. -/
def skips (keep : Filter) (t : FileTree) (dir : Path) : List Event :=
  match t.list dir with
  | .error _ => []
  | .ok names => (names.filter fun n => !keep t (dir.join n.bytes) (Utf8.lossy n.bytes)).map
      fun n => .diagnostic (.skippingEntry (dir.join n.bytes))

/-- The files that a filter by name keeps, in a directory that there is. -/
theorem listKept_eq {t : FileTree} {dir : Path} (h : t.isDirectory dir = true)
    (good : String → Bool) :
    listKept dir (fun t path name => t.isFile path && good name) t =
      ⟨.ok (((t.filesIn dir).filter fun x => good (Utf8.lossy x.1.bytes)).map Prod.fst), t,
        skips (fun t path name => t.isFile path && good name) t dir⟩ := by
  obtain ⟨d, hdir, hnode⟩ := FileTree.isDirectory_iff.mp h
  have hlist := FileTree.list_of_isDirectory hdir hnode
  rw [FileTree.map_fst_filesIn hlist fun n => good (Utf8.lossy n.bytes), listKept, skips, hlist]

theorem directory?_eq_some {t : FileTree} {base : Path} {name : Bytes} (hname : name ≠ [])
    (h : t.isDirectory (base.join name) = true) :
    directory? t base name = some (base.join name) := by
  rw [directory?, if_neg hname, if_pos h]

theorem directory?_isSome {t : FileTree} {base : Path} {name : Bytes} :
    (directory? t base name).isSome = true ↔
      name ≠ [] ∧ t.isDirectory (base.join name) = true := by
  unfold directory?
  split <;> simp_all

theorem directory?_eq_none {t : FileTree} {base : Path} {name : Bytes} :
    directory? t base name = none ↔ name = [] ∨ t.isDirectory (base.join name) = false := by
  unfold directory?
  split <;> simp_all

end Theme
end ThemeBuilder
