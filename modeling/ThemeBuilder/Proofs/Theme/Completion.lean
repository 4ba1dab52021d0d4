import ThemeBuilder.Proofs.Theme.Batch

/-! Work that comes to its end leaves whole archives. Of several themes whose archives go to one
place, the last one's is there. -/
namespace ThemeBuilder
namespace Theme
variable {config : Config} {base : Path} {name n : Bytes} {names : List Bytes} {t u : FileTree}
  {bytes : Bytes}

/-- Whether the bytes are a whole archive of a theme, up to the record that ends it. There is an
entry for each visible file as it is in the tree, but one for the archive itself may hold anything.
Within the limits of the format the archive can be read. -/
def IsArchive (config : Config) (base : Path) (t : FileTree) (name bytes : Bytes) : Prop :=
  ∃ es : List Archive.Entry, bytes = Archive.encode config.compression es ∧
    List.Forall₂ (fun x e => e.name = config.entryFor x.1.bytes ∧
        ((∀ l, t.locate ((base.join name).join x.1.bytes) = .ok l →
          t.target? (archivePath config base name) ≠ some l) → e = config.entryOf x))
      (visibleFiles config t (base.join name)) es ∧
    (config.compression = .stored → es.length < 2 ^ 16 → bytes.length < 2 ^ 32 →
      Archive.read? bytes = some es)

/-- All files of a theme, packed one after the other into its archive. -/
private theorem isArchive_of_packs {loc : Location} {es : List Archive.Entry}
    (target : t.target? (archivePath config base name) = some loc)
    (packs : Packing.Packs loc config.compression (t.save loc [])
      (((visibleFiles config t (base.join name)).map Prod.fst).map (item config (base.join name)))
      es u) : IsArchive config base t name (Archive.encode config.compression es) := by
  have hsaved := FileTree.saved_save (FileTree.writable_of_target? target) []
  obtain ⟨mode, hfile⟩ := FileTree.file?_save (FileTree.writable_of_target? target) []
  have hentries := packs.entries hfile fun i _ hi f hf => hsaved.read_back hf hi
  rw [List.forall₂_map_left_iff, List.forall₂_map_left_iff, List.forall₂_iff_zip] at hentries
  obtain ⟨hlength, hentry⟩ := hentries
  refine ⟨es, rfl, List.forall₂_iff_zip.mpr ⟨hlength, fun {x e} hmem => ?_⟩, fun stored => ?_⟩
  · obtain ⟨hname, hsame⟩ := hentry hmem
    refine ⟨hname, fun hout => ?_⟩
    have hread := FileTree.read_of_mem_filesIn (List.mem_filter.mp (List.of_mem_zip hmem).1).1
    obtain ⟨l, hl, -⟩ := FileTree.read_eq_ok.mp hread
    obtain ⟨f, hf, rfl⟩ := hsame fun hloc => by
      cases (hsaved.toGrown.locate hl).symm.trans hloc
      exact hout _ hl target
    cases hf.symm.trans hread
    exact entry_item config (base.join name) x
  · rw [stored] at packs ⊢
    exact packs.read?_encode

/-- A build that comes to its end has saved a whole archive. -/
theorem build_complete {out : Path} (named : name ≠ [])
    (present : t.isDirectory (base.join name) = true)
    (ended : (build config base name t).outcome = .ok out) :
    ∃ loc bytes, t.target? (archivePath config base name) = some loc ∧
      (build config base name t).tree = t.save loc bytes ∧
      IsArchive config base t name bytes := by
  cases target : t.target? (archivePath config base name) with
  | none =>
    obtain ⟨e, he⟩ := FileTree.target?_eq_none.mp target
    rw [build_of_create_error he named present] at ended
    cases ended
  | some loc =>
    obtain ⟨done, es, v, stop, packs, hbuild, ⟨rfl, -⟩ | ⟨i, rest, e, -, -, rfl⟩⟩ :=
      build_cases target named present
    · exact ⟨loc, _, rfl, congrArg Report.tree hbuild, isArchive_of_packs target packs⟩
    · rw [hbuild] at ended
      cases ended

/-- Only an archive that cannot be made, or a file that cannot be packed, ends a batch. -/
theorem isNoTheme_of_buildEach {e : Failure}
    (failed : (buildEach config base names t).outcome = .error e) : e.isNoTheme = false := by
  induction names generalizing t with
  | nil => cases failed
  | cons n ns ih =>
    rcases hbuild : build config base n t with ⟨e' | out, u, events⟩
    · cases he : e'.isNoTheme with
      | true =>
        rw [buildEach_of_noTheme hbuild he] at failed
        exact ih failed
      | false =>
        rw [buildEach_of_error hbuild he] at failed
        cases failed
        exact he
    · rw [buildEach_of_ok hbuild] at failed
      cases hrest : (buildEach config base ns u).outcome with
      | error e' =>
        rw [hrest] at failed
        cases failed
        exact ih hrest
      | ok outs =>
        rw [hrest] at failed
        cases failed

/-- Nor is it reported as no theme that a base directory cannot be listed. -/
theorem isNoTheme_of_buildAll {e : Failure}
    (failed : (buildAll config base t).outcome = .error e) : e.isNoTheme = false := by
  cases hlist : t.list base with
  | error cause =>
    rw [buildAll_of_unlistable hlist] at failed
    cases failed
    rfl
  | ok ns =>
    rw [buildAll_of_list hlist] at failed
    exact isNoTheme_of_buildEach failed

/-- Whether the bytes are the archive of the last of the themes `names` whose archive goes where
that of `name` does, with the files that this theme had when its turn came. -/
def IsLastArchive (config : Config) (base : Path) (t : FileTree) (names : List Bytes) (name : Bytes)
    (bytes : Bytes) : Prop :=
  ∃ before m after, names = before ++ m :: after ∧
    t.target? (archivePath config base m) = t.target? (archivePath config base name) ∧
    (∀ k ∈ after,
      t.target? (archivePath config base k) ≠ t.target? (archivePath config base name)) ∧
    IsArchive config base (buildEach config base before t).tree m bytes

namespace IsLastArchive

theorem congr (last : IsLastArchive config base t names n bytes)
    (h : t.target? (archivePath config base n) = t.target? (archivePath config base name)) :
    IsLastArchive config base t names name bytes := by
  unfold IsLastArchive
  rw [← h]
  exact last

theorem head (whole : IsArchive config base t n bytes)
    (last : ∀ k ∈ names,
      t.target? (archivePath config base k) ≠ t.target? (archivePath config base n)) :
    IsLastArchive config base t (n :: names) n bytes :=
  ⟨[], n, names, rfl, rfl, last, whole⟩

/-- The theme that is built first does not matter to one behind it. -/
theorem cons {out : Path} {events : List Event}
    (built : build config base n t = ⟨.ok out, u, events⟩)
    (last : IsLastArchive config base u names name bytes) :
    IsLastArchive config base t (n :: names) name bytes := by
  have hlater := later_build config base n t
  rw [built] at hlater
  obtain ⟨before, m, after, rfl, hm, hafter, whole⟩ := last
  simp only [hlater.target?] at hm hafter
  refine ⟨n :: before, m, after, rfl, hm, hafter, ?_⟩
  rwa [buildEach_of_ok built]

end IsLastArchive

/-- A batch that comes to its end has a whole archive at the place of each theme's. -/
private theorem buildEach_complete {outs : List Path}
    (theme : ∀ n ∈ names, n ≠ [] ∧ t.isDirectory (base.join n) = true)
    (ended : (buildEach config base names t).outcome = .ok outs) (hname : name ∈ names) :
    ∃ loc g, t.target? (archivePath config base name) = some loc ∧
      (buildEach config base names t).tree.file? loc = some g ∧
      IsLastArchive config base t names name g.bytes := by
  induction names generalizing t outs name with
  | nil => cases hname
  | cons n ns ih =>
    rw [List.forall_mem_cons] at theme
    obtain ⟨⟨named, present⟩, theme⟩ := theme
    have hlater := later_build config base n t
    rcases hbuild : build config base n t with ⟨e | out, u, events⟩
    · have hends := isNoTheme_of_build named present (congrArg Report.outcome hbuild)
      rw [buildEach_of_error hbuild hends] at ended
      cases ended
    · obtain ⟨loc, bytes, target, htree, whole⟩ :=
        build_complete named present (congrArg Report.outcome hbuild)
      rw [hbuild] at hlater htree
      rw [buildEach_of_ok hbuild] at ended ⊢
      have hrest : ∀ m ∈ ns, ∃ l g, t.target? (archivePath config base m) = some l ∧
          (buildEach config base ns u).tree.file? l = some g ∧
          IsLastArchive config base t (n :: ns) m g.bytes := by
        intro m hm
        cases houtcome : (buildEach config base ns u).outcome with
        | error e =>
          rw [houtcome] at ended
          cases ended
        | ok outs =>
          obtain ⟨l, g, hl, hg, last⟩ := ih
            (fun k hk => (hlater.isDirectory _).symm ▸ theme k hk) houtcome hm
          exact ⟨l, g, hlater.target? _ ▸ hl, hg, last.cons hbuild⟩
      obtain rfl | hname := List.mem_cons.mp hname
      · by_cases hagain : ∃ m ∈ ns, t.target? (archivePath config base m) = some loc
        · obtain ⟨m, hm, hmloc⟩ := hagain
          obtain ⟨l, g, hl, hg, last⟩ := hrest m hm
          cases hmloc.symm.trans hl
          exact ⟨loc, g, target, hg, last.congr (hmloc.trans target.symm)⟩
        · -- nothing behind the theme is saved at the place of its archive
          have hstays := (later_buildEach config base ns u).file?_ne (l := loc)
            fun ⟨m, hm, hl⟩ => hagain ⟨m, hm, hlater.target? _ ▸ hl⟩
          obtain ⟨mode, hfile⟩ := FileTree.file?_save (FileTree.writable_of_target? target) bytes
          refine ⟨loc, _, target, hstays.trans (htree ▸ hfile), .head whole fun k hk hsame => ?_⟩
          exact hagain ⟨k, hk, hsame.trans target⟩
      · exact hrest name hname

/-- The path of each theme's archive leads to a whole archive when all themes have been built. -/
theorem buildAll_complete {outs : List Path} {d : Name}
    (ended : (buildAll config base t).outcome = .ok outs)
    (hd : d ∈ visibleDirectories config t base) :
    ∃ g, (buildAll config base t).tree.read (archivePath config base d.bytes) = .ok g ∧
      IsLastArchive config base t ((visibleDirectories config t base).map Name.bytes) d.bytes
        g.bytes := by
  cases hlist : t.list base with
  | error e =>
    rw [buildAll_of_unlistable hlist] at ended
    cases ended
  | ok ns =>
    rw [buildAll_of_list hlist] at ended ⊢
    obtain ⟨loc, g, target, hfile, last⟩ := buildEach_complete
      (List.forall_mem_map.mpr fun n hn => ⟨n.isName.1, isDirectory_of_mem hn⟩) ended
      (List.mem_map_of_mem hd)
    have hlater := later_buildEach config base
      ((visibleDirectories config t base).map Name.bytes) t
    exact ⟨g, FileTree.read_of_target? ((hlater.target? _).trans target) hfile, last⟩

end Theme
end ThemeBuilder
