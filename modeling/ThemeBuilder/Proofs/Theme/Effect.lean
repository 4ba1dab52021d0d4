import ThemeBuilder.Proofs.FileTree.Rewriting
import ThemeBuilder.Proofs.Theme.Build
import ThemeBuilder.Proofs.Theme.Listing

/-! What making archives and listings does to a tree, whatever is packed or compiled and however it
ends: the output is saved, once, and nothing else. Only a batch reports that it skips a theme, and
what fails in the build of a theme that is there is never passed over in this way. -/
namespace ThemeBuilder
open FileTree (Later SavedAlong)

/-- The themes that are reported as skipped. -/
def skipped (events : List Event) : List Bytes :=
  events.filterMap fun
    | .diagnostic (.skippingTheme name _) => some name
    | _ => none

@[simp]
theorem skipped_nil : skipped [] = [] := rfl

@[simp]
theorem skipped_notice_cons (n : Notice) (events : List Event) :
    skipped (.notice n :: events) = skipped events := rfl

@[simp]
theorem skipped_append (xs ys : List Event) : skipped (xs ++ ys) = skipped xs ++ skipped ys :=
  List.filterMap_append

@[simp]
theorem skipped_traces (xs : List (Item × Archive.Entry)) :
    skipped (xs.flatMap fun (i, e) => i.traces e.data.length) = [] := by
  induction xs with
  | nil => rfl
  | cons x xs ih =>
    rw [List.flatMap_cons, skipped_append, ih]
    obtain ⟨⟨path, entryName, _ | n⟩, e⟩ := x <;> rfl

namespace Theme
variable {config : Config} {base : Path} {name : Bytes} {names : List Bytes} {t u : FileTree}
  {loc : Location}

/-- The path of the archive of a theme. -/
abbrev archivePath (config : Config) (base : Path) (name : Bytes) : Path :=
  base.join (config.archiveFor name)

/-- The path of the definition listing. -/
abbrev listingPath (config : Config) (base : Path) : Path :=
  base.join (Utf8.encode config.listingFile)

@[simp]
theorem skipped_skips (keep : Filter) (t : FileTree) (dir : Path) :
    skipped (skips keep t dir) = [] := by
  unfold skips
  split
  · rfl
  · simp [skipped]

/-- The archive of a theme, where one can be made, is complete whatever becomes of the files. Only
where a file cannot be packed does the build fail, with that file's failure. -/
theorem build_cases (target : t.target? (archivePath config base name) = some loc)
    (named : name ≠ []) (present : t.isDirectory (base.join name) = true) :
    ∃ done es v stop, Packing.Packs loc config.compression (t.save loc []) done es v ∧
      build config base name t = ⟨stop.elim (.ok (archivePath config base name)) .error,
        t.save loc (Archive.encode config.compression es),
        skips (visibleFile config) t (base.join name) ++ (.notice (.building (Utf8.lossy name)) ::
          ((done.zip es).flatMap (fun (i, e) => i.traces e.data.length) ++
            stop.elim [.diagnostic (.archiveWritten (archivePath config base name)
              (visibleFiles config t (base.join name)).length)] fun _ => []))⟩ ∧
      (((visibleFiles config t (base.join name)).map Prod.fst).map (item config (base.join name)) =
          done ∧ stop = none ∨
        ∃ i rest e, ((visibleFiles config t (base.join name)).map Prod.fst).map
            (item config (base.join name)) = done ++ i :: rest ∧
          i.fault? v = some e ∧ stop = some e) := by
  obtain ⟨done, es, v, stop, packs, hwrite, hstop⟩ := Packing.writeArchive_cases target
    config.compression
    (((visibleFiles config t (base.join name)).map Prod.fst).map (item config (base.join name)))
  refine ⟨done, es, v, stop, packs, build_of_writeArchive named present hwrite, ?_⟩
  exact hstop.imp_left (And.imp_left Eq.symm)

theorem build_of_target (target : t.target? (archivePath config base name) = some loc)
    (named : name ≠ []) (present : t.isDirectory (base.join name) = true) :
    ∃ bytes, (build config base name t).tree = t.save loc bytes ∧
      skipped (build config base name t).events = [] := by
  obtain ⟨done, es, v, stop, -, hbuild, -⟩ := build_cases target named present
  have hlast : skipped (stop.elim [.diagnostic (.archiveWritten (archivePath config base name)
      (visibleFiles config t (base.join name)).length)] fun _ => []) = [] := by
    cases stop <;> rfl
  rw [hbuild]
  exact ⟨_, rfl, by simp [hlast]⟩

/-- A theme gives its archive or fails for a reason that ends a batch. -/
theorem build_outcome (named : name ≠ []) (present : t.isDirectory (base.join name) = true) :
    (build config base name t).outcome = .ok (archivePath config base name) ∨
      ∃ e, (build config base name t).outcome = .error e ∧ e.isNoTheme = false := by
  cases target : t.target? (archivePath config base name) with
  | none =>
    obtain ⟨e, he⟩ := FileTree.target?_eq_none.mp target
    rw [build_of_create_error he named present]
    exact .inr ⟨_, rfl, rfl⟩
  | some loc =>
    obtain ⟨done, es, v, stop, -, hbuild, ⟨-, rfl⟩ | ⟨i, rest, e, -, hi, rfl⟩⟩ :=
      build_cases target named present
    · exact .inl (congrArg Report.outcome hbuild)
    · exact .inr ⟨e, congrArg Report.outcome hbuild, Packing.isNoTheme_of_fault? hi⟩

/-- The failure of a theme's build ends a batch. -/
theorem isNoTheme_of_build {e : Failure} (named : name ≠ [])
    (present : t.isDirectory (base.join name) = true)
    (failed : (build config base name t).outcome = .error e) : e.isNoTheme = false := by
  have houtcome : (build config base name t).outcome = .ok (archivePath config base name) ∨ _ :=
    build_outcome named present
  rw [failed] at houtcome
  obtain hok | ⟨e', herror, hends⟩ := houtcome
  · cases hok
  · cases herror
    exact hends

/-- A build saves the archive of the theme or changes nothing, and skips no theme. -/
theorem build_effect (config : Config) (base : Path) (name : Bytes) (t : FileTree) :
    SavedAlong t (build config base name t).tree [archivePath config base name] ∧
      skipped (build config base name t).events = [] := by
  cases hdir : directory? t base name with
  | none =>
    rw [build_of_missing config hdir]
    exact ⟨.refl .., rfl⟩
  | some dir =>
    obtain ⟨hnamed, hpresent⟩ := directory?_isSome.mp (Option.isSome_of_eq_some hdir)
    cases htarget : t.target? (archivePath config base name) with
    | none =>
      obtain ⟨e, he⟩ := FileTree.target?_eq_none.mp htarget
      rw [build_of_create_error he hnamed hpresent]
      exact ⟨.refl .., by simp⟩
    | some loc =>
      obtain ⟨bytes, htree, hskip⟩ := build_of_target htarget hnamed hpresent
      rw [htree]
      exact ⟨.save htarget bytes, hskip⟩

/-- The tree after a build. -/
theorem later_build (config : Config) (base : Path) (name : Bytes) (t : FileTree) :
    Later t (build config base name t).tree fun l =>
      t.target? (archivePath config base name) = some l := by
  refine (build_effect config base name t).1.later.mono ?_
  rintro l ⟨p, hp, hl⟩
  exact List.mem_singleton.mp hp ▸ hl

private theorem exists_compileSources (out : Location) (pending : Bytes) (sources : List Path)
    (t : FileTree) : ∃ bytes, (compileSources out pending sources t).tree = t.append out bytes := by
  induction sources generalizing pending t with
  | nil => exact ⟨pending, rfl⟩
  | cons source sources ih =>
    rw [compileSources]
    cases hf : t.read source with
    | error e =>
      rw [Action.attempt_bind, Action.read_of_error hf]
      exact ⟨pending, rfl⟩
    | ok f =>
      rw [Action.attempt_bind, Action.read_of_ok hf]
      dsimp only
      rcases Style.bufferAll pending (Style.listingPieces f.bytes) with ⟨written, held⟩
      obtain ⟨bytes, h⟩ := ih held (t.append out written)
      refine ⟨written ++ bytes, ?_⟩
      rw [← FileTree.append_append]
      simpa using h

theorem buildListing_of_target (target : t.target? (listingPath config base) = some loc)
    (named : name ≠ []) (present : t.isDirectory (base.join name) = true) :
    ∃ bytes, (buildListing config base name t).tree = t.save loc bytes := by
  have hwritable := FileTree.writable_of_target? target
  have hpresent := ((FileTree.later_save hwritable []).isDirectory _).trans present
  obtain ⟨bytes, h⟩ := exists_compileSources loc []
    (((sources config (t.save loc []) (base.join name)).map Prod.fst).map
      fun n => (base.join name).join n.bytes) (t.save loc [])
  rw [FileTree.append_save hwritable, List.nil_append] at h
  refine ⟨bytes, ?_⟩
  rw [buildListing, Action.bind_of_ok (Action.create_of_ok (FileTree.target?_eq_some.mp target)),
    Action.look_bind, directory?_eq_some named hpresent]
  dsimp only
  rw [Action.bind_of_ok (styleSources_eq config hpresent)]
  rcases hcompile : compileSources loc [] (((sources config (t.save loc []) (base.join name)).map
    Prod.fst).map fun n => (base.join name).join n.bytes) (t.save loc []) with ⟨_ | _, u, events⟩
  · rw [hcompile] at h
    rw [Action.bind_of_error hcompile]
    exact h
  · rw [hcompile] at h
    rw [Action.bind_of_ok hcompile]
    exact h

/-- A listing is saved, whatever becomes of the sources, or nothing changes. -/
theorem savedAlong_buildListing (config : Config) (base : Path) (name : Bytes) (t : FileTree) :
    SavedAlong t (buildListing config base name t).tree [listingPath config base] := by
  cases htarget : t.target? (listingPath config base) with
  | none =>
    obtain ⟨e, he⟩ := FileTree.target?_eq_none.mp htarget
    rw [buildListing_of_create_error he]
    exact .refl ..
  | some loc =>
    cases hdir : directory? t base name with
    | none =>
      rw [buildListing_of_missing htarget hdir]
      exact .save htarget []
    | some dir =>
      obtain ⟨hnamed, hpresent⟩ := directory?_isSome.mp (Option.isSome_of_eq_some hdir)
      obtain ⟨bytes, htree⟩ := buildListing_of_target htarget hnamed hpresent
      rw [htree]
      exact .save htarget bytes

private theorem buildEach_cons (config : Config) (base : Path) (name : Bytes) (names : List Bytes) :
    buildEach config base (name :: names) =
      ((build config base name).attempt >>= fun
        | .ok out => (buildEach config base names >>= fun outs => pure (out :: outs))
        | .error e =>
          if e.isNoTheme then
            (Action.log (.skippingTheme name e) >>= fun _ => buildEach config base names)
          else Action.fail e) := by
  rw [buildEach, buildEachOn]
  rfl

theorem buildEach_of_ok {out : Path} {events : List Event}
    (h : build config base name t = ⟨.ok out, u, events⟩) (names : List Bytes) :
    buildEach config base (name :: names) t =
      ⟨(buildEach config base names u).outcome.map (out :: ·), (buildEach config base names u).tree,
        events ++ (buildEach config base names u).events⟩ := by
  rw [buildEach_cons, Action.attempt_bind, h]
  dsimp only
  rcases hrest : buildEach config base names u with ⟨e | outs, v, more⟩
  · rw [Action.bind_of_error hrest]
    rfl
  · rw [Action.bind_of_ok hrest]
    simp [Except.map]

theorem buildEach_of_noTheme {e : Failure} {events : List Event}
    (h : build config base name t = ⟨.error e, u, events⟩) (he : e.isNoTheme = true)
    (names : List Bytes) :
    buildEach config base (name :: names) t =
      ⟨(buildEach config base names u).outcome, (buildEach config base names u).tree,
        events ++ .diagnostic (.skippingTheme name e) :: (buildEach config base names u).events⟩ := by
  rw [buildEach_cons, Action.attempt_bind, h]
  simp [he]

theorem buildEach_of_error {e : Failure} {events : List Event}
    (h : build config base name t = ⟨.error e, u, events⟩) (he : e.isNoTheme = false)
    (names : List Bytes) :
    buildEach config base (name :: names) t = ⟨.error e, u, events⟩ := by
  rw [buildEach_cons, Action.attempt_bind, h]
  simp [he]

/-- The themes that a batch comes to: all up to the first whose build fails. -/
def reached (config : Config) (base : Path) : List Bytes → FileTree → List Bytes
  | [], _ => []
  | name :: names, t =>
    name :: match build config base name t with
      | ⟨.ok _, u, _⟩ => reached config base names u
      | ⟨.error e, u, _⟩ => if e.isNoTheme then reached config base names u else []

/-- A batch goes on in the tree that the first theme's build leaves, or it ends there. -/
theorem buildEach_cons_cases (config : Config) (base : Path) (name : Bytes) (names : List Bytes)
    (t : FileTree) :
    (buildEach config base (name :: names) t).tree =
          (buildEach config base names (build config base name t).tree).tree ∧
        reached config base (name :: names) t =
          name :: reached config base names (build config base name t).tree ∨
      (buildEach config base (name :: names) t).tree = (build config base name t).tree ∧
        reached config base (name :: names) t = [name] := by
  rcases h : build config base name t with ⟨e | out, u, events⟩
  · rw [reached, h]
    cases he : e.isNoTheme with
    | true =>
      rw [buildEach_of_noTheme h he]
      exact .inl ⟨rfl, congrArg (name :: ·) (if_pos he)⟩
    | false =>
      rw [buildEach_of_error h he]
      exact .inr ⟨rfl, congrArg (name :: ·) (if_neg (by simp [he]))⟩
  · rw [reached, h, buildEach_of_ok h]
    exact .inl ⟨rfl, rfl⟩

theorem mem_of_mem_reached (h : name ∈ reached config base names t) : name ∈ names := by
  induction names generalizing t with
  | nil => cases h
  | cons n ns ih =>
    obtain ⟨-, hreached⟩ | ⟨-, hreached⟩ := buildEach_cons_cases config base n ns t
    · rw [hreached, List.mem_cons] at h
      exact List.mem_cons.mpr (h.imp_right ih)
    · rw [hreached, List.mem_singleton] at h
      exact List.mem_cons.mpr (.inl h)

/-- A batch saves archives of themes that it comes to, and nothing else. -/
theorem savedAlong_buildEach (config : Config) (base : Path) (names : List Bytes) (t : FileTree) :
    SavedAlong t (buildEach config base names t).tree
      ((reached config base names t).map (archivePath config base)) := by
  induction names generalizing t with
  | nil => exact .refl ..
  | cons n ns ih =>
    have hfirst := (build_effect config base n t).1
    obtain ⟨htree, hreached⟩ | ⟨htree, hreached⟩ := buildEach_cons_cases config base n ns t
    · rw [htree, hreached]
      exact hfirst.trans (ih _)
    · rw [htree, hreached]
      exact hfirst

/-- The tree after a batch. -/
theorem later_buildEach (config : Config) (base : Path) (names : List Bytes) (t : FileTree) :
    Later t (buildEach config base names t).tree fun l =>
      ∃ n ∈ names, t.target? (archivePath config base n) = some l := by
  refine (savedAlong_buildEach config base names t).later.mono ?_
  rintro l ⟨p, hp, hl⟩
  obtain ⟨n, hn, rfl⟩ := List.mem_map.mp hp
  exact ⟨n, mem_of_mem_reached hn, hl⟩

end Theme
end ThemeBuilder
