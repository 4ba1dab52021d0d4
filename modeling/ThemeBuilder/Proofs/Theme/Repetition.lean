import ThemeBuilder.Proofs.Theme.Batch

/-! Making archives and listings once more, in the tree that is left of the first time: they come
out the same, and so does whatever stopped the first time. -/
namespace ThemeBuilder
open FileTree (Later)

private theorem FileTree.Grown.isFileAt {t u : FileTree} {W : Location → Prop} {l : Location}
    (h : Grown t u W) (hf : ∃ f, t.node? l = some (.file f)) : ∃ f, u.node? l = some (.file f) := by
  obtain he | ⟨-, ho⟩ := h.node? l
  · rwa [he]
  · exact ho.file

/-- What was done on the tree `u` repeats what was done on the tree `t`, where files were saved
along paths. -/
def Repeats {α : Type} (r s : Report α) (t u : FileTree) : Prop :=
  ∃ ws, Alike r s t u ws ∧ ∀ w ∈ ws, ∃ p, t.target? p = some w.1

section
variable {α : Type} {r s : Report α} {t u : FileTree}

/-- One file is saved. -/
private theorem Alike.repeats {p : Path} {loc : Location} {bytes : Bytes}
    (h : Alike r s t u [(loc, bytes)]) (target : t.target? p = some loc) : Repeats r s t u :=
  ⟨_, h, fun _ hw => ⟨p, List.mem_singleton.mp hw ▸ target⟩⟩

/-- Nothing is saved. -/
private theorem Repeats.unchanged {outcome : Except Failure α} {xs ys : List Event}
    (h : printed ys = printed xs) : Repeats ⟨outcome, t, xs⟩ ⟨outcome, u, ys⟩ t u :=
  ⟨[], ⟨rfl, h, rfl, rfl⟩, fun _ hw => absurd hw List.not_mem_nil⟩

/-- What is listed before does not matter. -/
private theorem Repeats.after_skips (h : Repeats r s t u) {keep keep' : Theme.Filter}
    {v v' : FileTree} {dir dir' : Path} :
    Repeats ⟨r.outcome, r.tree, Theme.skips keep v dir ++ r.events⟩
      ⟨s.outcome, s.tree, Theme.skips keep' v' dir' ++ s.events⟩ t u := by
  obtain ⟨ws, halike, hws⟩ := h
  refine ⟨ws, ⟨halike.outcome, ?_, halike.left, halike.right⟩, hws⟩
  simpa [Report.notices_eq] using halike.notices

end

namespace Theme
variable {config : Config} {base : Path} {name : Bytes} {names : List Bytes} {t u : FileTree}
  {W : Location → Prop} {loc : Location}

/-- The archives of the themes that a batch comes to are there in the end. -/
private theorem filled_of_reached (theme : ∀ n ∈ names, n ≠ [] ∧ t.isDirectory (base.join n) = true)
    (hname : name ∈ reached config base names t)
    (target : t.target? (archivePath config base name) = some loc) :
    ∃ f, (buildEach config base names t).tree.node? loc = some (.file f) := by
  induction names generalizing t with
  | nil => cases hname
  | cons n ns ih =>
    rw [List.forall_mem_cons] at theme
    have hlater := later_build config base n t
    have hown : n = name → ∃ f, (build config base n t).tree.node? loc = some (.file f) := by
      rintro rfl
      obtain ⟨bytes, htree, -⟩ := build_of_target target theme.1.1 theme.1.2
      obtain ⟨mode, hfile⟩ := FileTree.file?_save (FileTree.writable_of_target? target) bytes
      exact ⟨_, htree ▸ FileTree.file?_eq_some.mp hfile⟩
    obtain ⟨htree, hreached⟩ | ⟨htree, hreached⟩ := buildEach_cons_cases config base n ns t
    · rw [hreached, List.mem_cons] at hname
      rw [htree]
      obtain rfl | hname := hname
      · exact (later_buildEach ..).toGrown.isFileAt (hown rfl)
      · refine ih (fun m hm => ?_) hname ((hlater.target? _).trans target)
        rw [hlater.isDirectory]
        exact theme.2 m hm
    · rw [hreached, List.mem_singleton] at hname
      rw [htree]
      exact hown hname.symm

/-- A theme gives the same archive after other files were made, or the same failure if making the
archive is refused for the same reason. -/
private theorem repeats_build (h : Later t u W) (named : name ≠ [])
    (present : t.isDirectory (base.join name) = true)
    (targets : ∀ l, t.target? (archivePath config base name) = some l → W l)
    (apart : u.Avoids (base.join name) (shown config) W)
    (refused : ∀ e, t.create (archivePath config base name) = .error e →
      u.create (archivePath config base name) = .error e) :
    Repeats (build config base name t) (build config base name u) t u := by
  cases target : t.target? (archivePath config base name) with
  | none =>
    obtain ⟨e, he⟩ := FileTree.target?_eq_none.mp target
    rw [build_of_create_error he named present,
      build_of_create_error (refused e he) named ((h.isDirectory _).trans present)]
    exact .unchanged (by simp)
  | some loc =>
    obtain ⟨bytes, halike⟩ := alike_build h target (targets loc target) named present apart
    exact halike.repeats target

private theorem buildEach_cons_of_ok {out : Path}
    (hok : (build config base name t).outcome = .ok out) (names : List Bytes) :
    (buildEach config base (name :: names) t).tree =
        (buildEach config base names (build config base name t).tree).tree ∧
      reached config base (name :: names) t =
        name :: reached config base names (build config base name t).tree := by
  rcases hbuild : build config base name t with ⟨_, v, events⟩
  rw [hbuild] at hok
  cases hok
  rw [buildEach_of_ok hbuild, reached, hbuild]
  exact ⟨rfl, rfl⟩

private theorem repeats_buildEach_error {e : Failure}
    (h : Repeats (build config base name t) (build config base name u) t u)
    (failed : (build config base name t).outcome = .error e) (hends : e.isNoTheme = false)
    (names : List Bytes) :
    Repeats (buildEach config base (name :: names) t) (buildEach config base (name :: names) u)
      t u := by
  obtain ⟨ws, ⟨houtcome, hnotices, hleft, hright⟩, hws⟩ := h
  rw [failed] at houtcome
  rcases hbuild : build config base name t with ⟨_, v, events⟩
  rcases hagain : build config base name u with ⟨_, v', events'⟩
  rw [hbuild] at failed hnotices hleft
  rw [hagain] at houtcome hnotices hright
  cases failed
  cases houtcome
  rw [buildEach_of_error hbuild hends, buildEach_of_error hagain hends]
  exact ⟨ws, ⟨rfl, hnotices, hleft, hright⟩, hws⟩

/-- A batch is repeated when its first theme is and so is the rest of it. -/
private theorem repeats_buildEach_cons {out : Path}
    (h : Repeats (build config base name t) (build config base name u) t u)
    (hok : (build config base name t).outcome = .ok out)
    (hrest : Repeats (buildEach config base names (build config base name t).tree)
      (buildEach config base names (build config base name u).tree)
      (build config base name t).tree (build config base name u).tree) :
    Repeats (buildEach config base (name :: names) t) (buildEach config base (name :: names) u)
      t u := by
  have hlater := later_build config base name t
  obtain ⟨ws, ⟨houtcome, hnotices, hleft, hright⟩, hws⟩ := h
  obtain ⟨xs, hrest, hxs⟩ := hrest
  rw [hok] at houtcome
  rcases hbuild : build config base name t with ⟨_, v, events⟩
  rcases hagain : build config base name u with ⟨_, v', events'⟩
  rw [hbuild] at hok hnotices hleft hrest hxs hlater
  rw [hagain] at houtcome hnotices hright hrest
  cases hok
  cases houtcome
  cases hleft
  cases hright
  rw [buildEach_of_ok hbuild, buildEach_of_ok hagain]
  refine ⟨ws ++ xs, ⟨congrArg (Except.map (out :: ·)) hrest.outcome, ?_, ?_, ?_⟩, fun w hw => ?_⟩
  · rw [Report.notices_eq, Report.notices_eq, printed_append, printed_append]
    exact congrArg₂ (· ++ ·) hnotices hrest.notices
  · rw [FileTree.saveAll_append]
    exact hrest.left
  · rw [FileTree.saveAll_append]
    exact hrest.right
  · obtain hw | hw := List.mem_append.mp hw
    · exact hws w hw
    · obtain ⟨p, hp⟩ := hxs w hw
      exact ⟨p, hlater.target? p ▸ hp⟩

/-- A batch is repeated in the tree that the first one leaves, even after some of its archives were
saved again. By induction on the themes: the trees of the two runs differ at places in `W`, and at
these there are files when the first run ends. -/
theorem buildEach_again (theme : ∀ n ∈ names, n ≠ [] ∧ t.isDirectory (base.join n) = true)
    (later : Later (buildEach config base names t).tree u W)
    (targets : ∀ n ∈ reached config base names t, ∀ l,
      t.target? (archivePath config base n) = some l → W l)
    (filled : ∀ l, W l → ∃ f, (buildEach config base names t).tree.node? l = some (.file f))
    (apart : ∀ n ∈ reached config base names t,
      (buildEach config base names t).tree.Avoids (base.join n) (shown config) W) :
    Repeats (buildEach config base names t) (buildEach config base names u) t u := by
  induction names generalizing t u with
  | nil => exact .unchanged rfl
  | cons n ns ih =>
    rw [List.forall_mem_cons] at theme
    obtain ⟨named, present⟩ := theme.1
    have hmem : n ∈ reached config base (n :: ns) t := List.mem_cons_self
    have hfirst : Later t (buildEach config base (n :: ns) t).tree W := by
      refine (savedAlong_buildEach config base (n :: ns) t).later.mono ?_
      rintro l ⟨p, hp, hl⟩
      obtain ⟨m, hm, rfl⟩ := List.mem_map.mp hp
      exact targets m hm l hl
    have hboth := hfirst.trans later
    have hpresent := (hboth.isDirectory (base.join n)).trans present
    have hback := later.toGrown.fill (FileTree.Grown.refl _ W) filled
    -- making an archive is refused only where the first run ends, when all its files are there
    have hrefused : ∀ e, t.create (archivePath config base n) = .error e →
        u.create (archivePath config base n) = .error e := by
      intro e he
      rw [buildEach_of_error (build_of_create_error he named present) rfl] at later filled
      refine later.toGrown.create_error_eq (fun l hl => ?_) he
      obtain ⟨f, hf⟩ := filled l hl
      simp [hf]
    have hrepeats := repeats_build hboth named present (targets n hmem)
      (hback.avoids hpresent (apart n hmem)) hrefused
    cases houtcome : (build config base n t).outcome with
    | error e =>
      have hends := isNoTheme_of_build named present houtcome
      exact repeats_buildEach_error hrepeats houtcome hends ns
    | ok out =>
      have hleft := later_build config base n t
      have hright := (later_build config base n u).mono fun l hl =>
        targets n hmem l (hboth.target? _ ▸ hl)
      obtain ⟨hrun, hreached⟩ := buildEach_cons_of_ok houtcome ns
      rw [hreached] at targets apart
      rw [hrun] at later filled apart
      exact repeats_buildEach_cons hrepeats houtcome <| ih
        (fun m hm => ⟨(theme.2 m hm).1, (hleft.isDirectory _).trans (theme.2 m hm).2⟩)
        (later.trans hright)
        (fun m hm l hl => targets m (List.mem_cons_of_mem n hm) l (hleft.target? _ ▸ hl)) filled
        fun m hm => apart m (List.mem_cons_of_mem n hm)

/-- The archives of some themes are made once more, when none of them is among the files that a
theme shows. -/
private theorem buildEach_atTime (theme : ∀ n ∈ names, n ≠ [] ∧ t.isDirectory (base.join n) = true)
    (now : Int)
    (apart : ∀ m ∈ reached config base names t, ∀ n ∈ reached config base names t,
      ∀ l, t.target? (archivePath config base n) = some l →
        (buildEach config base names t).tree.Avoids (base.join m) (shown config) (· = l)) :
    Repeats (buildEach config base names t)
      (buildEach config base names ((buildEach config base names t).tree.atTime now)) t
      ((buildEach config base names t).tree.atTime now) := by
  have filled : ∀ l, (∃ n ∈ reached config base names t,
      t.target? (archivePath config base n) = some l) →
      ∃ f, (buildEach config base names t).tree.node? l = some (.file f) := by
    rintro l ⟨n, hn, hl⟩
    exact filled_of_reached theme hn hl
  refine buildEach_again theme (FileTree.later_atTime _ now _) (fun n hn l hl => ⟨n, hn, hl⟩)
    filled ?_
  rintro m hm x hx hg l ⟨n, hn, hl⟩
  exact apart m hm n hn l hl x hx hg l rfl

/-- The visible directories are the same ones after files were made. -/
private theorem visibleDirectories_of_later (config : Config) {ns : List Name} (h : Later t u W)
    (listed : t.list base = .ok ns) : (∃ ms, u.list base = .ok ms) ∧
      visibleDirectories config u base = visibleDirectories config t base := by
  obtain ⟨d, hdir, hnode, rfl⟩ := FileTree.list_eq_ok.mp listed
  have hlist := FileTree.list_of_isDirectory (h.locate hdir) (h.directory hnode)
  refine ⟨⟨_, hlist⟩, ?_⟩
  rw [visibleDirectories, hlist, visibleDirectories, listed]
  simp only [h.isDirectory]
  refine h.filter_children d _ fun n _ hn => ?_
  -- what is new in the directory is no directory itself
  have hmissing : t.isDirectory (base.join n.bytes) = false := by
    rw [← Bool.not_eq_true, FileTree.isDirectory_iff]
    rintro ⟨l, hl, -⟩
    exact FileTree.locate_join_ne hdir hnode hn l hl
  rw [hmissing, Bool.false_and]

/-- The archives of all themes are made once more. -/
theorem buildAll_again (config : Config) (base : Path) (t : FileTree) (now : Int)
    (apart : ∀ m ∈ reached config base ((visibleDirectories config t base).map Name.bytes) t,
      ∀ n ∈ reached config base ((visibleDirectories config t base).map Name.bytes) t,
      ∀ l, t.target? (archivePath config base n) = some l →
        (buildAll config base t).tree.Avoids (base.join m) (shown config) (· = l)) :
    Repeats (buildAll config base t)
      (buildAll config base ((buildAll config base t).tree.atTime now)) t
      ((buildAll config base t).tree.atTime now) := by
  cases hlist : t.list base with
  | error e =>
    have hagain := (FileTree.list_atTime t now base).trans hlist
    rw [buildAll_of_unlistable hlist, buildAll_of_unlistable hagain]
    exact .unchanged rfl
  | ok ns =>
    rw [buildAll_of_list hlist] at apart ⊢
    dsimp only at apart ⊢
    have hlater := (later_buildEach config base
      ((visibleDirectories config t base).map Name.bytes) t).trans (FileTree.later_atTime _ now _)
    obtain ⟨⟨ms, hagain⟩, hsame⟩ := visibleDirectories_of_later config hlater hlist
    rw [buildAll_of_list hagain, hsame]
    have theme : ∀ n ∈ (visibleDirectories config t base).map Name.bytes,
        n ≠ [] ∧ t.isDirectory (base.join n) = true :=
      List.forall_mem_map.mpr fun n hn => ⟨n.isName.1, isDirectory_of_mem hn⟩
    exact (buildEach_atTime theme now apart).after_skips

/-- The archive of a theme is made once more. -/
theorem build_again (config : Config) (base : Path) (name : Bytes) (t : FileTree) (now : Int)
    (apart : ∀ dir, directory? t base name = some dir →
      ∀ l, t.target? (archivePath config base name) = some l →
        (build config base name t).tree.Avoids dir (shown config) (· = l)) :
    Repeats (build config base name t)
      (build config base name ((build config base name t).tree.atTime now)) t
      ((build config base name t).tree.atTime now) := by
  have hlater := (later_build config base name t).trans
    (FileTree.later_atTime (build config base name t).tree now _)
  cases hdir : directory? t base name with
  | none =>
    have hagain : directory? ((build config base name t).tree.atTime now) base name = none := by
      rw [directory?_eq_none] at hdir ⊢
      rwa [hlater.isDirectory]
    rw [build_of_missing config hagain, build_of_missing config hdir]
    exact .unchanged rfl
  | some dir =>
    obtain ⟨named, present⟩ := directory?_isSome.mp (Option.isSome_of_eq_some hdir)
    refine repeats_build hlater named present (fun l hl => hl) ?_ fun e he => ?_
    · have hsame := FileTree.grown_of_atTime (build config base name t).tree now fun _ => False
      exact hsame.avoids ((hlater.isDirectory _).trans present)
        fun x hx hg l hl => apart _ (directory?_eq_some named present) l hl x hx hg l rfl
    · rw [build_of_create_error he named present]
      exact (FileTree.later_atTime t now fun _ => False).create_error_eq (fun _ hl => hl.elim) he

/-- A listing that was made is made once more: in between, nothing but it was written. -/
private theorem alike_buildListing_again (target : t.target? (listingPath config base) = some loc)
    (named : name ≠ []) (present : t.isDirectory (base.join name) = true) (now : Int)
    (apart : (buildListing config base name t).tree.Avoids (base.join name) (marked config)
      (· = loc)) :
    ∃ bytes, Alike (buildListing config base name t)
      (buildListing config base name ((buildListing config base name t).tree.atTime now)) t
      ((buildListing config base name t).tree.atTime now) [(loc, bytes)] := by
  have hwritable := FileTree.writable_of_target? target
  obtain ⟨bytes, htree⟩ := buildListing_of_target target named present
  rw [htree] at apart ⊢
  have hlater : Later t ((t.save loc bytes).atTime now) (· = loc) :=
    (FileTree.later_save hwritable bytes).trans (FileTree.later_atTime _ now _)
  have hempty := FileTree.later_save (hlater.toGrown.writable hwritable) []
  obtain ⟨mode, hfile⟩ := FileTree.file?_save hwritable bytes
  -- the listing that is emptied again can get its bytes back
  have hback := ((FileTree.later_atTime (t.save loc bytes) now _).trans hempty).fill
    (FileTree.Grown.refl _ _) <| by
      rintro l rfl
      exact ⟨_, FileTree.file?_eq_some.mp hfile⟩
  have hpresent := (hempty.isDirectory (base.join name)).trans
    ((hlater.isDirectory _).trans present)
  exact alike_buildListing hlater target rfl named present (hback.avoids hpresent apart)

/-- The listing of a theme is made once more. -/
theorem buildListing_again (config : Config) (base : Path) (name : Bytes) (t : FileTree) (now : Int)
    (apart : ∀ dir, directory? t base name = some dir →
      ∀ l, t.target? (listingPath config base) = some l →
        (buildListing config base name t).tree.Avoids dir (marked config) (· = l)) :
    Repeats (buildListing config base name t)
      (buildListing config base name ((buildListing config base name t).tree.atTime now)) t
      ((buildListing config base name t).tree.atTime now) := by
  cases target : t.target? (listingPath config base) with
  | none =>
    obtain ⟨e, he⟩ := FileTree.target?_eq_none.mp target
    have hagain := (FileTree.later_atTime t now fun _ => False).create_error_eq
      (fun _ hl => hl.elim) he
    rw [buildListing_of_create_error he, buildListing_of_create_error hagain]
    exact .unchanged rfl
  | some loc =>
    have hwritable := FileTree.writable_of_target? target
    cases hdir : directory? t base name with
    | none =>
      rw [buildListing_of_missing target hdir]
      have hlater : Later t ((t.save loc []).atTime now) (· = loc) :=
        (FileTree.later_save hwritable []).trans (FileTree.later_atTime _ now _)
      have hagain : directory? ((t.save loc []).atTime now) base name = none := by
        rw [directory?_eq_none] at hdir ⊢
        rwa [hlater.isDirectory]
      rw [buildListing_of_missing ((hlater.target? _).trans target) hagain]
      exact Alike.repeats ⟨rfl, rfl, rfl, rfl⟩ target
    | some dir =>
      obtain ⟨named, present⟩ := directory?_isSome.mp (Option.isSome_of_eq_some hdir)
      obtain ⟨bytes, halike⟩ := alike_buildListing_again target named present now
        (apart _ (directory?_eq_some named present) loc target)
      exact halike.repeats target

end Theme
end ThemeBuilder
