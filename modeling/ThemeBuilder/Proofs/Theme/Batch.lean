import ThemeBuilder.Proofs.Theme.Stability

/-! Archiving every theme of a base directory: each archive is the one that its theme gives alone,
as long as no archive is among the files that are packed. -/
namespace ThemeBuilder
open FileTree (Later)

namespace Theme
variable {config : Config} {base : Path} {name : Bytes} {names : List Bytes} {t u : FileTree}
  {W : Location → Prop} {loc : Location}

/-- The names of the visible directories in a directory, in its order. -/
def visibleDirectories (config : Config) (t : FileTree) (base : Path) : List Name :=
  match t.list base with
  | .error _ => []
  | .ok names => names.filter fun n => t.isDirectory (base.join n.bytes) && shown config n

theorem isDirectory_of_mem {n : Name} (h : n ∈ visibleDirectories config t base) :
    t.isDirectory (base.join n.bytes) = true := by
  unfold visibleDirectories at h
  split at h
  · cases h
  · exact (Bool.and_eq_true_iff.mp (List.mem_filter.mp h).2).1

theorem themes_eq (config : Config) {ns : List Name} (h : t.list base = .ok ns) :
    themes config base t =
      ⟨.ok (visibleDirectories config t base), t, skips (visibleDirectory config) t base⟩ := by
  rw [themes, listKept, h, visibleDirectories, h, skips, h]
  simp only [visibleDirectory, hides_lossy]

theorem themes_of_error {e : FileError} (h : t.list base = .error e) :
    themes config base t = ⟨.error ⟨[], .theme (.unlistable base e)⟩, t, []⟩ := by
  rw [themes, listKept, h]

theorem themes_of_ok {ns : List Name} (h : (themes config base t).outcome = .ok ns) :
    ns = visibleDirectories config t base ∧
      themes config base t = ⟨.ok ns, t, skips (visibleDirectory config) t base⟩ := by
  cases hlist : t.list base with
  | error e =>
    rw [themes_of_error hlist] at h
    cases h
  | ok all =>
    have heq := themes_eq config hlist
    rw [heq] at h
    cases h
    exact ⟨rfl, heq⟩

/-- A base directory that cannot be listed ends the work before it begins. -/
theorem buildAll_of_unlistable {e : FileError} (h : t.list base = .error e) :
    buildAll config base t = ⟨.error ⟨[], .theme (.unlistable base e)⟩, t, []⟩ := by
  rw [buildAll, buildAllOn, Action.bind_of_error (themes_of_error h)]

/-- The themes of a base directory are listed and then built. -/
theorem buildAll_of_list {ns : List Name} (h : t.list base = .ok ns) :
    buildAll config base t =
      ⟨(buildEach config base ((visibleDirectories config t base).map Name.bytes) t).outcome,
        (buildEach config base ((visibleDirectories config t base).map Name.bytes) t).tree,
        skips (visibleDirectory config) t base ++
          (buildEach config base ((visibleDirectories config t base).map Name.bytes) t).events⟩ := by
  rw [buildAll, buildAllOn, Action.bind_of_ok (themes_eq config h)]
  rfl

/-- The archive of a theme is saved with the bytes that it has when the theme is built alone. -/
def SavedAlone (config : Config) (base : Path) (t : FileTree) (name : Bytes)
    (w : Location × Bytes) : Prop :=
  t.target? (archivePath config base name) = some w.1 ∧
    (build config base name t).tree = t.save w.1 w.2

/-- A theme that can be built alone is built the same way after other files were made. -/
private theorem build_later (h : Later t u W) (named : name ≠ [])
    (present : t.isDirectory (base.join name) = true)
    (targets : ∀ l, t.target? (archivePath config base name) = some l → W l)
    (apart : u.Avoids (base.join name) (shown config) W)
    (alone : (build config base name t).outcome = .ok (archivePath config base name)) :
    ∃ w events, SavedAlone config base t name w ∧ skipped events = [] ∧
      Later t (u.save w.1 w.2) W ∧ build config base name u =
        ⟨.ok (archivePath config base name), u.save w.1 w.2, events⟩ := by
  cases target : t.target? (archivePath config base name) with
  | none =>
    obtain ⟨e, -, he, -⟩ := build_of_target_none h target named present
    rw [he] at alone
    cases alone
  | some loc =>
    have hloc := targets loc target
    obtain ⟨bytes, halike⟩ := alike_build h target hloc named present apart
    have hskip := (build_effect config base name u).2
    have houtcome := halike.outcome.trans alone
    have htree := halike.right
    rcases hbuild : build config base name u with ⟨outcome, v, events⟩
    rw [hbuild] at hskip houtcome htree
    cases houtcome
    cases htree
    have hwritable := h.toGrown.writable (FileTree.writable_of_target? target)
    exact ⟨(loc, bytes), events, ⟨target, halike.left⟩, hskip,
      h.trans ((FileTree.later_save hwritable bytes).mono fun l hl => hl ▸ hloc), rfl⟩

/-- How a theme fails after other files were made, if it fails with `e` alone. The reason is another
one only where its archive cannot be made and the path of the archive goes on behind a new file. -/
def FailsAs (config : Config) (base : Path) (t : FileTree) (name : Bytes) (e e' : Failure) : Prop :=
  e' = e ∨ t.target? (archivePath config base name) = none ∧
    e = ⟨[.creatingArchive (archivePath config base name)], .file (.system .notFound)⟩ ∧
    e' = ⟨[.creatingArchive (archivePath config base name)], .file (.system .notDirectory)⟩

/-- A theme that cannot be built alone cannot be built after other files were made. -/
private theorem build_later_error {e : Failure} (h : Later t u W) (named : name ≠ [])
    (present : t.isDirectory (base.join name) = true)
    (targets : ∀ l, t.target? (archivePath config base name) = some l → W l)
    (apart : u.Avoids (base.join name) (shown config) W)
    (failed : (build config base name t).outcome = .error e) :
    ∃ e' v events, build config base name u = ⟨.error e', v, events⟩ ∧ e'.isNoTheme = false ∧
      skipped events = [] ∧ FailsAs config base t name e e' := by
  have hskip := (build_effect config base name u).2
  rcases hbuild : build config base name u with ⟨outcome, v, events⟩
  rw [hbuild] at hskip
  cases target : t.target? (archivePath config base name) with
  | none =>
    obtain ⟨c, c', hc, hc', -, hcause⟩ := build_of_target_none h target named present
    rw [failed] at hc
    cases hc
    rw [hbuild] at hc'
    cases hc'
    refine ⟨_, v, events, rfl, rfl, hskip, ?_⟩
    obtain rfl | ⟨rfl, rfl⟩ := hcause
    · exact .inl rfl
    · exact .inr ⟨target, rfl, rfl⟩
  | some loc =>
    obtain ⟨bytes, halike⟩ := alike_build h target (targets loc target) named present apart
    have houtcome := halike.outcome.trans failed
    rw [hbuild] at houtcome
    cases houtcome
    have hends := isNoTheme_of_build named present failed
    exact ⟨e, v, events, rfl, hends, hskip, .inl rfl⟩

/-- Themes that can be built alone are built first of all in a batch, each as it is alone, even if
files were made before at places in `W`. -/
private theorem buildEach_append {first rest : List Bytes} (h : Later t u W)
    (theme : ∀ n ∈ first, n ≠ [] ∧ t.isDirectory (base.join n) = true)
    (targets : ∀ n ∈ first ++ rest, ∀ l, t.target? (archivePath config base n) = some l → W l)
    (apart : ∀ n ∈ first, (buildEach config base (first ++ rest) u).tree.Avoids (base.join n)
      (shown config) W)
    (alone : ∀ n ∈ first, (build config base n t).outcome = .ok (archivePath config base n)) :
    ∃ (xs : List (Bytes × Location × Bytes)) (v : FileTree) (events : List Event),
      xs.map Prod.fst = first ∧ (∀ x ∈ xs, SavedAlone config base t x.1 x.2) ∧
      (buildEach config base first u).tree = v ∧ v = u.saveAll (xs.map Prod.snd) ∧ Later t v W ∧
      skipped events = [] ∧ buildEach config base (first ++ rest) u =
        ⟨(buildEach config base rest v).outcome.map (first.map (archivePath config base) ++ ·),
          (buildEach config base rest v).tree,
          events ++ (buildEach config base rest v).events⟩ := by
  induction first generalizing u with
  | nil =>
    refine ⟨[], u, [], rfl, fun _ hx => absurd hx List.not_mem_nil, rfl, rfl, h, rfl, ?_⟩
    change buildEach config base rest u = (⟨(buildEach config base rest u).outcome.map id,
      (buildEach config base rest u).tree, (buildEach config base rest u).events⟩ : Report _)
    rcases buildEach config base rest u with ⟨_ | _, v, events⟩ <;> rfl
  | cons n first ih =>
    rw [List.forall_mem_cons] at theme alone
    -- files that the theme's build would miss are missed by the final tree as well
    have hfinal : Later u (buildEach config base (n :: first ++ rest) u).tree W := by
      refine (later_buildEach config base (n :: first ++ rest) u).mono ?_
      rintro l ⟨m, hm, hl⟩
      exact targets m hm l (h.target? _ ▸ hl)
    have hn := hfinal.toGrown.avoids ((h.isDirectory _).trans theme.1.2)
      (apart n List.mem_cons_self)
    obtain ⟨w, events, hw, hskip, hnext, hbuild⟩ :=
      build_later h theme.1.1 theme.1.2 (targets n List.mem_cons_self) hn alone.1
    have hrun := buildEach_of_ok hbuild (first ++ rest)
    rw [List.cons_append, hrun] at apart
    obtain ⟨xs, v, more, hfirst, halone, htree, hv, hlater, hmore, heq⟩ := ih hnext theme.2
      (fun m hm => targets m (List.mem_cons_of_mem n hm))
      (fun m hm => apart m (List.mem_cons_of_mem n hm)) alone.2
    refine ⟨(n, w) :: xs, v, events ++ more, by rw [List.map_cons, hfirst],
      List.forall_mem_cons.mpr ⟨hw, halone⟩, by rw [buildEach_of_ok hbuild, htree], hv, hlater, ?_,
      ?_⟩
    · simp [hskip, hmore]
    · rw [List.cons_append, hrun, heq, List.append_assoc]
      cases (buildEach config base rest v).outcome <;> rfl

/-- Two trees have the archive of a theme, with the same bytes. -/
def SameArchive (config : Config) (base : Path) (t u : FileTree) (name : Bytes) : Prop :=
  ∃ f g, t.read (archivePath config base name) = .ok f ∧
    u.read (archivePath config base name) = .ok g ∧ f.bytes = g.bytes

/-- The archives of themes go to places of their own, and in the tree `u` none of them is a file to
be packed. -/
structure Separate (config : Config) (base : Path) (t : FileTree) (names : List Bytes)
    (u : FileTree) : Prop where
  nodup : names.Nodup
  theme : ∀ n ∈ names, n ≠ [] ∧ t.isDirectory (base.join n) = true
  distinct : ∀ m ∈ names, ∀ n ∈ names, ∀ l, t.target? (archivePath config base m) = some l →
    t.target? (archivePath config base n) = some l → m = n
  apart : ∀ n ∈ names, u.Avoids (base.join n) (shown config) fun l =>
    ∃ m ∈ names, t.target? (archivePath config base m) = some l

namespace Separate
variable {v : FileTree} {xs : List (Bytes × Location × Bytes)}

/-- Archives that were saved are still there when others were made after them. -/
theorem sameArchive (sep : Separate config base t names u)
    (hnames : ∀ x ∈ xs, x.1 ∈ names) (hxs : (xs.map Prod.fst).Nodup)
    (alone : ∀ x ∈ xs, SavedAlone config base t x.1 x.2) {V : Location → Prop}
    (hv : Later (t.saveAll (xs.map Prod.snd)) v V) (hV : ∀ x ∈ xs, ¬V x.2.1) :
    ∀ x ∈ xs, SameArchive config base v (build config base x.1 t).tree x.1 := by
  have hplaces : ((xs.map Prod.snd).map Prod.fst).Nodup := by
    rw [List.map_map]
    refine List.Nodup.map_on (fun x hx y hy heq => ?_) hxs.of_map
    change x.2.1 = y.2.1 at heq
    refine List.inj_on_of_nodup_map hxs hx hy ?_
    exact sep.distinct x.1 (hnames x hx) y.1 (hnames y hy) x.2.1 (alone x hx).1
      (heq ▸ (alone y hy).1)
  have hwritable : ∀ w ∈ xs.map Prod.snd, t.Writable w.1 := by
    intro w hw
    obtain ⟨x, hx, rfl⟩ := List.mem_map.mp hw
    exact FileTree.writable_of_target? (alone x hx).1
  intro x hx
  obtain ⟨mode, hfile⟩ :=
    FileTree.file?_saveAll_of_nodup hwritable hplaces (List.mem_map_of_mem hx)
  have htarget : v.target? (archivePath config base x.1) = some x.2.1 :=
    (hv.target? _).trans (((FileTree.later_saveAll hwritable).target? _).trans (alone x hx).1)
  obtain ⟨g, hg, hbytes⟩ := FileTree.read_save (alone x hx).1 x.2.2
  refine ⟨_, g, FileTree.read_of_target? htarget ((hv.file?_ne (hV x hx)).trans hfile), ?_, ?_⟩
  · rw [(alone x hx).2]
    exact hg
  · exact hbytes.symm

/-- The places of the archives of themes that were saved. -/
private theorem later_saved (hnames : xs.map Prod.fst = names)
    (alone : ∀ x ∈ xs, SavedAlone config base t x.1 x.2) :
    Later t (t.saveAll (xs.map Prod.snd)) fun l =>
      ∃ n ∈ names, t.target? (archivePath config base n) = some l := by
  have hsaved : FileTree.SavedAlong t (t.saveAll (xs.map Prod.snd))
      (names.map (archivePath config base)) := by
    refine ⟨xs.map Prod.snd, fun w hw => ?_, rfl⟩
    obtain ⟨x, hx, rfl⟩ := List.mem_map.mp hw
    have hn : x.1 ∈ names := hnames ▸ List.mem_map_of_mem hx
    exact ⟨_, List.mem_map_of_mem hn, (alone x hx).1⟩
  refine hsaved.later.mono ?_
  rintro l ⟨p, hp, hl⟩
  obtain ⟨n, hn, rfl⟩ := List.mem_map.mp hp
  exact ⟨n, hn, hl⟩

/-- Where each theme can be built alone, the batch gives the archives of all. -/
private theorem buildEach_ok
    (sep : Separate config base t names (buildEach config base names t).tree)
    (alone : ∀ n ∈ names, (build config base n t).outcome = .ok (archivePath config base n)) :
    (buildEach config base names t).outcome = .ok (names.map (archivePath config base)) ∧
      skipped (buildEach config base names t).events = [] ∧
      (∀ n ∈ names, SameArchive config base (buildEach config base names t).tree
        (build config base n t).tree n) ∧
      ∀ l, (∃ n ∈ names, t.target? (archivePath config base n) = some l) →
        ∃ f, (buildEach config base names t).tree.node? l = some (.file f) := by
  obtain ⟨xs, v, events, hnames, hsaved, -, rfl, -, hskip, heq⟩ := buildEach_append
    (Later.refl t _) sep.theme
    (fun n (hn : n ∈ names ++ []) l hl => ⟨n, List.append_nil names ▸ hn, hl⟩)
    (fun n hn => (List.append_nil names).symm ▸ sep.apart n hn) alone
  rw [List.append_nil] at heq
  have hnodup : (xs.map Prod.fst).Nodup := hnames ▸ sep.nodup
  have hmem : ∀ x ∈ xs, x.1 ∈ names := fun x hx => hnames ▸ List.mem_map_of_mem hx
  have hsame := sep.sameArchive hmem hnodup hsaved (Later.refl _ fun _ => False) fun _ _ => id
  rw [heq]
  refine ⟨congrArg Except.ok (List.append_nil _), ?_, ?_, ?_⟩
  · rw [skipped_append, hskip]
    rfl
  · intro n hn
    rw [← hnames] at hn
    obtain ⟨x, hx, rfl⟩ := List.mem_map.mp hn
    exact hsame x hx
  · rintro l ⟨n, hn, hl⟩
    rw [← hnames] at hn
    obtain ⟨x, hx, rfl⟩ := List.mem_map.mp hn
    cases (hsaved x hx).1.symm.trans hl
    have hwritable : ∀ w ∈ xs.map Prod.snd, t.Writable w.1 := by
      intro w hw
      obtain ⟨y, hy, rfl⟩ := List.mem_map.mp hw
      exact FileTree.writable_of_target? (hsaved y hy).1
    obtain ⟨bytes, mode, -, hfile, -⟩ := FileTree.file?_saveAll hwritable hwritable
      (List.mem_map_of_mem (List.mem_map_of_mem hx))
    exact ⟨_, FileTree.file?_eq_some.mp hfile⟩

/-- The first theme that cannot be built alone ends the batch with the failure of its build. -/
private theorem buildEach_error {first rest : List Bytes} {n : Bytes} {e : Failure}
    (sep : Separate config base t (first ++ n :: rest)
      (buildEach config base (first ++ n :: rest) t).tree)
    (alone : ∀ m ∈ first, (build config base m t).outcome = .ok (archivePath config base m))
    (failed : (build config base n t).outcome = .error e) :
    (∃ e', (buildEach config base (first ++ n :: rest) t).outcome = .error e' ∧
      (build config base n (buildEach config base first t).tree).outcome = .error e' ∧
      FailsAs config base t n e e') ∧
      skipped (buildEach config base (first ++ n :: rest) t).events = [] ∧
      (∀ m ∈ first, SameArchive config base (buildEach config base (first ++ n :: rest) t).tree
        (build config base m t).tree m) ∧
      Later t (buildEach config base (first ++ n :: rest) t).tree fun l =>
        ∃ m ∈ first ++ [n], t.target? (archivePath config base m) = some l := by
  have hmem : ∀ m ∈ first, m ∈ first ++ n :: rest := fun m => List.mem_append_left _
  have hn : n ∈ first ++ n :: rest := List.mem_append_right _ List.mem_cons_self
  obtain ⟨named, present⟩ := sep.theme n hn
  obtain ⟨xs, v, events, hnames, hsaved, htree, hv, hlater, hskip, heq⟩ := buildEach_append
    (Later.refl t _) (fun m hm => sep.theme m (hmem m hm)) (fun m hm l hl => ⟨m, hm, hl⟩)
    (fun m hm => sep.apart m (hmem m hm)) alone
  have hfinal : Later v (buildEach config base (first ++ n :: rest) t).tree fun l =>
      ∃ m ∈ first ++ n :: rest, t.target? (archivePath config base m) = some l := by
    rw [heq]
    refine (later_buildEach config base (n :: rest) v).mono ?_
    rintro l ⟨m, hm, hl⟩
    exact ⟨m, List.mem_append_right _ hm, hlater.target? _ ▸ hl⟩
  have hn_apart := hfinal.toGrown.avoids ((hlater.isDirectory _).trans present) (sep.apart n hn)
  obtain ⟨e', u, more, hbuild, hends, hmore, hfails⟩ :=
    build_later_error hlater named present (fun l hl => ⟨n, hn, hl⟩) hn_apart failed
  have hlast := later_build config base n v
  rw [hbuild, hlater.target?] at hlast
  rw [heq, buildEach_of_error hbuild hends]
  refine ⟨⟨e', rfl, by rw [htree, hbuild], hfails⟩, ?_, ?_, ?_⟩
  · rw [skipped_append, hskip, hmore]
    rfl
  · intro m hm
    rw [← hnames] at hm
    obtain ⟨x, hx, rfl⟩ := List.mem_map.mp hm
    have hnodup := List.nodup_append.mp sep.nodup
    have hin : ∀ y ∈ xs, y.1 ∈ first := fun y hy => hnames ▸ List.mem_map_of_mem hy
    refine sep.sameArchive (fun y hy => hmem _ (hin y hy)) (hnames ▸ hnodup.1) hsaved (hv ▸ hlast)
      (fun y hy hl => ?_) x hx
    have hsame := sep.distinct y.1 (hmem _ (hin y hy)) n hn y.2.1 (hsaved y hy).1 hl
    exact hnodup.2.2 y.1 (hin y hy) n List.mem_cons_self hsame
  · have hfirst := later_saved hnames hsaved
    rw [← hv] at hfirst
    refine (hfirst.mono ?_).trans (hlast.mono ?_)
    · rintro l ⟨m, hm, hl⟩
      exact ⟨m, List.mem_append_left _ hm, hl⟩
    · intro l hl
      exact ⟨n, List.mem_append_right _ (List.mem_singleton_self n), hl⟩

/-- What belongs to the themes behind a theme is left alone when only the archives up to this theme
were made. -/
theorem untouched {first rest : List Bytes} {m n : Bytes} {l : Location}
    (sep : Separate config base t (first ++ n :: rest) u)
    (h : Later t v fun l => ∃ m ∈ first ++ [n], t.target? (archivePath config base m) = some l)
    (hm : m ∈ rest) (hl : t.target? (archivePath config base m) = some l) :
    v.node? l = t.node? l := by
  obtain ⟨hnodup, -, distinct, -⟩ := sep
  rw [List.append_cons] at hnodup distinct
  refine h.elsewhere ?_
  rintro ⟨k, hk, hkl⟩
  have hsame := distinct k (List.mem_append_left rest hk) m (List.mem_append_right _ hm) l hkl hl
  exact (List.nodup_append.mp hnodup).2.2 k hk m hm hsame

theorem outcome (sep : Separate config base t names (buildEach config base names t).tree)
    {n : Bytes} (hn : n ∈ names) :
    (build config base n t).outcome = .ok (archivePath config base n) ∨
      ∃ e, (build config base n t).outcome = .error e ∧ e.isNoTheme = false := by
  obtain ⟨named, present⟩ := sep.theme n hn
  exact build_outcome named present

/-- Either each theme can be built alone, or there is a first one that cannot. -/
private theorem alone_or_first
    (sep : Separate config base t names (buildEach config base names t).tree) :
    (∀ n ∈ names, (build config base n t).outcome = .ok (archivePath config base n)) ∨
      ∃ first n rest e, names = first ++ n :: rest ∧
        (∀ m ∈ first, (build config base m t).outcome = .ok (archivePath config base m)) ∧
        (build config base n t).outcome = .error e := by
  have hcases := fun n (hn : n ∈ names) => sep.outcome hn
  clear sep
  induction names with
  | nil => exact .inl fun _ hn => absurd hn List.not_mem_nil
  | cons n names ih =>
    rw [List.forall_mem_cons] at hcases
    obtain hok | ⟨e, herror, -⟩ := hcases.1
    · obtain hall | ⟨first, m, rest, e, rfl, hfirst, herror⟩ := ih hcases.2
      · exact .inl (List.forall_mem_cons.mpr ⟨hok, hall⟩)
      · exact .inr ⟨n :: first, m, rest, e, rfl, List.forall_mem_cons.mpr ⟨hok, hfirst⟩, herror⟩
    · exact .inr ⟨[], n, names, e, rfl, fun _ hm => absurd hm List.not_mem_nil, herror⟩

/-- Each theme of a batch that comes to its end can be built alone. -/
private theorem alone_of_ok
    (sep : Separate config base t names (buildEach config base names t).tree)
    {built : List Path} (h : (buildEach config base names t).outcome = .ok built) :
    ∀ n ∈ names, (build config base n t).outcome = .ok (archivePath config base n) := by
  refine sep.alone_or_first.resolve_right ?_
  rintro ⟨first, n, rest, e, rfl, hfirst, hfailed⟩
  obtain ⟨⟨e', herror, -⟩, -⟩ := sep.buildEach_error hfirst hfailed
  rw [h] at herror
  cases herror

/-- No theme turns out to be none. -/
theorem skipped_eq (sep : Separate config base t names (buildEach config base names t).tree) :
    skipped (buildEach config base names t).events = [] := by
  obtain hall | ⟨first, n, rest, e, rfl, hfirst, hfailed⟩ := sep.alone_or_first
  · exact (sep.buildEach_ok hall).2.1
  · exact (sep.buildEach_error hfirst hfailed).2.1

/-- The order of the themes does not matter where all of them were built. -/
theorem perm (sep : Separate config base t names u)
    (hu : Later t u fun l => ∃ n ∈ names, t.target? (archivePath config base n) = some l)
    (filled : ∀ l, (∃ n ∈ names, t.target? (archivePath config base n) = some l) →
      ∃ f, u.node? l = some (.file f)) {order : List Bytes} (h : order.Perm names) :
    Separate config base t order (buildEach config base order t).tree := by
  have hsame : (fun l => ∃ n ∈ order, t.target? (archivePath config base n) = some l) =
      fun l => ∃ n ∈ names, t.target? (archivePath config base n) = some l := by
    funext l
    simp only [h.mem_iff]
  refine ⟨h.nodup_iff.mpr sep.nodup, fun n hn => sep.theme n (h.mem_iff.mp hn),
    fun m hm n hn => sep.distinct m (h.mem_iff.mp hm) n (h.mem_iff.mp hn), fun n hn => ?_⟩
  have hn := h.mem_iff.mp hn
  have horder := later_buildEach config base order t
  rw [hsame] at horder ⊢
  have hback := horder.toGrown.fill hu.toGrown filled
  exact hback.avoids ((horder.isDirectory _).trans (sep.theme n hn).2) (sep.apart n hn)

end Separate

private theorem buildAll_of_themes {ns : List Name}
    (listed : (themes config base t).outcome = .ok ns) :
    (buildAll config base t).outcome = (buildEach config base (ns.map Name.bytes) t).outcome ∧
      (buildAll config base t).tree = (buildEach config base (ns.map Name.bytes) t).tree ∧
      skipped (buildAll config base t).events =
        skipped (buildEach config base (ns.map Name.bytes) t).events := by
  obtain ⟨rfl, -⟩ := themes_of_ok listed
  cases hlist : t.list base with
  | error e =>
    rw [themes_of_error hlist] at listed
    cases listed
  | ok all =>
    rw [buildAll_of_list hlist]
    exact ⟨rfl, rfl, by simp⟩

theorem nodup_visibleDirectories (config : Config) (t : FileTree) (base : Path) :
    (visibleDirectories config t base).Nodup := by
  unfold visibleDirectories
  split
  · exact List.nodup_nil
  · exact (FileTree.nodup_of_list ‹_›).filter _

/-- The themes of a batch are separate where their archives are. -/
private theorem separate_themes {names : List Name}
    (listed : (themes config base t).outcome = .ok names) (distinct : ∀ m ∈ names, ∀ n ∈ names, ∀ l,
      t.target? (archivePath config base m.bytes) = some l →
        t.target? (archivePath config base n.bytes) = some l → m = n)
    (apart : ∀ m ∈ names, u.Avoids (base.join m.bytes) (shown config)
      fun l => ∃ n ∈ names, t.target? (archivePath config base n.bytes) = some l) :
    Separate config base t (names.map Name.bytes) u := by
  have hnames := (themes_of_ok listed).1
  constructor
  · rw [hnames]
    exact (nodup_visibleDirectories config t base).map Name.bytes_injective
  · rw [List.forall_mem_map]
    exact fun n hn => ⟨n.isName.1, isDirectory_of_mem (hnames ▸ hn)⟩
  · simp only [List.forall_mem_map]
    exact fun m hm n hn l hl hl' => congrArg Name.bytes (distinct m hm n hn l hl hl')
  · rw [List.forall_mem_map]
    simp only [List.mem_map, exists_exists_and_eq_and]
    exact apart

/-- The archives of all themes, where their paths lead to files of their own and these are no files
to be packed. No theme is skipped. A batch that comes to its end gives what the builds of the themes
alone give, byte by byte, in whatever order the themes are listed. The first theme that cannot be
built alone ends the batch with its failure: the archives of the themes before it are complete, and
nothing that belongs to those behind it was touched. -/
theorem buildAll_alone {names : List Name}
    (listed : (themes config base t).outcome = .ok names)
    (distinct : ∀ m ∈ names, ∀ n ∈ names, ∀ l,
      t.target? (archivePath config base m.bytes) = some l →
        t.target? (archivePath config base n.bytes) = some l → m = n)
    (apart : ∀ m ∈ names, (buildAll config base t).tree.Avoids (base.join m.bytes) (shown config)
      fun l => ∃ n ∈ names, t.target? (archivePath config base n.bytes) = some l) :
    skipped (buildAll config base t).events = [] ∧
    (∀ built, (buildAll config base t).outcome = .ok built →
      built = names.map (fun n => archivePath config base n.bytes) ∧
      (∀ n ∈ names,
        (build config base n.bytes t).outcome = .ok (archivePath config base n.bytes) ∧
        SameArchive config base (buildAll config base t).tree (build config base n.bytes t).tree
          n.bytes) ∧
      ∀ order : List Name, order.Perm names →
        (buildEach config base (order.map Name.bytes) t).outcome =
            .ok (order.map fun n => archivePath config base n.bytes) ∧
          ∀ n ∈ names, SameArchive config base
            (buildEach config base (order.map Name.bytes) t).tree (build config base n.bytes t).tree
            n.bytes) ∧
    ((∀ n ∈ names, ∃ out, (build config base n.bytes t).outcome = .ok out) →
      ∃ built, (buildAll config base t).outcome = .ok built) ∧
    ∀ done n rest e, names = done ++ n :: rest →
      (∀ m ∈ done, ∃ out, (build config base m.bytes t).outcome = .ok out) →
      (build config base n.bytes t).outcome = .error e →
      (∃ e', (buildAll config base t).outcome = .error e' ∧
        (build config base n.bytes
          (buildEach config base (done.map Name.bytes) t).tree).outcome = .error e' ∧
        FailsAs config base t n.bytes e e') ∧
      (∀ m ∈ done, SameArchive config base (buildAll config base t).tree
        (build config base m.bytes t).tree m.bytes) ∧
      (Later t (buildAll config base t).tree fun l =>
        ∃ m ∈ done ++ [n], t.target? (archivePath config base m.bytes) = some l) ∧
      ∀ m ∈ rest, ∀ l, t.target? (archivePath config base m.bytes) = some l →
        (buildAll config base t).tree.node? l = t.node? l := by
  obtain ⟨houtcome, htree, hskip⟩ := buildAll_of_themes listed
  rw [houtcome, htree, hskip]
  rw [htree] at apart
  have sep := separate_themes listed distinct apart
  have halone : ∀ n ∈ names, (∃ out, (build config base n.bytes t).outcome = .ok out) →
      (build config base n.bytes t).outcome = .ok (archivePath config base n.bytes) := by
    rintro n hn ⟨out, hout⟩
    obtain hok | ⟨e, herror, -⟩ := sep.outcome (List.mem_map_of_mem hn)
    · exact hok
    · rw [hout] at herror
      cases herror
  refine ⟨?_, ?_, ?_, ?_⟩
  · exact sep.skipped_eq
  · intro built hbuilt
    have hall := sep.alone_of_ok hbuilt
    obtain ⟨hok, -, hsame, hfilled⟩ := sep.buildEach_ok hall
    rw [hbuilt] at hok
    cases hok
    refine ⟨List.map_map, fun n hn => ⟨hall _ (List.mem_map_of_mem hn),
      hsame _ (List.mem_map_of_mem hn)⟩, fun order horder => ?_⟩
    have hsep := sep.perm (later_buildEach ..) hfilled (horder.map Name.bytes)
    obtain ⟨hok, -, hsame, -⟩ := hsep.buildEach_ok fun n hn =>
      hall n ((horder.map Name.bytes).mem_iff.mp hn)
    rw [hok, List.map_map]
    exact ⟨rfl, fun n hn => hsame _ (List.mem_map_of_mem (horder.mem_iff.mpr hn))⟩
  · intro hall
    refine ⟨_, (sep.buildEach_ok ?_).1⟩
    rw [List.forall_mem_map]
    exact fun n hn => halone n hn (hall n hn)
  · rintro done n rest e rfl hdone hfailed
    rw [List.map_append, List.map_cons] at sep ⊢
    obtain ⟨herror, -, hsame, hlater⟩ := sep.buildEach_error (List.forall_mem_map.mpr fun m hm =>
      halone m (List.mem_append_left _ hm) (hdone m hm)) hfailed
    refine ⟨herror, fun m hm => hsame _ (List.mem_map_of_mem hm), hlater.mono ?_, fun m hm l hl =>
      sep.untouched hlater (List.mem_map_of_mem hm) hl⟩
    rintro l ⟨b, hb, hl⟩
    rw [← List.map_singleton, ← List.map_append] at hb
    obtain ⟨m, hm, rfl⟩ := List.mem_map.mp hb
    exact ⟨m, hm, hl⟩

/-- Two themes, one of which is a link to the other, and an old archive of the first. -/
theorem buildAll_alone_linked :
    let a : Name := ⟨[0x61], by decide⟩
    let b : Name := ⟨[0x62], by decide⟩
    let x : Name := ⟨[0x78], by decide⟩
    let archive : Name := ⟨Utf8.encode "a.zip", by decide +kernel⟩
    let t : FileTree :=
      ⟨[⟨[a], .directory, false⟩, ⟨[x, a], .file ⟨[1], 0, 0o600⟩, false⟩,
        ⟨[b], .link [0x61], false⟩, ⟨[archive], .file ⟨[2], 0, 0o644⟩, false⟩], 0,
        by decide +kernel⟩
    (themes {} [0x2f] t).outcome = .ok [a, b] ∧
      (buildAll {} [0x2f] t).outcome = .ok [Utf8.encode "/a.zip", Utf8.encode "/b.zip"] ∧
      skipped (buildAll {} [0x2f] t).events = [] ∧
      SameArchive {} [0x2f] (buildAll {} [0x2f] t).tree (build {} [0x2f] [0x62] t).tree [0x62] ∧
      (buildEach {} [0x2f] [[0x62], [0x61]] t).outcome =
        .ok [Utf8.encode "/b.zip", Utf8.encode "/a.zip"] := by
  intro a b x archive t
  have listed : (themes {} [0x2f] t).outcome = .ok [a, b] := by decide +kernel
  have distinct : ∀ m ∈ [a, b], ∀ n ∈ [a, b],
      t.target? (archivePath {} [0x2f] m.bytes) = t.target? (archivePath {} [0x2f] n.bytes) →
        m = n := by
    decide +kernel
  have apart : ∀ m ∈ [a, b], ∀ y ∈ (buildAll {} [0x2f] t).tree.filesIn (Path.join [0x2f] m.bytes),
      ∀ n ∈ [a, b], (buildAll {} [0x2f] t).tree.locate ((Path.join [0x2f] m.bytes).join y.1.bytes) ≠
        (t.target? (archivePath {} [0x2f] n.bytes)).elim (.error .nulByte) .ok := by
    decide +kernel
  obtain ⟨hskip, hok, hall, -⟩ := buildAll_alone listed
    (fun m hm n hn l hl hl' => distinct m hm n hn (hl.trans hl'.symm))
    (fun m hm y hy _ l ⟨n, hn, hl⟩ hloc => apart m hm y hy n hn (by rw [hloc, hl]; rfl))
  have hbuilt : ∀ n ∈ [a, b], (build {} [0x2f] n.bytes t).outcome =
      .ok (archivePath {} [0x2f] n.bytes) := by
    decide +kernel
  obtain ⟨built, hbatch⟩ := hall fun n hn => ⟨_, hbuilt n hn⟩
  obtain ⟨rfl, hsame, horder⟩ := hok built hbatch
  exact ⟨listed, hbatch, hskip, (hsame b (by decide)).2, (horder [b, a] (by decide)).1⟩

end Theme
end ThemeBuilder
