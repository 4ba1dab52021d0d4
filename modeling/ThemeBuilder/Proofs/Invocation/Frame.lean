import ThemeBuilder.Invocation
import ThemeBuilder.Proofs.Theme.Batch

/-! What one run of the program may change in the tree, whatever it returns. -/
namespace ThemeBuilder
open FileTree (Later SavedAlong)
open Theme (archivePath listingPath visibleDirectories)

variable {base : Path} {args : List Bytes} {t : FileTree} {command : Command} {name : Bytes}

namespace Command

/-- What a run makes of what its command did. -/
def conclude (command : Command) (r : Report Unit) : Report Unit :=
  match r.outcome with
  | .ok () => r
  | .error e =>
    if e.isNoTheme then ⟨.ok (), r.tree, r.events ++ [.diagnostic (.nothingBuilt command e)]⟩
    else r

@[simp]
theorem conclude_tree (command : Command) (r : Report Unit) :
    (command.conclude r).tree = r.tree := by
  unfold conclude
  split
  · rfl
  · split <;> rfl

/-- The paths of the files that a command writes at most. -/
def outputs (base : Path) (t : FileTree) : Command → List Path
  | makeAll => (visibleDirectories {} t base).map fun d => archivePath {} base d.bytes
  | make name => [archivePath {} base name]
  | makeListing _ => [listingPath {} base]

@[simp]
theorem execute_makeAll (base : Path) :
    makeAll.execute base = discard (Theme.buildAll {} base) := rfl

@[simp]
theorem execute_make (base : Path) (name : Bytes) :
    (make name).execute base = discard (Theme.build {} base name) := rfl

@[simp]
theorem execute_makeListing (base : Path) (name : Bytes) :
    (makeListing name).execute base = discard (Theme.buildListing {} base name) := rfl

theorem savedAlong_execute (base : Path) (command : Command) (t : FileTree) :
    SavedAlong t (command.execute base t).tree (command.outputs base t) := by
  cases command with
  | make name =>
    rw [execute_make, Action.discard_eq]
    exact (Theme.build_effect {} base name t).1
  | makeListing name =>
    rw [execute_makeListing, Action.discard_eq]
    exact Theme.savedAlong_buildListing {} base name t
  | makeAll =>
    rw [execute_makeAll, Action.discard_eq]
    cases hlist : t.list base with
    | error e =>
      rw [Theme.buildAll_of_unlistable hlist]
      exact .refl ..
    | ok names =>
      rw [Theme.buildAll_of_list hlist]
      refine (Theme.savedAlong_buildEach {} base _ t).mono fun p hp => ?_
      obtain ⟨n, hn, rfl⟩ := List.mem_map.mp hp
      obtain ⟨d, hd, rfl⟩ := List.mem_map.mp (Theme.mem_of_mem_reached hn)
      exact List.mem_map.mpr ⟨d, hd, rfl⟩

end Command

theorem run_of_none (h : CommandLine.parse args = none) :
    run base args t = ⟨.ok (), t, [.notice .usage]⟩ := by
  rw [run, runOn, h]
  rfl

theorem run_of_some (h : CommandLine.parse args = some command) :
    run base args t = command.conclude (command.execute base t) := by
  rw [run, runOn, h]
  dsimp only
  rw [Action.attempt_bind, ← Command.execute]
  rcases hexec : command.execute base t with ⟨e | _, u, events⟩
  · cases hends : e.isNoTheme <;> simp [Command.conclude, hends]
  · simp [Command.conclude]

/-- A run leaves the tree that the work of its command leaves. -/
theorem tree_run {α : Type} {x : Action α} (parsed : CommandLine.parse args = some command)
    (work : command.execute base = discard x) : (run base args t).tree = (x t).tree := by
  simp [run_of_some parsed, work]

/-- A run changes at most the regular files that the paths of its outputs lead to, or makes them.
All else is as it was, and directories list what they listed. Without a command, and for the archive
of what is no theme, nothing changes at all, while the listing of what is no theme is emptied. -/
theorem run_frame (base : Path) (args : List Bytes) (t : FileTree) :
    (CommandLine.parse args = none → (run base args t).tree = t) ∧
    (∀ name, CommandLine.parse args = some (.make name) →
      (Later t (run base args t).tree fun l => t.target? (archivePath {} base name) = some l) ∧
      (name = [] ∨ t.isDirectory (base.join name) = false → (run base args t).tree = t)) ∧
    (CommandLine.parse args = some .makeAll →
      Later t (run base args t).tree fun l =>
        ∃ d ∈ visibleDirectories {} t base, t.target? (archivePath {} base d.bytes) = some l) ∧
    ∀ name, CommandLine.parse args = some (.makeListing name) →
      (Later t (run base args t).tree fun l => t.target? (listingPath {} base) = some l) ∧
      (name = [] ∨ t.isDirectory (base.join name) = false →
        t.target? (listingPath {} base) ≠ none →
        ∃ f, (run base args t).tree.read (listingPath {} base) = .ok f ∧ f.bytes = []) := by
  have hlater {command : Command} (h : CommandLine.parse args = some command) :
      Later t (run base args t).tree fun l =>
        ∃ p ∈ command.outputs base t, t.target? p = some l := by
    rw [run_of_some h, Command.conclude_tree]
    exact (Command.savedAlong_execute base command t).later
  refine ⟨fun h => by rw [run_of_none h], fun name h => ⟨?_, fun hmissing => ?_⟩, fun h => ?_,
    fun name h => ⟨?_, fun hmissing htarget => ?_⟩⟩
  · refine (hlater h).mono ?_
    rintro l ⟨p, hp, hl⟩
    exact List.mem_singleton.mp hp ▸ hl
  · rw [tree_run h (Command.execute_make ..),
      Theme.build_of_missing _ (Theme.directory?_eq_none.mpr hmissing)]
  · refine (hlater h).mono ?_
    rintro l ⟨p, hp, hl⟩
    obtain ⟨d, hd, rfl⟩ := List.mem_map.mp hp
    exact ⟨d, hd, hl⟩
  · refine (hlater h).mono ?_
    rintro l ⟨p, hp, hl⟩
    exact List.mem_singleton.mp hp ▸ hl
  · obtain ⟨loc, htarget⟩ := Option.ne_none_iff_exists'.mp htarget
    rw [tree_run h (Command.execute_makeListing ..),
      Theme.buildListing_of_missing htarget (Theme.directory?_eq_none.mpr hmissing)]
    exact FileTree.read_save htarget []

/-- The listing of a missing theme, by way of a link that leads to no file yet. -/
theorem run_frame_dangling :
    let listing : Name := ⟨Utf8.encode ({} : Config).listingFile, by decide +kernel⟩
    let out : Name := ⟨[0x6f], by decide⟩
    let t : FileTree := ⟨[⟨[listing], .link [0x6f], false⟩], 0, by decide +kernel⟩
    let args : List Bytes := [[], Utf8.encode "default", [0x78]]
    CommandLine.parse args = some (.makeListing [0x78]) ∧
      t.isDirectory (Path.join [0x2f] [0x78]) = false ∧
      t.target? (listingPath {} [0x2f]) = some [out] ∧
      (∃ f, (run [0x2f] args t).tree.read (listingPath {} [0x2f]) = .ok f ∧ f.bytes = []) ∧
      (run [0x2f] args t).tree.node? [listing] = some (.link [0x6f]) := by
  intro listing out t args
  have parsed : CommandLine.parse args = some (.makeListing [0x78]) := by decide +kernel
  have missing : t.isDirectory (Path.join [0x2f] [0x78]) = false := by decide +kernel
  have target : t.target? (listingPath {} [0x2f]) = some [out] := by decide +kernel
  obtain ⟨-, -, -, hlisting⟩ := run_frame [0x2f] args t
  obtain ⟨hlater, hempty⟩ := hlisting [0x78] parsed
  refine ⟨parsed, missing, target, hempty (.inr missing) (by rw [target]; simp), ?_⟩
  have hlink : t.node? [listing] = some (.link [0x6f]) := by decide +kernel
  rw [hlater.elsewhere ?_, hlink]
  rw [target]
  decide +kernel

end ThemeBuilder
