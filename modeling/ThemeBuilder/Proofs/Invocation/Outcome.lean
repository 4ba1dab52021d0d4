import ThemeBuilder.Proofs.Invocation.Frame
import ThemeBuilder.Proofs.Theme.Completion
import ThemeBuilder.Proofs.Theme.Refusal

/-! What a run returns. It succeeds without a command and without a theme, and it succeeds with a
theme only once the archive is whole, whatever the disk refuses. -/
namespace ThemeBuilder
open Theme (archivePath listingPath visibleDirectories IsArchive IsLastArchive)

variable {disk : Disk} {base : Path} {args : List Bytes} {t : FileTree} {command : Command}
  {name : Bytes}

/-- The failure as it is passed on through activities, outermost first. -/
def Failure.within (around : List Activity) (failure : Failure) : Failure :=
  around.foldr Failure.during failure

@[simp]
theorem Failure.isNoTheme_within (around : List Activity) (failure : Failure) :
    (failure.within around).isNoTheme = failure.isNoTheme := by
  induction around with
  | nil => rfl
  | cons a around ih => exact ih

theorem Report.status_exit (r : Report Unit) (filter : LogFilter) :
    (r.exit filter).status = 1 ↔ ∃ e, r.outcome = .error e := by
  unfold Report.exit
  cases r.outcome <;> simp

namespace Command

/-- A run succeeds if its command does or lacks a theme. -/
theorem conclude_ok {r : Report Unit} : (command.conclude r).outcome = .ok () ↔
    r.outcome = .ok () ∨ ∃ e, r.outcome = .error e ∧ e.isNoTheme = true := by
  cases hr : r.outcome with
  | ok => simp [conclude, hr]
  | error e => cases he : e.isNoTheme <;> simp [conclude, hr, he]

/-- It fails as its command does otherwise. -/
theorem conclude_error {r : Report Unit} {e : Failure} :
    (command.conclude r).outcome = .error e ↔ r.outcome = .error e ∧ e.isNoTheme = false := by
  cases hr : r.outcome with
  | ok => simp [conclude, hr]
  | error e' =>
    cases he : e'.isNoTheme with
    | true =>
      simp only [conclude, hr, he, if_pos, Except.error.injEq, reduceCtorEq, false_iff]
      rintro ⟨rfl, hends⟩
      rw [he] at hends
      cases hends
    | false =>
      simp only [conclude, hr, he, Bool.false_eq_true, if_false, Except.error.injEq, iff_self_and]
      rintro rfl
      exact he

end Command

/-- Where want of a theme cannot be what fails, a run succeeds only if its command comes to its
end. -/
private theorem ended_of_run {α : Type} {x : Action α}
    (parsed : CommandLine.parse args = some command) (work : command.execute base = discard x)
    (ends : ∀ e, (x t).outcome = .error e → e.isNoTheme = false)
    (ended : (run base args t).outcome = .ok ()) : ∃ a, (x t).outcome = .ok a := by
  rw [run_of_some parsed, Command.conclude_ok, work, Action.discard_eq] at ended
  cases houtcome : (x t).outcome with
  | ok a => exact ⟨a, rfl⟩
  | error e =>
    rw [houtcome] at ended
    obtain hok | ⟨e', herror, hnone⟩ := ended
    · cases hok
    · cases herror
      rw [ends e houtcome] at hnone
      cases hnone

theorem isNoTheme_of_run {e : Failure} (failed : (run base args t).outcome = .error e) :
    e.isNoTheme = false := by
  cases parsed : CommandLine.parse args with
  | none =>
    rw [run_of_none parsed] at failed
    cases failed
  | some command =>
    rw [run_of_some parsed, Command.conclude_error] at failed
    exact failed.2

private theorem run_make_of_missing (parsed : CommandLine.parse args = some (.make name))
    (missing : name = [] ∨ t.isDirectory (base.join name) = false) :
    (run base args t).outcome = .ok () := by
  rw [run_of_some parsed, Command.conclude_ok, Command.execute_make, Action.discard_eq,
    Theme.build_of_missing _ (Theme.directory?_eq_none.mpr missing)]
  exact .inr ⟨_, rfl, rfl⟩

private theorem run_make_complete (parsed : CommandLine.parse args = some (.make name))
    (named : name ≠ []) (present : t.isDirectory (base.join name) = true)
    (ended : (run base args t).outcome = .ok ()) :
    ∃ g, (run base args t).tree.read (archivePath {} base name) = .ok g ∧
      IsArchive {} base t name g.bytes := by
  obtain ⟨out, hout⟩ := ended_of_run parsed rfl
    (fun e => Theme.isNoTheme_of_build named present) ended
  obtain ⟨loc, bytes, target, htree, whole⟩ := Theme.build_complete named present hout
  rw [tree_run parsed (Command.execute_make ..), htree]
  obtain ⟨g, hg, rfl⟩ := FileTree.read_save target bytes
  exact ⟨g, hg, whole⟩

private theorem run_makeAll_complete (parsed : CommandLine.parse args = some .makeAll)
    (ended : (run base args t).outcome = .ok ()) :
    ∀ d ∈ visibleDirectories {} t base, ∃ g,
      (run base args t).tree.read (archivePath {} base d.bytes) = .ok g ∧
      IsLastArchive {} base t ((visibleDirectories {} t base).map Name.bytes) d.bytes g.bytes := by
  obtain ⟨outs, houts⟩ := ended_of_run parsed rfl (fun e => Theme.isNoTheme_of_buildAll) ended
  rw [tree_run parsed (Command.execute_makeAll ..)]
  exact fun d hd => Theme.buildAll_complete houts hd

/-- The listing is made before the theme is looked for, so it alone decides. -/
private theorem run_makeListing_of_missing
    (parsed : CommandLine.parse args = some (.makeListing name))
    (missing : name = [] ∨ t.isDirectory (base.join name) = false) :
    (run base args t).outcome =
      ((t.create (listingPath {} base)).map fun _ => ()).mapError
        fun e => ⟨[.creating (listingPath {} base)], .file e⟩ := by
  rw [run_of_some parsed, Command.execute_makeListing, Action.discard_eq]
  cases created : t.create (listingPath {} base) with
  | error e =>
    rw [Theme.buildListing_of_create_error created]
    rfl
  | ok r =>
    rw [Theme.buildListing_of_missing (FileTree.target?_of_create created)
      (Theme.directory?_eq_none.mpr missing)]
    rfl

theorem Command.executeOn_follows (disk : Disk) (base : Path) (command : Command) :
    (command.executeOn disk base).Follows (command.execute base) := by
  cases command with
  | makeAll => exact (Theme.buildAllOn_follows disk {} base).discard
  | make name => exact (Theme.buildOn_follows disk {} base name).discard
  | makeListing name => exact .refl _

/-- What the disk refuses makes a run fail, or it does not matter to the run at all. -/
theorem runOn_follows (disk : Disk) (base : Path) (args : List Bytes) :
    (runOn disk base args).Follows (run base args) := by
  rw [run, runOn, runOn]
  cases CommandLine.parse args with
  | none => exact .refl _
  | some command =>
    refine .attempt_bind (command.executeOn_follows disk base) (fun _ => .refl _) fun e he u => ?_
    dsimp only
    rw [he]
    rfl

/-- A run that succeeds has met with no refusal. -/
theorem runOn_of_ok (ended : (runOn disk base args t).outcome = .ok ()) :
    runOn disk base args t = run base args t := by
  obtain heq | ⟨e, he, -⟩ := runOn_follows disk base args t
  · exact heq
  · rw [ended] at he
    cases he

private theorem runOn_of_none (h : CommandLine.parse args = none) :
    runOn disk base args t = run base args t := by
  rw [run, runOn, runOn, h]

private theorem runOn_of_executeOn (parsed : CommandLine.parse args = some command)
    (h : command.executeOn disk base t = command.execute base t) :
    runOn disk base args t = run base args t := by
  rw [run, runOn, runOn, parsed]
  dsimp only
  rw [Action.attempt_bind, Action.attempt_bind, h]
  rfl

private theorem runOn_make_of_missing (parsed : CommandLine.parse args = some (.make name))
    (missing : name = [] ∨ t.isDirectory (base.join name) = false) :
    (runOn disk base args t).outcome = .ok () := by
  rw [runOn_of_executeOn parsed, run_make_of_missing parsed missing]
  rw [Command.execute_make, Command.executeOn, Action.discard_eq, Action.discard_eq,
    Theme.buildOn_of_missing disk {} base (Theme.directory?_eq_none.mpr missing)]

/-- Whatever the disk refuses, a run never fails because something is no theme, however often its
failure is passed on, and an unknown command is no failure either. Without a theme, making an
archive succeeds, and making a listing succeeds exactly if the file can be made. When a run succeeds
that archives a theme or all of them, each archive's path leads to a whole archive, as what an
archive fails for at its completion is passed on. The exit status is 1 just for failures. -/
theorem run_outcome (disk : Disk) (base : Path) (args : List Bytes) (t : FileTree) :
    let r := runOn disk base args t
    (∀ e, r.outcome = .error e → ∀ around, (e.within around).isNoTheme = false) ∧
    (CommandLine.parse args = none → r.outcome = .ok ()) ∧
    (∀ name, CommandLine.parse args = some (.make name) →
      (name = [] ∨ t.isDirectory (base.join name) = false → r.outcome = .ok ()) ∧
      (name ≠ [] → t.isDirectory (base.join name) = true → r.outcome = .ok () →
        ∃ g, r.tree.read (archivePath {} base name) = .ok g ∧ IsArchive {} base t name g.bytes)) ∧
    (∀ name, CommandLine.parse args = some (.makeListing name) →
      name = [] ∨ t.isDirectory (base.join name) = false →
      (r.outcome = .ok () ↔ ∃ made, t.create (listingPath {} base) = .ok made) ∧
      ∀ e, t.create (listingPath {} base) = .error e →
        r.outcome = .error ⟨[.creating (listingPath {} base)], .file e⟩) ∧
    (CommandLine.parse args = some .makeAll → r.outcome = .ok () →
      ∀ d ∈ visibleDirectories {} t base, ∃ g,
        r.tree.read (archivePath {} base d.bytes) = .ok g ∧
        IsLastArchive {} base t ((visibleDirectories {} t base).map Name.bytes) d.bytes g.bytes) ∧
    (∀ filter, (r.exit filter).status = 1 ↔ ∃ e, r.outcome = .error e) ∧
    ∀ fault around, (Failure.within around ⟨[], .theme fault⟩).isNoTheme = fault.isNoTheme := by
  intro r
  refine ⟨fun e failed around => ?_, fun h => ?_, fun name h => ⟨runOn_make_of_missing h,
    fun named present ended => ?_⟩, fun name h missing => ?_, fun h ended => ?_, r.status_exit,
    fun fault around => Failure.isNoTheme_within around _⟩
  · rw [Failure.isNoTheme_within]
    obtain heq | ⟨e', he', hends⟩ := runOn_follows disk base args t
    · have failed : (runOn disk base args t).outcome = .error e := failed
      rw [heq] at failed
      exact isNoTheme_of_run failed
    · cases he'.symm.trans failed
      exact hends
  · change (runOn disk base args t).outcome = _
    rw [runOn_of_none h, run_of_none h]
  · change ∃ g, (runOn disk base args t).tree.read _ = .ok g ∧ _
    rw [runOn_of_ok ended]
    exact run_make_complete h named present (runOn_of_ok ended ▸ ended)
  · have hr : r = run base args t := runOn_of_executeOn h rfl
    rw [hr, run_makeListing_of_missing h missing]
    cases t.create (listingPath {} base) <;> simp [Except.map, Except.mapError]
  · change ∀ d ∈ _, ∃ g, (runOn disk base args t).tree.read _ = .ok g ∧ _
    rw [runOn_of_ok ended]
    exact run_makeAll_complete h (runOn_of_ok ended ▸ ended)

/-- A base directory in which the archives of two themes go to one file, by way of a link that leads
to no file yet, and one that is not there. Where an archive cannot be completed, the run fails. -/
theorem run_outcome_linked :
    let q : Name := ⟨[0x71], by decide⟩
    let r : Name := ⟨[0x72], by decide⟩
    let x : Name := ⟨[0x78], by decide⟩
    let archive : Name := ⟨Utf8.encode "q.zip", by decide +kernel⟩
    let t : FileTree :=
      ⟨[⟨[q], .directory, false⟩, ⟨[x, q], .file ⟨[1], 0, 0o644⟩, false⟩, ⟨[r], .directory, false⟩,
        ⟨[archive], .link (Utf8.encode "r.zip"), false⟩], 0, by decide +kernel⟩
    let full : Disk := { completion := fun _ => .unflushed 0 (.system .noSpace) }
    let all : List Bytes := [[], Utf8.encode "make-all"]
    let one : List Bytes := [[], Utf8.encode "make", [0x71]]
    let missing : List Bytes := [[], Utf8.encode "make", [0x73]]
    let list : List Bytes := [[], Utf8.encode "default", [0x73]]
    (run [0x2f] all t).outcome = .ok () ∧
      (∃ g, (run [0x2f] all t).tree.read (Utf8.encode "/q.zip") = .ok g ∧
        IsLastArchive {} [0x2f] t [[0x71], [0x72]] [0x71] g.bytes) ∧
      (∃ g, (run [0x2f] one t).tree.read (Utf8.encode "/q.zip") = .ok g ∧
        IsArchive {} [0x2f] t [0x71] g.bytes) ∧
      ((runOn full [0x2f] one t).exit .standard).status = 1 ∧
      (run [0x2f] missing t).outcome = .ok () ∧
      (run [0x2f] list t).outcome = .ok () ∧
      (run [0x2f, 0x73] list t).outcome =
        .error ⟨[.creating (Utf8.encode "/s/default.inc")], .file (.system .notFound)⟩ ∧
      ((run [0x2f, 0x73] list t).exit .standard).status = 1 := by
  intro q r x archive t full all one missing list
  have hall : (run [0x2f] all t).outcome = .ok () := by decide +kernel
  have hone : (run [0x2f] one t).outcome = .ok () := by decide +kernel
  have hfull : (runOn full [0x2f] one t).outcome =
      .error ⟨[.flushing (Utf8.encode "/q.zip")], .file (.system .noSpace)⟩ := by decide +kernel
  have absent : t.isDirectory (Path.join [0x2f] [0x73]) = false := by decide +kernel
  have path : archivePath {} [0x2f] [0x71] = Utf8.encode "/q.zip" := by decide +kernel
  have themes : visibleDirectories {} t [0x2f] = [q, r] := by decide +kernel
  have refused : t.create (listingPath {} [0x2f, 0x73]) = .error (.system .notFound) := rfl
  obtain ⟨-, -, -, -, halls, -⟩ := run_outcome .sound [0x2f] all t
  obtain ⟨-, -, hones, -⟩ := run_outcome .sound [0x2f] one t
  obtain ⟨-, -, -, -, -, hfails, -⟩ := run_outcome full [0x2f] one t
  obtain ⟨-, -, hmissing, -⟩ := run_outcome .sound [0x2f] missing t
  obtain ⟨-, -, -, hlist, -⟩ := run_outcome .sound [0x2f] list t
  obtain ⟨-, -, -, hnowhere, -, hstatus, -⟩ := run_outcome .sound [0x2f, 0x73] list t
  have hwhole := halls (by decide +kernel) hall q (by rw [themes]; exact List.mem_cons_self)
  rw [themes] at hwhole
  have hsingle := (hones [0x71] (by decide +kernel)).2 (by decide) (by decide +kernel) hone
  have hrefused := (hnowhere [0x73] (by decide +kernel) (.inr (by decide +kernel))).2 _ refused
  rw [← path]
  exact ⟨hall, hwhole, hsingle, (hfails .standard).mpr ⟨_, hfull⟩,
    (hmissing [0x73] (by decide +kernel)).1 (.inr absent),
    (hlist [0x73] (by decide +kernel) (.inr absent)).1.mpr ⟨_, rfl⟩, hrefused,
    (hstatus .standard).mpr ⟨_, hrefused⟩⟩

end ThemeBuilder
