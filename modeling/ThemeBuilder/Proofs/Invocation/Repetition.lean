import ThemeBuilder.Proofs.Invocation.Frame
import ThemeBuilder.Proofs.Theme.Repetition

/-! Running the program a second time with the same arguments: nothing changes but when files were
written. -/
namespace ThemeBuilder
open Theme (archivePath listingPath visibleDirectories directory? reached marked)

/-- A directory that a command goes through, which of its files the command wants by their names,
and the path of the file that the command writes from them. -/
structure Job where
  source : Path
  wants : Name → Bool
  output : Path

/-- The directories that a command comes to go through. -/
def Command.jobs (base : Path) (t : FileTree) : Command → List Job
  | makeAll => (reached {} base ((visibleDirectories {} t base).map Name.bytes) t).map fun n =>
      ⟨base.join n, Theme.shown {}, archivePath {} base n⟩
  | make name => (directory? t base name).toList.map fun dir =>
      ⟨dir, Theme.shown {}, archivePath {} base name⟩
  | makeListing name => (directory? t base name).toList.map fun dir =>
      ⟨dir, marked {}, listingPath {} base⟩

namespace Repeats
variable {α : Type} {t u : FileTree}

theorem discard {r s : Report α} (h : Repeats r s t u) :
    Repeats (⟨r.outcome.map fun _ => (), r.tree, r.events⟩ : Report Unit)
      ⟨s.outcome.map fun _ => (), s.tree, s.events⟩ t u := by
  obtain ⟨ws, halike, hws⟩ := h
  exact ⟨ws, ⟨congrArg (Except.map fun _ => ()) halike.outcome, halike.notices, halike.left,
    halike.right⟩, hws⟩

theorem conclude {r s : Report Unit} (h : Repeats r s t u) (command : Command) :
    Repeats (command.conclude r) (command.conclude s) t u := by
  obtain ⟨result, v, xs⟩ := r
  obtain ⟨_, v', ys⟩ := s
  obtain ⟨ws, ⟨houtcome, hnotices, hleft, hright⟩, hws⟩ := h
  cases houtcome
  change printed ys = printed xs at hnotices
  refine ⟨ws, ?_, hws⟩
  unfold Command.conclude
  cases result with
  | ok _ => exact ⟨rfl, hnotices, hleft, hright⟩
  | error e =>
    dsimp only
    split
    · refine ⟨rfl, ?_, hleft, hright⟩
      simp [Report.notices_eq, hnotices]
    · exact ⟨rfl, hnotices, hleft, hright⟩

end Repeats

theorem execute_again (base : Path) (command : Command) (t : FileTree) (now : Int)
    (apart : ∀ j ∈ command.jobs base t, ∀ k ∈ command.jobs base t,
      ∀ l, t.target? k.output = some l →
        (command.execute base t).tree.Avoids j.source j.wants (· = l)) :
    Repeats (command.execute base t)
      (command.execute base ((command.execute base t).tree.atTime now)) t
      ((command.execute base t).tree.atTime now) := by
  cases command with
  | makeAll =>
    simp only [Command.jobs, List.forall_mem_map] at apart
    simp only [Command.execute_makeAll, Action.discard_eq] at apart ⊢
    exact (Theme.buildAll_again {} base t now apart).discard
  | make name =>
    simp only [Command.jobs, List.forall_mem_map, Option.mem_toList] at apart
    simp only [Command.execute_make, Action.discard_eq] at apart ⊢
    have hrepeats := Theme.build_again {} base name t now fun dir hdir => apart dir hdir dir hdir
    exact hrepeats.discard
  | makeListing name =>
    simp only [Command.jobs, List.forall_mem_map, Option.mem_toList] at apart
    simp only [Command.execute_makeListing, Action.discard_eq] at apart ⊢
    have hrepeats := Theme.buildListing_again {} base name t now fun dir hdir =>
      apart dir hdir dir hdir
    exact hrepeats.discard

/-- A second run with the same arguments, at whatever time, returns and prints what the first one
did and leaves the bytes of every file as the first one did, provided that no file which the first
run wrote is among those that it packed or compiled. Only the times of files that are written again
differ. -/
theorem run_again (base : Path) (args : List Bytes) (t : FileTree) (now : Int)
    (apart : ∀ command, CommandLine.parse args = some command →
      ∀ j ∈ command.jobs base t, ∀ k ∈ command.jobs base t,
      ∀ l, t.target? k.output = some l →
        (run base args t).tree.Avoids j.source j.wants (· = l)) :
    (run base args ((run base args t).tree.atTime now)).outcome = (run base args t).outcome ∧
    (run base args ((run base args t).tree.atTime now)).stdout = (run base args t).stdout ∧
    ∀ l, (run base args ((run base args t).tree.atTime now)).tree.node? l =
        (run base args t).tree.node? l ∨
      ∃ f, (run base args t).tree.node? l = some (.file f) ∧
        (run base args ((run base args t).tree.atTime now)).tree.node? l =
          some (.file { f with modified := now }) := by
  cases hparse : CommandLine.parse args with
  | none =>
    rw [run_of_none hparse, run_of_none hparse]
    exact ⟨rfl, rfl, fun _ => .inl rfl⟩
  | some command =>
    have htree := Command.conclude_tree command (command.execute base t)
    rw [← run_of_some hparse] at htree
    have hexecute := execute_again base command t now (htree ▸ apart command hparse)
    rw [← htree] at hexecute
    have hrun := hexecute.conclude command
    rw [← run_of_some hparse, ← run_of_some hparse] at hrun
    obtain ⟨ws, halike, hws⟩ := hrun
    refine ⟨halike.outcome, ?_, fun l => ?_⟩
    · rw [Report.stdout, halike.notices]
      rfl
    · have hwritable : ∀ w ∈ ws, t.Writable w.1 := by
        intro w hw
        obtain ⟨p, hp⟩ := hws w hw
        exact FileTree.writable_of_target? hp
      have hsame := FileTree.node?_saveAll_again hwritable now l
      rw [← halike.left, ← halike.right] at hsame
      exact hsame

/-- Two themes, the archive of one of which goes to where a link leads, and that of the other one
cannot be made. -/
theorem run_again_refused :
    let c : Name := ⟨[0x63], by decide⟩
    let d : Name := ⟨[0x64], by decide⟩
    let x : Name := ⟨[0x78], by decide⟩
    let out : Name := ⟨[0x6f], by decide⟩
    let archive : Name := ⟨Utf8.encode "c.zip", by decide +kernel⟩
    let blocked : Name := ⟨Utf8.encode "d.zip", by decide +kernel⟩
    let t : FileTree :=
      ⟨[⟨[c], .directory, false⟩, ⟨[x, c], .file ⟨[1], 0, 0o600⟩, false⟩,
        ⟨[d], .directory, false⟩, ⟨[archive], .link [0x6f], false⟩,
        ⟨[blocked], .pipe, false⟩], 0, by decide +kernel⟩
    let args : List Bytes := [[], Utf8.encode "make-all"]
    (run [0x2f] args t).tree.node? [out] ≠ none ∧
      (run [0x2f] args ((run [0x2f] args t).tree.atTime 9)).outcome =
        .error ⟨[.creatingArchive (Utf8.encode "/d.zip")], .file (.system .noSuchDevice)⟩ ∧
      (run [0x2f] args ((run [0x2f] args t).tree.atTime 9)).stdout = (run [0x2f] args t).stdout ∧
      ∃ f, (run [0x2f] args t).tree.node? [out] = some (.file f) ∧
        ∃ modified, (run [0x2f] args ((run [0x2f] args t).tree.atTime 9)).tree.node? [out] =
          some (.file { f with modified := modified }) := by
  intro c d x out archive blocked t args
  have parsed : CommandLine.parse args = some .makeAll := by decide +kernel
  have apart : ∀ j ∈ Command.jobs [0x2f] t .makeAll, ∀ k ∈ Command.jobs [0x2f] t .makeAll,
      ∀ y ∈ (run [0x2f] args t).tree.filesIn j.source,
        (run [0x2f] args t).tree.locate (j.source.join y.1.bytes) ≠
          (t.target? k.output).elim (.error .nulByte) .ok := by
    decide +kernel
  have outcome : (run [0x2f] args t).outcome =
      .error ⟨[.creatingArchive (Utf8.encode "/d.zip")], .file (.system .noSuchDevice)⟩ := by
    decide +kernel
  have made : ((run [0x2f] args t).tree.file? [out]).isSome = true := by decide +kernel
  obtain ⟨f, hf⟩ := Option.isSome_iff_exists.mp made
  rw [FileTree.file?_eq_some] at hf
  obtain ⟨houtcome, hstdout, hnode⟩ := run_again [0x2f] args t 9 <| by
    intro command hcommand j hj k hk l hl y hy _ m hm hloc
    cases parsed.symm.trans hcommand
    refine apart j hj k hk y hy ?_
    rw [hloc, hl, hm]
    rfl
  refine ⟨by simp [hf], houtcome.trans outcome, hstdout, f, hf, ?_⟩
  obtain hsame | ⟨g, hg, hagain⟩ := hnode [out]
  · exact ⟨f.modified, hsame.trans hf⟩
  · rw [hf] at hg
    cases hg
    exact ⟨9, hagain⟩

end ThemeBuilder
