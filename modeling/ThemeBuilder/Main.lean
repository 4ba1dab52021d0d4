import ThemeBuilder.Invocation

/-! The command line. A run works on a tree that holds what the system has where the command
looks; afterwards the files that the run changed are written. -/
namespace ThemeBuilder.CommandLine

/-- Adds what the system has at a path without links above its end, and gives the paths of what is
in it if it is a directory. The permission bits are not to be had, so all files count as having
the usual ones. -/
def note (t : FileTree) (path : String) : IO (FileTree × List String) := do
  let real ← IO.FS.realPath path
  let info ← real.metadata
  let here := Utf8.encode real.toString
  let t := if real.toString = path then t else t.putAt (Utf8.encode path) (.link here)
  match info.type with
  | .dir =>
    let inside := (← real.readDir).toList.map fun e => (real / e.fileName).toString
    return (t.putAt here .directory, inside)
  | .file =>
    let bytes ← IO.FS.readBinFile real
    return (t.putAt here (.file ⟨bytes.toList, info.modified.sec, FileTree.madeMode⟩), [])
  | _ => return (t.putAt here .pipe, [])

/-- Adds what is at a path, and below it to a depth. What cannot be looked at is left out. -/
def survey : (depth : Nat) → FileTree → String → IO FileTree
  | 0, t, path => do
    try return (← note t path).1 catch _ => return t
  | n + 1, t, path => do
    try
      let (t, inside) ← note t path
      inside.foldlM (survey n) t
    catch _ => return t

/-- The paths that lead step by step to a name in a directory. -/
def approaches (dir : String) (name : List Char) : List String :=
  (List.range (name.length + 1)).filterMap fun n =>
    if name[n]? = some '/' ∨ n = name.length then
      let front := String.ofList (name.take n)
      some (if name.head? = some '/' then front else dir ++ "/" ++ front)
    else none

/-- Adds the directories on the way to a name, each with what it holds. -/
def surveyName (dir : String) (t : FileTree) (name : Bytes) : IO FileTree :=
  (approaches dir (Utf8.lossyChars name)).foldlM (fun t (path : String) => do
    try survey 1 t (← IO.FS.realPath path).toString catch _ => return t) t

/-- The name that a command looks for, if it has one. -/
def nameOf : Option Command → Option Bytes
  | some (.make name) | some (.makeListing name) => some name
  | _ => none

end ThemeBuilder.CommandLine

open ThemeBuilder in
def main (args : List String) : IO UInt32 := do
  let base ← IO.FS.realPath (← IO.currentDir)
  let dir := base.toString
  let args := ("scummtheme" :: args).map Utf8.encode
  let tree ← CommandLine.survey 2 (FileTree.empty (← base.metadata).modified.sec) dir
  let tree ← (CommandLine.nameOf (CommandLine.parse args)).toList.foldlM
    (CommandLine.surveyName dir) tree
  let report := run (Utf8.encode dir) args tree
  for (path, bytes) in report.tree.changedSince tree do
    IO.FS.writeBinFile (Utf8.lossy path) ⟨bytes.toArray⟩
  let filter := match ← IO.getEnv "RUST_LOG" with
    | some text => LogFilter.parse text
    | none => LogFilter.standard
  let exit := report.exit filter
  IO.print exit.stdout
  for line in exit.log do
    IO.eprintln line
  IO.eprint exit.stderr
  return UInt32.ofNat exit.status
