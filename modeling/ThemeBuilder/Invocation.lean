import ThemeBuilder.Text.Quoted
import ThemeBuilder.Text.Terminal
import ThemeBuilder.Theme.Listing
import ThemeBuilder.Theme.Packing

/-! One run of the program: its command, its exit status, and what it prints. -/
namespace ThemeBuilder

namespace Command

def executeOn (disk : Disk) (base : Path) : Command → Action Unit
  | makeAll => do discard (Theme.buildAllOn disk {} base)
  | make name => do discard (Theme.buildOn disk {} base name)
  | makeListing name => do discard (Theme.buildListing {} base name)

def execute (base : Path) (command : Command) : Action Unit := command.executeOn .sound base

def shown : Command → String
  | makeAll => "MakeAll"
  | make name => "Make \x7b name: " ++ Quoted.quote name ++ " \x7d"
  | makeListing name => "Default \x7b name: " ++ Quoted.quote name ++ " \x7d"

end Command

/-- Carries out an argument list. One that is no command gets the usage text, and a target that is
no theme directory is noted and leaves the run a success. -/
def runOn (disk : Disk) (base : Path) (args : List Bytes) : Action Unit := do
  match CommandLine.parse args with
  | none => Action.print .usage
  | some command =>
    match ← (command.executeOn disk base).attempt with
    | .ok () => return ()
    | .error e =>
      if e.isNoTheme then Action.log (.nothingBuilt command e) else Action.fail e

def run (base : Path) (args : List Bytes) : Action Unit := runOn .sound base args

namespace Level

def name : Level → String
  | error => "ERROR"
  | warn => "WARN"
  | info => "INFO"
  | debug => "DEBUG"
  | trace => "TRACE"

def rank : Level → Nat
  | error => 1
  | warn => 2
  | info => 3
  | debug => 4
  | trace => 5

def all : List Level := [error, warn, info, debug, trace]

end Level

namespace Diagnostic

def level : Diagnostic → Level
  | skippingEntry _ | sourceCompiled .. | entryWritten .. => .debug
  | listingWritten _ | archiveWritten .. => .info
  | skippingTheme .. | nothingBuilt .. => .warn

/-- The part of the program that a diagnostic comes from. -/
def target : Diagnostic → String
  | skippingEntry _ => "scummtheme::fs_utils"
  | sourceCompiled .. | listingWritten _ => "scummtheme::definition"
  | entryWritten .. => "scummtheme::packaging::zip"
  | archiveWritten .. | skippingTheme .. => "scummtheme::packaging"
  | nothingBuilt .. => "scummtheme"

def sentence : Diagnostic → String
  | skippingEntry _ => "skipping entry"
  | sourceCompiled .. => "style source compiled"
  | listingWritten _ => "definition listing written"
  | entryWritten .. => "entry written"
  | archiveWritten .. => "theme archive written"
  | skippingTheme _ failure => "skipping: " ++ failure.message
  | nothingBuilt _ failure => "nothing built: " ++ failure.message

def particulars : Diagnostic → List (String × String)
  | skippingEntry path => [("path", Utf8.lossy path)]
  | sourceCompiled source lines => [("source", Utf8.lossy source), ("lines", toString lines)]
  | listingWritten output => [("output", Utf8.lossy output)]
  | entryWritten entry size => [("entry", Utf8.lossy entry), ("bytes", toString size)]
  | archiveWritten archive files =>
    [("archive", Utf8.lossy archive), ("files", toString files)]
  | skippingTheme theme _ => [("theme", Utf8.lossy theme)]
  | nothingBuilt command _ => [("command", command.shown)]

/-- The sentence, safe for a terminal, and then the particulars as they are. -/
def message (d : Diagnostic) : String :=
  Terminal.inert d.sentence ++
    String.join (d.particulars.map fun (name, value) => " " ++ name ++ "=" ++ value)

def line (d : Diagnostic) : String := d.level.name ++ " " ++ d.target ++ ": " ++ d.message

end Diagnostic

/-- The least grave level that is logged; none where nothing is. -/
structure LogFilter where
  least : Option Level
  deriving DecidableEq

namespace LogFilter

/-- The filter where none is set, or one that cannot be read. -/
def standard : LogFilter := ⟨some .warn⟩

/-- Reads a level's name, in letters of any case, or its rank. No text at all asks for errors. A
filter that sets levels for single parts of the program counts as one that cannot be read. -/
def parse (text : String) : LogFilter :=
  let word := String.ofList (text.toList.map Char.toUpper)
  if word = "" then ⟨some .error⟩
  else if word = "OFF" ∨ word = "0" then ⟨none⟩
  else match Level.all.find? fun l => word == l.name || word == toString l.rank with
    | some l => ⟨some l⟩
    | none => standard

def admits (f : LogFilter) (d : Diagnostic) : Bool :=
  match f.least with
  | some least => d.level.rank ≤ least.rank
  | none => false

end LogFilter

/-- What the environment of a run sees of it. -/
structure Exit where
  status : Nat
  stdout : String
  stderr : String
  log : List String
  deriving DecidableEq

/-- The end of a run: status 1 and a report on a failure, and else status 0. -/
def Report.exit (r : Report Unit) (filter : LogFilter) : Exit where
  status := match r.outcome with
    | .ok () => 0
    | .error _ => 1
  stdout := r.stdout
  stderr := match r.outcome with
    | .ok () => ""
    | .error e => e.report
  log := (r.diagnostics.filter filter.admits).map Diagnostic.line

/-- The path of a directory without links, `.` and `..`. -/
def FileTree.realPath (t : FileTree) (p : Path) : Path :=
  match t.locate p with
  | .ok loc => loc.path
  | .error _ => p

end ThemeBuilder
