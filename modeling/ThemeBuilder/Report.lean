import ThemeBuilder.CommandLine
import ThemeBuilder.FileTree.Access

/-! What an operation on a file tree leaves behind: its outcome, the tree, and what it said. -/
namespace ThemeBuilder

/-- A message for the user. -/
inductive Notice where
  | building (theme : String)
  | addingFile (name : String)
  | invalidTheme (name : String)
  | noListingTheme
  | usage
  deriving DecidableEq

def Notice.text : Notice → String
  | building theme => "Building '" ++ theme ++ "' theme:\n"
  | addingFile name => "    Adding file: " ++ name ++ "\n"
  | invalidTheme name => "Invalid theme name: " ++ name ++ "\n"
  | noListingTheme => "Cannot open default theme dir.\n"
  | usage => CommandLine.usage

/-- How much a diagnostic matters, the gravest first. -/
inductive Level where
  | error
  | warn
  | info
  | debug
  | trace
  deriving DecidableEq

/-- A message for whoever looks into how the program works. -/
inductive Diagnostic where
  | skippingEntry (path : Path)
  | sourceCompiled (source : Path) (lines : Nat)
  | listingWritten (output : Path)
  | entryWritten (entry : Bytes) (size : Nat)
  | archiveWritten (archive : Path) (files : Nat)
  | skippingTheme (theme : Bytes) (failure : Failure)
  | nothingBuilt (command : Command) (failure : Failure)
  deriving DecidableEq

inductive Event where
  | notice (n : Notice)
  | diagnostic (d : Diagnostic)
  deriving DecidableEq

structure Report (α : Type) where
  outcome : Except Failure α
  tree : FileTree
  events : List Event

namespace Report

variable {α : Type}

def notices (r : Report α) : List Notice :=
  r.events.filterMap fun
    | .notice n => some n
    | .diagnostic _ => none

def diagnostics (r : Report α) : List Diagnostic :=
  r.events.filterMap fun
    | .diagnostic d => some d
    | .notice _ => none

/-- All that was printed for the user. -/
def stdout (r : Report α) : String := String.join (r.notices.map Notice.text)

end Report

/-- An operation on a file tree. -/
def Action (α : Type) := FileTree → Report α

namespace Action

variable {α β : Type}

def pure (a : α) : Action α := fun t => ⟨.ok a, t, []⟩

def bind (x : Action α) (f : α → Action β) : Action β := fun t =>
  match x t with
  | ⟨.ok a, t, events⟩ =>
    let r := f a t
    ⟨r.outcome, r.tree, events ++ r.events⟩
  | ⟨.error e, t, events⟩ => ⟨.error e, t, events⟩

instance : Monad Action where
  pure := pure
  bind := bind

def fail (failure : Failure) : Action α := fun t => ⟨.error failure, t, []⟩

def emit (event : Event) : Action Unit := fun t => ⟨.ok (), t, [event]⟩

def print (n : Notice) : Action Unit := emit (.notice n)

def log (d : Diagnostic) : Action Unit := emit (.diagnostic d)

/-- What can be told of the tree as it is. -/
def look (f : FileTree → α) : Action α := fun t => ⟨.ok (f t), t, []⟩

def change (f : FileTree → FileTree) : Action Unit := fun t => ⟨.ok (), f t, []⟩

/-- Gives the outcome of an operation as a value. -/
def attempt (x : Action α) : Action (Except Failure α) := fun t =>
  let r := x t
  ⟨.ok r.outcome, r.tree, r.events⟩

def ofExcept (e : Except Failure α) : Action α := fun t => ⟨e, t, []⟩

/-- Reads a file. -/
def read (p : Path) : Action File := fun t =>
  ⟨(t.read p).mapError fun e => ⟨[.reading p], .file e⟩, t, []⟩

/-- Makes or empties a file, and fails as `activity` if that cannot be done. -/
def create (activity : Activity) (p : Path) : Action Location := fun t =>
  match t.create p with
  | .ok (loc, t) => ⟨.ok loc, t, []⟩
  | .error e => ⟨.error ⟨[activity], .file e⟩, t, []⟩

end Action
end ThemeBuilder
