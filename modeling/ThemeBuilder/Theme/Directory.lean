import ThemeBuilder.Config
import ThemeBuilder.Report

/-! Theme directories: finding one by its name, and which of its entries matter. -/
namespace ThemeBuilder.Theme

/-- The directory of a theme, if it is one. The empty name does not stand for the base. -/
def directory? (t : FileTree) (base : Path) (name : Bytes) : Option Path :=
  if name = [] then none
  else if t.isDirectory (base.join name) then some (base.join name)
  else none

/-- Which entries to keep, from the tree, the path of an entry and its name as text. -/
abbrev Filter := FileTree → Path → String → Bool

/-- The names in a directory that a filter keeps, in the order of the directory. The others are
noted as skipped. -/
def listKept (dir : Path) (keep : Filter) : Action (List Name) := fun t =>
  let kept (n : Name) : Bool := keep t (dir.join n.bytes) (Utf8.lossy n.bytes)
  match t.list dir with
  | .error e => ⟨.error ⟨[], .theme (.unlistable dir e)⟩, t, []⟩
  | .ok names =>
    ⟨.ok (names.filter kept), t,
      (names.filter (!kept ·)).map fun n => .diagnostic (.skippingEntry (dir.join n.bytes))⟩

def visibleFile (config : Config) : Filter := fun t path name =>
  t.isFile path && !config.hides name

def visibleDirectory (config : Config) : Filter := fun t path name =>
  t.isDirectory path && !config.hides name

def styleSource (config : Config) : Filter := fun t path name =>
  t.isFile path && config.isSource name

def files (config : Config) (dir : Path) : Action (List Name) :=
  listKept dir (visibleFile config)

def themes (config : Config) (base : Path) : Action (List Name) :=
  listKept base (visibleDirectory config)

def styleSources (config : Config) (dir : Path) : Action (List Name) :=
  listKept dir (styleSource config)

end ThemeBuilder.Theme
