import ThemeBuilder.Archive.Format
import ThemeBuilder.Disk
import ThemeBuilder.Theme.Directory

/-! Writing files into an archive, one by one, and archiving a theme: on any disk, and on the one
that refuses nothing, which is meant where none is named. -/
namespace ThemeBuilder
open Archive (Packed)

/-- A file to archive. -/
structure Item where
  path : Path
  entryName : Bytes
  /-- What to say once it is in the archive. -/
  announcement : Option Notice := none
  deriving DecidableEq

def Item.entry (i : Item) (f : File) : Archive.Entry where
  name := i.entryName
  data := f.bytes
  stamp := Timestamp.ofSeconds f.modified
  mode := Archive.regularFile + f.mode % 0x1000

structure Packing where
  /-- Those that are in the archive, in order. -/
  added : List Item
  /-- What stopped the others, or else what the completion of the archive failed for. -/
  failure : Option Failure
  deriving DecidableEq

namespace Packing

/-- Reads one file and puts its local record behind what the archive holds so far. A name that is
too long is refused before anything of the entry is written. -/
def packItem (disk : Disk) (out : Location) (compression : Compression) (i : Item) :
    Action Packed := do
  let f ← disk.read i.path
  if i.entryName.length > Archive.longestName then
    Action.fail ⟨[.addingEntry i.entryName], .entryNameTooLong⟩
  else
    let packed := (i.entry f).pack compression
    Action.change (·.append out (Archive.localRecord packed))
    Action.log (.entryWritten i.entryName f.bytes.length)
    return packed

/-- Packs items in order up to the first that fails. -/
def packItems (disk : Disk) (out : Location) (compression : Compression) :
    List Item → Action (List Packed × Packing)
  | [] => return ([], ⟨[], none⟩)
  | i :: is => do
    match ← (packItem disk out compression i).attempt with
    | .error e => return ([], ⟨[], some e⟩)
    | .ok packed =>
      if let some n := i.announcement then Action.print n
      let (ps, rest) ← packItems disk out compression is
      return (packed :: ps, { rest with added := i :: rest.added })

def finish (disk : Disk) (path : Path) (out : Location) (ps : List Packed) : Action Unit := do
  let completion := disk.completion path
  Action.change (·.append out (completion.reaches (Archive.trailer ps)))
  Action.ofExcept (completion.outcome path)

/-- Takes the outcome of the completion into account. The failure of an item goes before it. -/
def and (p : Packing) : Except Failure Unit → Packing
  | .ok () => p
  | .error e => { p with failure := p.failure.or (some e) }

/-- Makes an archive of items. Where one fails, the archive is completed with those before it. -/
def writeArchiveOn (disk : Disk) (out : Path) (compression : Compression) (items : List Item) :
    Action Packing := do
  let loc ← disk.create out
  let (ps, packing) ← packItems disk loc compression items
  let finished ← (finish disk out loc ps).attempt
  return packing.and finished

def writeArchive (out : Path) (compression : Compression) (items : List Item) : Action Packing :=
  writeArchiveOn .sound out compression items

def settle (p : Packing) : Action Unit :=
  match p.failure with
  | some e => Action.fail e
  | none => return ()

end Packing

namespace Theme

def item (config : Config) (dir : Path) (n : Name) : Item where
  path := dir.join n.bytes
  entryName := config.entryFor n.bytes
  announcement := some (.addingFile (Utf8.lossy n.bytes))

/-- Archives the visible files of a theme beside its directory and gives the path of the archive.
A name that is no theme is reported, and nothing is touched. -/
def buildOn (disk : Disk) (config : Config) (base : Path) (name : Bytes) : Action Path := do
  match ← Action.look (directory? · base name) with
  | none =>
    Action.print (.invalidTheme (Utf8.lossy name))
    Action.fail ⟨[], .theme (.invalidTheme (Utf8.lossy name))⟩
  | some dir =>
    let names ← files config dir
    let out := base.join (config.archiveFor name)
    Action.print (.building (Utf8.lossy name))
    Packing.writeArchiveOn disk out config.compression (names.map (item config dir)) >>=
      Packing.settle
    Action.log (.archiveWritten out names.length)
    return out

def build (config : Config) (base : Path) (name : Bytes) : Action Path :=
  buildOn .sound config base name

/-- Archives themes in order. One that turns out to be none is skipped, and any other failure ends
the work. -/
def buildEachOn (disk : Disk) (config : Config) (base : Path) : List Bytes → Action (List Path)
  | [] => return []
  | name :: names => do
    match ← (buildOn disk config base name).attempt with
    | .ok out => return out :: (← buildEachOn disk config base names)
    | .error e =>
      if e.isNoTheme then
        Action.log (.skippingTheme name e)
        buildEachOn disk config base names
      else Action.fail e

def buildEach (config : Config) (base : Path) (names : List Bytes) : Action (List Path) :=
  buildEachOn .sound config base names

/-- Archives every theme in a base directory and gives the paths of the archives. -/
def buildAllOn (disk : Disk) (config : Config) (base : Path) : Action (List Path) := do
  let names ← themes config base
  buildEachOn disk config base (names.map Name.bytes)

def buildAll (config : Config) (base : Path) : Action (List Path) := buildAllOn .sound config base

end Theme
end ThemeBuilder
