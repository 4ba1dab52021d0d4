import ThemeBuilder.Style.Output
import ThemeBuilder.Theme.Directory

/-! The definition listing of a theme: the quoted lines of its style sources in one file. -/
namespace ThemeBuilder.Theme

/-- Appends the listings of style sources to a file by way of a buffer, which is written out at
the end, and also when a source cannot be read. -/
def compileSources (out : Location) (pending : Bytes) : List Path → Action Unit
  | [] => Action.change (·.append out pending)
  | source :: sources => do
    match ← (Action.read source).attempt with
    | .error e =>
      Action.change (·.append out pending)
      Action.fail e
    | .ok f =>
      let (written, pending) := Style.bufferAll pending (Style.listingPieces f.bytes)
      Action.change (·.append out written)
      Action.log (.sourceCompiled source (Style.listingLines f.bytes).length)
      compileSources out pending sources

/-- Writes the definition listing of a theme into the base directory and gives its path. The old
listing is gone before the theme is looked for. That a source is there is enough for reading it, and
what is written gets to the listing. -/
def buildListing (config : Config) (base : Path) (name : Bytes) : Action Path := do
  let out := base.join (Utf8.encode config.listingFile)
  let loc ← Action.create (.creating out) out
  match ← Action.look (directory? · base name) with
  | none =>
    Action.print .noListingTheme
    Action.fail ⟨[], .theme (.missingTheme (base.join name))⟩
  | some dir =>
    let names ← styleSources config dir
    compileSources loc [] (names.map fun n => dir.join n.bytes)
    Action.log (.listingWritten out)
    return out

end ThemeBuilder.Theme
