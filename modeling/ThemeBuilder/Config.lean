import ThemeBuilder.Text.Glob
import ThemeBuilder.Text.Utf8

/-! The names that a theme build is governed by: what marks a style source, what is hidden, and
what the files it writes and the entries of its archives are called. -/
namespace ThemeBuilder

/-- How the entries of an archive hold their data. -/
inductive Compression where
  | stored
  | deflated
  deriving DecidableEq

structure Config where
  /-- The ending, dot included, of a style source's name. -/
  sourceExtension : String := ".stx"
  listingFile : String := "default.inc"
  /-- What follows a theme's name and a dot in the name of its archive. -/
  archiveExtension : String := "zip"
  /-- What precedes a file's name in the name of its entry. -/
  entryPrefix : String := "./"
  /-- The first character of a hidden name. -/
  hiddenMark : Char := '.'
  compression : Compression := .stored
  deriving DecidableEq

namespace Config

def sourcePattern (config : Config) : String :=
  String.ofList ('*' :: Glob.escape config.sourceExtension.toList)

def isSource (config : Config) (name : String) : Bool :=
  match Glob.parse? config.sourcePattern.toList with
  | some tokens => Glob.accepts tokens name.toList
  | none => false

def hides (config : Config) (name : String) : Bool :=
  name.toList.head? == some config.hiddenMark

def archiveFor (config : Config) (theme : Bytes) : Bytes :=
  theme ++ Bytes.dot :: Utf8.encode config.archiveExtension

def entryFor (config : Config) (fileName : Bytes) : Bytes :=
  Utf8.encode config.entryPrefix ++ fileName

end Config
end ThemeBuilder
