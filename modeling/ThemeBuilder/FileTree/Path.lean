import ThemeBuilder.Text.Bytes

/-! Paths are byte strings and are shown as they were put together; nothing in them is tidied. -/
namespace ThemeBuilder

abbrev Path := Bytes

namespace Path
open Bytes

def isAbsolute (p : Path) : Bool := p.head? == some slash

/-- A path below another, with one slash between the two unless there is one. An absolute path
stands for itself. -/
def join (base name : Path) : Path :=
  if isAbsolute name then name
  else if base = [] ∨ base.getLast? = some slash then base ++ name
  else base ++ slash :: name

/-- The components, without the empty ones that repeated slashes leave. -/
def components (p : Path) : List Bytes := (splitOn (· == slash) p).filter (· ≠ [])

/-- Whether a slash follows the last component, so that it has to be a directory. -/
def hasTrailingSlash (p : Path) : Bool := p.getLast? == some slash

end Path

def IsName (bs : Bytes) : Prop :=
  bs ≠ [] ∧ bs ≠ [Bytes.dot] ∧ bs ≠ [Bytes.dot, Bytes.dot] ∧ Bytes.slash ∉ bs ∧ Bytes.nul ∉ bs ∧
    bs.length ≤ 255

instance (bs : Bytes) : Decidable (IsName bs) := by unfold IsName; infer_instance

structure Name where
  bytes : Bytes
  isName : IsName bytes
  deriving DecidableEq

/-- A place in a file tree: the names that lead to it from the root, innermost first. -/
abbrev Location := List Name

namespace Location

def path (loc : Location) : Path :=
  match loc with
  | [] => [Bytes.slash]
  | _ => loc.reverse.flatMap fun n => Bytes.slash :: n.bytes

end Location
end ThemeBuilder
