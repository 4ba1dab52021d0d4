import ThemeBuilder.Failure
import ThemeBuilder.FileTree.Basic

/-! Following paths through a file tree, symbolic links included. -/
namespace ThemeBuilder.FileTree
open Bytes

/-- Where a path leads: to something, or to a name that its directory does not hold yet. -/
inductive Spot where
  | occupied (loc : Location)
  | vacant (dir : Location) (name : Name)
  deriving DecidableEq

/-- What a path is followed for. A new file's name must be a proper one: neither `.` nor `..`, nor
followed by a slash. -/
inductive Purpose where
  | use
  | create
  deriving DecidableEq

/-- A path still to be followed. -/
structure Route where
  components : List Bytes
  trailing : Bool

def Route.ofPath (p : Path) : Route := ⟨p.components, p.hasTrailingSlash⟩

/-- Follows components through the directories of a tree, beginning in `dir`. At a link it goes on
with `jump`, from the link's directory or from the root, with the link's target before what was
left. -/
def walkWith (t : FileTree) (purpose : Purpose) (trailing : Bool)
    (jump : Location → Route → Except Errno Spot) (dir : Location) :
    List Bytes → Except Errno Spot
  | [] => if purpose = .create then .error .isDirectory else .ok (.occupied dir)
  | c :: cs =>
    let isLast := cs.isEmpty
    if purpose = .create ∧ isLast ∧ (trailing ∨ c = [dot] ∨ c = [dot, dot]) then
      .error .isDirectory
    else if c = [dot] then walkWith t purpose trailing jump dir cs
    else if c = [dot, dot] then walkWith t purpose trailing jump dir.tail cs
    else if h : IsName c then
      let name : Name := ⟨c, h⟩
      match t.node? (name :: dir) with
      | none => if isLast ∧ !trailing then .ok (.vacant dir name) else .error .notFound
      | some .directory =>
        if isLast ∧ purpose = .use then .ok (.occupied (name :: dir))
        else walkWith t purpose trailing jump (name :: dir) cs
      | some (.link target) =>
        let onward := Route.ofPath target
        jump (if target.isAbsolute then [] else dir)
          ⟨onward.components ++ cs, trailing || (isLast && onward.trailing)⟩
      | some _ =>
        if isLast ∧ !trailing then .ok (.occupied (name :: dir)) else .error .notDirectory
    else .error .nameTooLong

/-- Follows a route with at most `links` links on the way. -/
def walk (t : FileTree) (purpose : Purpose) : (links : Nat) → Location → Route →
    Except Errno Spot
  | 0, dir, route =>
    walkWith t purpose route.trailing (fun _ _ => .error .tooManyLinks) dir route.components
  | n + 1, dir, route =>
    walkWith t purpose route.trailing (walk t purpose n) dir route.components

/-- No more links are followed on the way of one path. -/
def mostLinks : Nat := 40

def longestPath : Nat := 4095

def spot (t : FileTree) (purpose : Purpose) (p : Path) : Except FileError Spot :=
  if nul ∈ p then .error .nulByte
  else if p = [] then .error (.system .notFound)
  else if p.length > longestPath then .error (.system .nameTooLong)
  else (walk t purpose mostLinks [] (Route.ofPath p)).mapError .system

def locate (t : FileTree) (p : Path) : Except FileError Location := do
  match ← t.spot .use p with
  | .occupied loc => .ok loc
  | .vacant .. => .error (.system .notFound)

end ThemeBuilder.FileTree
