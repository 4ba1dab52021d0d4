import ThemeBuilder.FileTree.Resolve

/-! Operations on a file tree by path. They take the permission bits of files for data and grant all
access, and no write fails for want of space or by a fault of the medium. -/
namespace ThemeBuilder.FileTree

/-- What a path leads to, links followed. -/
def nodeAt? (t : FileTree) (p : Path) : Option Node :=
  match t.locate p with
  | .ok loc => t.node? loc
  | .error _ => none

def isDirectory (t : FileTree) (p : Path) : Bool := t.nodeAt? p == some .directory

def isFile (t : FileTree) (p : Path) : Bool :=
  match t.nodeAt? p with
  | some (.file _) => true
  | _ => false

/-- The regular file that a path leads to, whatever its permission bits are. -/
def read (t : FileTree) (p : Path) : Except FileError File := do
  match t.node? (← t.locate p) with
  | some (.file f) => .ok f
  | some .directory => .error (.system .isDirectory)
  | _ => .error (.system .noSuchDevice)

def list (t : FileTree) (p : Path) : Except FileError (List Name) := do
  let loc ← t.locate p
  if t.node? loc = some .directory then .ok (t.children loc)
  else .error (.system .notDirectory)

/-- Replaces the bytes of a regular file. Its permission bits stay. -/
def write (t : FileTree) (loc : Location) (bytes : Bytes) : FileTree :=
  t.modify loc fun
    | .file f => .file { f with bytes := bytes, modified := t.clock }
    | node => node

/-- Adds bytes to the end of a regular file. All of them arrive. -/
def append (t : FileTree) (loc : Location) (bytes : Bytes) : FileTree :=
  match t.file? loc with
  | some f => t.write loc (f.bytes ++ bytes)
  | none => t

/-- The permission bits of a file that a program makes. -/
def madeMode : Nat := 0o644

/-- Makes an empty file, or empties the one that is there. Every directory admits a new file, and
every file may be written. -/
def create (t : FileTree) (p : Path) : Except FileError (Location × FileTree) := do
  match ← t.spot .create p with
  | .vacant dir name =>
    .ok (name :: dir, t.add ⟨name :: dir, .file ⟨[], t.clock, madeMode⟩, true⟩)
  | .occupied loc =>
    match t.file? loc with
    | some _ => .ok (loc, t.write loc [])
    | none => .error (.system .noSuchDevice)

/-- The place below a directory that components lead to, and the tree with the directories that
were missing on the way. -/
def makeDirectories (t : FileTree) (dir : Location) : List Bytes → FileTree × Location
  | [] => (t, dir)
  | c :: cs =>
    if c = [Bytes.dot] then makeDirectories t dir cs
    else if c = [Bytes.dot, Bytes.dot] then makeDirectories t dir.tail cs
    else if h : IsName c then
      let loc : Location := ⟨c, h⟩ :: dir
      match t.node? loc, t.locate (Location.path loc) with
      | some (.link _), .ok target => makeDirectories t target cs
      | _, _ => makeDirectories (t.add ⟨loc, .directory, false⟩) loc cs
    else (t, dir)

/-- Puts a node at a place as if it had been there before any program ran: where there is one
already, it keeps that one's rank. What was below a directory stays only if it is one again. -/
def put (t : FileTree) (loc : Location) (node : Node) : FileTree :=
  let kept :=
    if node = .directory then t else t.removeWhere fun l => l != loc && loc.isSuffixOf l
  match kept.entry? loc with
  | some e =>
    if e.made then (kept.removeWhere (· == loc)).add ⟨loc, node, false⟩
    else kept.modify loc fun _ => node
  | none => kept.add ⟨loc, node, false⟩

/-- Puts a node where a path says, with the directories that this takes. -/
def putAt (t : FileTree) (p : Path) (node : Node) : FileTree :=
  match p.components.reverse with
  | [] => t
  | c :: parents =>
    let (t, dir) := t.makeDirectories [] parents.reverse
    if h : IsName c then t.put (⟨c, h⟩ :: dir) node else t

/-- Removes what is at a path, links not followed at its end, with all that is below. -/
def removeAt (t : FileTree) (p : Path) : FileTree :=
  match p.components.reverse with
  | [] => t
  | c :: parents =>
    let (_, dir) := t.makeDirectories [] parents.reverse
    if h : IsName c then t.removeWhere (List.isSuffixOf (⟨c, h⟩ :: dir)) else t

end ThemeBuilder.FileTree
