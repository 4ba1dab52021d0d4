import ThemeBuilder.FileTree.Path

/-! A file tree as a list of entries, each a place and what is there. The root is a directory
without an entry of its own. -/
namespace ThemeBuilder

/-- A regular file: its bytes, when it was last written, in seconds since 1970, and its permission
bits. -/
structure File where
  bytes : Bytes
  modified : Int
  mode : Nat
  deriving DecidableEq

/-- Whether the owner of a file may read it. -/
def File.isReadable (f : File) : Bool := f.mode &&& 0o400 != 0

inductive Node where
  | file (f : File)
  | directory
  /-- A symbolic link. A relative target begins in the directory that holds the link. -/
  | link (target : Path)
  /-- What is neither a file nor a directory. A process that opens a pipe waits for one at its other
  end; in a tree there is none, and opening the pipe fails at once, as for a device that is not
  there. -/
  | pipe
  deriving DecidableEq

namespace FileTree

structure Entry where
  location : Location
  node : Node
  /-- Whether a program made the entry. A directory lists those entries last, by their names. -/
  made : Bool := false
  deriving DecidableEq

end FileTree

structure FileTree where
  /-- In the order in which directories list them. -/
  entries : List FileTree.Entry
  /-- The time that is noted for files written now. -/
  clock : Int
  distinct : (entries.map (·.location)).Nodup

namespace FileTree

def empty (clock : Int) : FileTree := ⟨[], clock, List.nodup_nil⟩

def entry? (t : FileTree) (loc : Location) : Option Entry :=
  t.entries.find? (·.location = loc)

def node? (t : FileTree) (loc : Location) : Option Node :=
  if loc = [] then some .directory else (t.entry? loc).map (·.node)

def file? (t : FileTree) (loc : Location) : Option File :=
  match t.node? loc with
  | some (.file f) => some f
  | _ => none

/-- Changes what is at a place that has an entry. -/
def modify (t : FileTree) (loc : Location) (f : Node → Node) : FileTree where
  entries := t.entries.map fun e => if e.location = loc then { e with node := f e.node } else e
  clock := t.clock
  distinct := by
    have h : (t.entries.map fun e =>
        if e.location = loc then { e with node := f e.node } else e).map (·.location)
        = t.entries.map (·.location) := by
      simp only [List.map_map]
      apply List.map_congr_left
      intro e _
      simp only [Function.comp]
      split <;> rfl
    rw [h]
    exact t.distinct

/-- Adds an entry after all others, unless the place is taken. -/
def add (t : FileTree) (e : Entry) : FileTree :=
  if h : e.location ∈ t.entries.map (·.location) then t
  else
    { t with
      entries := t.entries ++ [e]
      distinct := by
        simp only [List.map_append, List.map_cons, List.map_nil, List.nodup_append]
        refine ⟨t.distinct, by simp, ?_⟩
        intro a ha b hb
        simp only [List.mem_singleton] at hb
        rintro rfl
        exact h (hb ▸ ha) }

def removeWhere (t : FileTree) (p : Location → Bool) : FileTree :=
  { t with
    entries := t.entries.filter fun e => !p e.location
    distinct := t.distinct.sublist (List.filter_sublist.map _) }

/-- The names that a directory lists: first of the entries that were there before any program
ran, in the order they came, and then of those made since, by name. -/
def children (t : FileTree) (dir : Location) : List Name :=
  names false ++ (names true).mergeSort fun a b => decide (a.bytes ≤ b.bytes)
where
  names (made : Bool) : List Name :=
    t.entries.filterMap fun e =>
      match e.location with
      | name :: parent => if parent = dir ∧ e.made = made then some name else none
      | [] => none

/-- Whether the owner of the tree may read all of its regular files, so that it can be looked
over. -/
def isReadable (t : FileTree) : Bool :=
  t.entries.all fun e =>
    match e.node with
    | .file f => f.isReadable
    | _ => true

/-- The regular files whose bytes are not those of an earlier tree, by the bytes of their paths. -/
def changedSince (t earlier : FileTree) : List (Path × Bytes) :=
  (t.entries.filterMap fun e =>
    match e.node with
    | .file f =>
      if (earlier.file? e.location).map (·.bytes) = some f.bytes then none
      else some (Location.path e.location, f.bytes)
    | _ => none).mergeSort fun a b => decide (a.1 ≤ b.1)

end FileTree
end ThemeBuilder
