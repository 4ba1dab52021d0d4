import ThemeBuilder.Report

/-! What the system may refuse while archives are made, whatever the tree holds. -/
namespace ThemeBuilder

/-- Why a file that is to be packed cannot be read. -/
inductive Denial where
  | contents (cause : FileError)
  /-- Its bytes can be had, but not what is noted about it. -/
  | metadata (cause : FileError)
  deriving DecidableEq

/-- How the completion of an archive goes. Where it fails, only the first `kept` of the bytes that
complete the archive have reached the file. -/
inductive Completion where
  | whole
  | unclosed (kept : Nat) (cause : FileError)
  | unflushed (kept : Nat) (cause : FileError)
  deriving DecidableEq

namespace Completion

def reaches : Completion → Bytes → Bytes
  | whole, trailer => trailer
  | unclosed kept _, trailer | unflushed kept _, trailer => trailer.take kept

def outcome (out : Path) : Completion → Except Failure Unit
  | whole => .ok ()
  | unclosed _ cause => .error ⟨[.finalizing out], .file cause⟩
  | unflushed _ cause => .error ⟨[.flushing out], .file cause⟩

end Completion

/-- What the system has to say to the making of archives, apart from what the tree shows: it may
deny access, and a medium may fail. What is written to an archive before its completion does get
there. -/
structure Disk where
  /-- Why no archive can be made at a path. -/
  making : Path → Option FileError := fun _ => none
  /-- Why the file at a path cannot be read. -/
  reading : Path → Option Denial := fun _ => none
  completion : Path → Completion := fun _ => .whole

namespace Disk

def sound : Disk := {}

/-- Files are refused as their permission bits in a tree ask for, when they are their owner's to
read. -/
def guarding (t : FileTree) : Disk where
  reading p :=
    match t.read p with
    | .ok f => if f.isReadable then none else some (.contents (.system .permissionDenied))
    | .error _ => none

def create (disk : Disk) (p : Path) : Action Location :=
  match disk.making p with
  | some e => Action.fail ⟨[.creatingArchive p], .file e⟩
  | none => Action.create (.creatingArchive p) p

/-- Reads a file that is to be packed, first its bytes. -/
def read (disk : Disk) (p : Path) : Action File :=
  match disk.reading p with
  | some (.contents e) => Action.fail ⟨[.reading p], .file e⟩
  | some (.metadata e) => do
    discard (Action.read p)
    Action.fail ⟨[.readingMetadata p], .file e⟩
  | none => Action.read p

end Disk
end ThemeBuilder
