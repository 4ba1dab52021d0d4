import ThemeBuilder.Text.Utf8

/-! What can go wrong: causes from the file system, causes that concern a theme, and the activity
that each was met in. The wording of each stands in one place. -/
namespace ThemeBuilder

inductive Errno where
  | notPermitted
  | notFound
  | inputOutput
  | noSuchDevice
  | permissionDenied
  | fileExists
  | notDirectory
  | isDirectory
  | invalidArgument
  | noSpace
  | readOnly
  | nameTooLong
  | tooManyLinks
  deriving DecidableEq

namespace Errno

def code : Errno → Nat
  | notPermitted => 1
  | notFound => 2
  | inputOutput => 5
  | noSuchDevice => 6
  | permissionDenied => 13
  | fileExists => 17
  | notDirectory => 20
  | isDirectory => 21
  | invalidArgument => 22
  | noSpace => 28
  | readOnly => 30
  | nameTooLong => 36
  | tooManyLinks => 40

def text : Errno → String
  | notPermitted => "Operation not permitted"
  | notFound => "No such file or directory"
  | inputOutput => "Input/output error"
  | noSuchDevice => "No such device or address"
  | permissionDenied => "Permission denied"
  | fileExists => "File exists"
  | notDirectory => "Not a directory"
  | isDirectory => "Is a directory"
  | invalidArgument => "Invalid argument"
  | noSpace => "No space left on device"
  | readOnly => "Read-only file system"
  | nameTooLong => "File name too long"
  | tooManyLinks => "Too many levels of symbolic links"

def all : List Errno :=
  [notPermitted, notFound, inputOutput, noSuchDevice, permissionDenied, fileExists, notDirectory,
    isDirectory, invalidArgument, noSpace, readOnly, nameTooLong, tooManyLinks]

def ofCode? (n : Nat) : Option Errno := all.find? (·.code == n)

end Errno

inductive FileError where
  | system (cause : Errno)
  /-- A path with a zero byte names no file. -/
  | nulByte
  /-- The output took no more bytes. -/
  | writeZero
  | other (text : String)
  deriving DecidableEq

def FileError.message : FileError → String
  | system cause => cause.text ++ " (os error " ++ toString cause.code ++ ")"
  | nulByte => "file name contained an unexpected NUL byte"
  | writeZero => "failed to write whole buffer"
  | other text => text

/-- What is wrong with a theme or with a directory that holds themes. -/
inductive ThemeFault where
  /-- The theme to archive is no directory. -/
  | invalidTheme (name : String)
  /-- The theme to write a definition listing of is no directory. -/
  | missingTheme (path : Bytes)
  /-- A directory could not be listed. -/
  | unlistable (path : Bytes) (cause : FileError)
  deriving DecidableEq

namespace ThemeFault

def message : ThemeFault → String
  | invalidTheme name => "invalid theme name: " ++ name
  | missingTheme path => "cannot open default theme dir: " ++ Utf8.lossy path
  | unlistable path cause => "I/O error on " ++ Utf8.lossy path ++ ": " ++ cause.message

def source : ThemeFault → Option FileError
  | unlistable _ cause => some cause
  | _ => none

/-- Whether the error only says that a target is no theme directory. -/
def isNoTheme : ThemeFault → Bool
  | unlistable .. => false
  | _ => true

end ThemeFault

inductive Cause where
  | theme (error : ThemeFault)
  | file (error : FileError)
  /-- The name of an archive entry does not fit its length field. -/
  | entryNameTooLong
  deriving DecidableEq

/-- The texts of a cause and of what lies behind it, outermost first. -/
def Cause.messages : Cause → List String
  | theme error => error.message :: error.source.toList.map FileError.message
  | file error => [error.message]
  | entryNameTooLong => ["filename exceeded maximum size"]

inductive Activity where
  | creatingArchive (path : Bytes)
  | creating (path : Bytes)
  | reading (path : Bytes)
  | readingMetadata (path : Bytes)
  | addingEntry (name : Bytes)
  | finalizing (path : Bytes)
  | flushing (path : Bytes)
  | described (text : String)
  deriving DecidableEq

def Activity.message : Activity → String
  | creatingArchive path => "creating archive " ++ Utf8.lossy path
  | creating path => "creating " ++ Utf8.lossy path
  | reading path => "reading " ++ Utf8.lossy path
  | readingMetadata path => "reading metadata of " ++ Utf8.lossy path
  | addingEntry name => "adding " ++ Utf8.lossy name ++ " to archive"
  | finalizing path => "finalizing " ++ Utf8.lossy path
  | flushing path => "flushing " ++ Utf8.lossy path
  | described text => text

/-- A cause and the activities around it, outermost first. -/
structure Failure where
  activities : List Activity := []
  cause : Cause
  deriving DecidableEq

namespace Failure

def during (activity : Activity) (failure : Failure) : Failure :=
  { failure with activities := activity :: failure.activities }

def messages (failure : Failure) : List String :=
  failure.activities.map Activity.message ++ failure.cause.messages

def message (failure : Failure) : String := failure.messages.headD ""

def chain (failure : Failure) : String := ": ".intercalate failure.messages

/-- Whether the failure only says that a target is no theme directory. The activities around the
cause do not matter. -/
def isNoTheme (failure : Failure) : Bool :=
  match failure.cause with
  | .theme error => error.isNoTheme
  | _ => false

/-- The outermost text and below it what caused it, numbered when there are several causes. -/
def report (failure : Failure) : String :=
  "Error: " ++ failure.message ++ causes failure.messages.tail ++ "\n"
where
  causes : List String → String
    | [] => ""
    | [inner] => "\n\nCaused by:\n    " ++ inner
    | inners =>
      "\n\nCaused by:" ++ String.join (inners.zipIdx.map fun (inner, i) =>
        "\n" ++ String.ofList ((toString i).toList.leftpad 5 ' ') ++ ": " ++ inner)

end Failure
end ThemeBuilder
