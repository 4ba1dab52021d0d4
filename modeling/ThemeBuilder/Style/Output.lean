import ThemeBuilder.Style.Source

/-! Listing lines on their way to an output, each followed by a line feed that is a piece of its
own. An output may be full after some bytes, or may hold bytes back to write them together. -/
namespace ThemeBuilder.Style

def listingPieces (text : Bytes) : List Bytes :=
  (listingLines text).flatMap fun line => [line, [Bytes.newline]]

def listing (text : Bytes) : Bytes :=
  (listingLines text).flatMap fun line => line ++ [Bytes.newline]

structure Delivery where
  accepted : Bytes
  /-- How many bytes more the output takes, if that is bounded. -/
  room : Option Nat
  complete : Bool
  deriving DecidableEq

/-- Offers pieces in order. Of one that does not fit the output takes what fits, and those after
it are not offered. -/
def deliver : (room : Option Nat) → List Bytes → Delivery
  | room, [] => ⟨[], room, true⟩
  | none, piece :: pieces =>
    let rest := deliver none pieces
    { rest with accepted := piece ++ rest.accepted }
  | some n, piece :: pieces =>
    if piece.length ≤ n then
      let rest := deliver (some (n - piece.length)) pieces
      { rest with accepted := piece ++ rest.accepted }
    else ⟨piece.take n, some 0, false⟩

/-- What became of texts whose listings were written one after the other: for each its number of
lines, or none where the output did not take it all. -/
structure Transcript where
  written : Bytes
  results : List (Option Nat)
  deriving DecidableEq

/-- Writes the listings of texts to one output. A text after one that was cut off is tried all the
same. -/
def writeListings : (room : Option Nat) → List Bytes → Transcript
  | _, [] => ⟨[], []⟩
  | room, text :: texts =>
    let d := deliver room (listingPieces text)
    let rest := writeListings d.room texts
    { written := d.accepted ++ rest.written
      results := (if d.complete then some (listingLines text).length else none) :: rest.results }

def bufferSize : Nat := 8192

/-- Takes a piece into a buffer that holds `pending`: gives what is written now and what is held
back then. The buffer is written out when the piece would overfill it, and a piece that alone
would fill it is not held back. -/
def buffer (pending piece : Bytes) : Bytes × Bytes :=
  if pending.length + piece.length ≤ bufferSize ∧ piece.length < bufferSize then
    ([], pending ++ piece)
  else if piece.length < bufferSize then (pending, piece)
  else (pending ++ piece, [])

def bufferAll (pending : Bytes) : List Bytes → Bytes × Bytes
  | [] => ([], pending)
  | piece :: pieces =>
    let (written, pending) := buffer pending piece
    let (more, pending) := bufferAll pending pieces
    (written ++ more, pending)

end ThemeBuilder.Style
