import ThemeBuilder.Deflate.Token
import Std.Data.HashMap

/-! A greedy search for copies. Nothing depends on what it finds but the size of the result: its
tokens are used only where they expand to the data and have codes. -/
namespace ThemeBuilder.Deflate

/-- How many bytes from `i` on agree with those from `j` on, up to a bound. -/
def agreement (data : Array UInt8) (i j : Nat) : (bound : Nat) → Nat
  | 0 => 0
  | n + 1 =>
    match data[i]?, data[j]? with
    | some a, some b => if a = b then agreement data (i + 1) (j + 1) n + 1 else 0
    | _, _ => 0

def triple? (data : Array UInt8) (i : Nat) : Option Nat :=
  match data[i]?, data[i + 1]?, data[i + 2]? with
  | some a, some b, some c => some (a.toNat * 0x10000 + b.toNat * 0x100 + c.toNat)
  | _, _, _ => none

/-- A copy for the data from `i` on, of the latest place that begins alike. -/
def findCopy (data : Array UInt8) (latest : Std.HashMap Nat Nat) (i : Nat) :
    Option (Nat × Nat) := do
  let j ← latest[(← triple? data i)]?
  let length := agreement data i j 258
  if 3 ≤ length ∧ i - j ≤ 32768 then some (length, i - j) else none

/-- Notes that the places from `i` on, `count` of them, are the latest with their three bytes. -/
def remember (data : Array UInt8) (i : Nat) : (count : Nat) → Std.HashMap Nat Nat →
    Std.HashMap Nat Nat
  | 0, latest => latest
  | n + 1, latest =>
    remember data (i + 1) n (match triple? data i with
      | some key => latest.insert key i
      | none => latest)

/-- Tokens for the data from `i` on, before those found already, which come last first. -/
def searchFrom (data : Array UInt8) : (bound : Nat) → (i : Nat) → Std.HashMap Nat Nat →
    List Token → List Token
  | 0, _, _, found => found.reverse
  | n + 1, i, latest, found =>
    match data[i]? with
    | none => found.reverse
    | some b =>
      match findCopy data latest i with
      | some (length, distance) =>
        searchFrom data n (i + length) (remember data i length latest)
          (.copy length distance :: found)
      | none => searchFrom data n (i + 1) (remember data i 1 latest) (.literal b :: found)

def search (data : Array UInt8) : List Token := searchFrom data data.size 0 ∅ []

/-- Tokens for a byte string: those of the search if they are right, and else its bytes. -/
def tokens (data : Bytes) : List Token :=
  let found := search data.toArray
  if found.all Token.isCoded ∧ expand #[] found = some data.toArray then found
  else data.map .literal

end ThemeBuilder.Deflate
