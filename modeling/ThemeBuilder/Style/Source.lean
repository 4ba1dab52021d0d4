import ThemeBuilder.Style.Comment

/-! A style source becomes a list of quoted lines: lines are trimmed and joined again, comments
removed, blanks tidied, quotes made safe, and what is not blank is quoted line by line. -/
namespace ThemeBuilder.Style
open Bytes

/-- The blanks that are dropped at the end of a line. -/
def isTrailing (b : UInt8) : Bool :=
  b == carriageReturn || b == newline || b == tab || b == space

def trimEnd (line : Bytes) : Bytes := (line.reverse.dropWhile isTrailing).reverse

/-- A line without its trailing blanks and then without its leading ones. -/
def trim (line : Bytes) : Bytes := (trimEnd line).dropWhile isBlank

/-- Every line trimmed and ended by a space and a line feed. The space parts the words of two
lines when a comment removes the line feed between them. -/
def rejoin (text : Bytes) : Bytes :=
  (lines text).flatMap fun line => trim line ++ [space, newline]

def detab (text : Bytes) : Bytes := text.map fun b => if b = tab then space else b

/-- Each pair of adjacent spaces becomes one space, in one pass from the left: a run is halved,
not removed. -/
def halveSpaces : Bytes → Bytes
  | [] => []
  | [b] => [b]
  | a :: b :: bs =>
    if a = space ∧ b = space then space :: halveSpaces bs else a :: halveSpaces (b :: bs)

/-- A double quote ends a listing line, so a single one takes its place inside. -/
def softenQuotes (text : Bytes) : Bytes :=
  text.map fun b => if b = doubleQuote then singleQuote else b

/-- The lines that hold more than blanks. A carriage return ends a line too. -/
def nonblankLines (text : Bytes) : List Bytes :=
  (splitOn (fun b => b == newline || b == carriageReturn) text).filter fun line =>
    !line.all isBlank

def enquote (line : Bytes) : Bytes := doubleQuote :: (line ++ [doubleQuote])

def listingLines (text : Bytes) : List Bytes :=
  (nonblankLines (softenQuotes (halveSpaces (detab (withoutComments
    (rejoin text)))))).map enquote

end ThemeBuilder.Style
