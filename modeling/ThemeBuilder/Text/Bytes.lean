/-! Byte strings: file contents, file names and paths, none of which need be text. -/
namespace ThemeBuilder

abbrev Bytes := List UInt8

namespace Bytes

abbrev tab : UInt8 := 0x09
abbrev newline : UInt8 := 0x0a
abbrev carriageReturn : UInt8 := 0x0d
abbrev space : UInt8 := 0x20
abbrev doubleQuote : UInt8 := 0x22
abbrev singleQuote : UInt8 := 0x27
abbrev star : UInt8 := 0x2a
abbrev dash : UInt8 := 0x2d
abbrev dot : UInt8 := 0x2e
abbrev slash : UInt8 := 0x2f
abbrev nul : UInt8 := 0x00

/-- Space, tab, line feed, vertical tab, form feed or carriage return. -/
def isBlank (b : UInt8) : Bool :=
  b == space || b == tab || b == newline || b == 0x0b || b == 0x0c || b == carriageReturn

/-- The pieces of a byte string between the bytes that satisfy `sep`; one piece more than there
are such bytes. -/
def splitOn (sep : UInt8 → Bool) : Bytes → List Bytes
  | [] => [[]]
  | b :: bs =>
    if sep b then [] :: splitOn sep bs
    else match splitOn sep bs with
      | [] => [[b]]
      | piece :: pieces => (b :: piece) :: pieces

/-- The lines of a text without their line feeds. A last line that has no line feed counts, and
the empty text has no line. -/
def lines : Bytes → List Bytes
  | [] => []
  | b :: bs =>
    if b = newline then [] :: lines bs
    else match lines bs with
      | [] => [[b]]
      | line :: rest => (b :: line) :: rest

end Bytes
end ThemeBuilder
