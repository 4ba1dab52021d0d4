import ThemeBuilder.Text.Printable
import ThemeBuilder.Text.Utf8

/-! Byte strings between double quotes, as diagnostics show them. -/
namespace ThemeBuilder.Quoted

def hex (upper : Bool) (width n : Nat) : List Char :=
  let digits := (Nat.toDigits 16 n).map fun c => if upper then c.toUpper else c
  digits.leftpad width '0'

def codePoint (c : Char) : List Char := ['\\', 'u', '\x7b'] ++ hex false 0 c.toNat ++ ['\x7d']

/-- A character as it stands between the quotes. -/
def character (c : Char) : List Char :=
  if c = '\x00' then ['\\', '0']
  else if c = '\t' then ['\\', 't']
  else if c = '\r' then ['\\', 'r']
  else if c = '\n' then ['\\', 'n']
  else if c = '\\' ∨ c = '"' ∨ c = '\'' then ['\\', c]
  else if isPrintable c then [c]
  else codePoint c

/-- A byte that belongs to no character. -/
def byte (b : UInt8) : List Char := ['\\', 'x'] ++ hex true 2 b.toNat

def piece : Utf8.Piece → List Char
  | .scalar c => character c
  | .malformed bytes => bytes.flatMap byte

def quote (bs : Bytes) : String :=
  String.ofList ('"' :: (Utf8.pieces bs).flatMap piece ++ ['"'])

end ThemeBuilder.Quoted
