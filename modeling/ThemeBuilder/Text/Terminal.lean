import ThemeBuilder.Text.Quoted

/-! Text that is safe on a terminal: what would ring, move the cursor or begin a control sequence
is written out. -/
namespace ThemeBuilder.Terminal

/-- The ASCII characters that a terminal obeys and that do not merely lay out text. -/
def commands : List Char := ['\x07', '\x08', '\x0c', '\x1b', '\x7f']

def character (c : Char) : List Char :=
  if c ∈ commands then ['\\', 'x'] ++ Quoted.hex false 2 c.toNat
  else if 0x80 ≤ c.toNat ∧ c.toNat ≤ 0x9f then Quoted.codePoint c
  else [c]

def inert (s : String) : String := String.ofList (s.toList.flatMap character)

end ThemeBuilder.Terminal
