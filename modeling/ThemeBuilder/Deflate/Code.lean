import ThemeBuilder.Deflate.Bits
import ThemeBuilder.Deflate.Token

/-! The fixed codes. Symbols below 256 are literal bytes, 256 ends the block, and those above it
begin a copy: a length, then a distance, each a step of a scale and an offset within the step. -/
namespace ThemeBuilder.Deflate

/-- A value's place on a scale: the step, the offset in it, and the bits that the offset takes. -/
structure Place where
  index : Nat
  offset : Nat
  width : Nat
  deriving DecidableEq

/-- The place of a value on the scale whose steps begin at `base` and hold `2 ^ w` values each,
for the widths `w` given. -/
def place? (base : Nat) : List Nat → Nat → Option Place
  | [], _ => none
  | w :: ws, v =>
    if v < base + 2 ^ w then some ⟨0, v - base, w⟩
    else (place? (base + 2 ^ w) ws v).map fun p => { p with index := p.index + 1 }

/-- Where a step of such a scale begins, and its width. -/
def step? (base : Nat) : List Nat → Nat → Option (Nat × Nat)
  | [], _ => none
  | w :: _, 0 => some (base, w)
  | w :: ws, i + 1 => step? (base + 2 ^ w) ws i

/-- Lengths from 3 to 257. The greatest length, 258, has a symbol of its own. -/
def lengthWidths : List Nat :=
  [0, 0, 0, 0, 0, 0, 0, 0, 1, 1, 1, 1, 2, 2, 2, 2, 3, 3, 3, 3, 4, 4, 4, 4, 5, 5, 5, 5]

/-- Distances from 1 to 32768. -/
def distanceWidths : List Nat :=
  [0, 0, 0, 0, 1, 1, 2, 2, 3, 3, 4, 4, 5, 5, 6, 6, 7, 7, 8, 8, 9, 9, 10, 10, 11, 11, 12, 12, 13, 13]

def endOfBlock : Nat := 256

def greatestLength : Nat := 285

def symbolCode (s : Nat) : Bits :=
  if s < 144 then highFirst 8 (0x30 + s)
  else if s < 256 then highFirst 9 (0x190 + (s - 144))
  else if s < 280 then highFirst 7 (s - 256)
  else highFirst 8 (0xC0 + (s - 280))

def readSymbol (bits : Bits) : Option (Nat × Bits) := do
  let (seven, rest) ← split? 7 bits
  let v := ofHighFirst seven
  if v < 0x18 then some (256 + v, rest)
  else
    let (eight, rest) ← split? 8 bits
    let v := ofHighFirst eight
    if v < 0xC0 then some (v - 0x30, rest)
    else if v < 0xC8 then some (280 + (v - 0xC0), rest)
    else
      let (nine, rest) ← split? 9 bits
      some (144 + (ofHighFirst nine - 0x190), rest)

def placeBits (p : Place) : Bits := lowFirst p.width p.offset

def lengthCode (length : Nat) : Bits :=
  if length = 258 then symbolCode greatestLength
  else match place? 3 lengthWidths length with
    | some p => symbolCode (257 + p.index) ++ placeBits p
    | none => []

def distanceCode (distance : Nat) : Bits :=
  match place? 1 distanceWidths distance with
  | some p => highFirst 5 p.index ++ placeBits p
  | none => []

def tokenCode : Token → Bits
  | .literal b => symbolCode b.toNat
  | .copy length distance => lengthCode length ++ distanceCode distance

/-- A value on a scale, its step known and its offset still to be read. -/
def readOffset (base : Nat) (widths : List Nat) (index : Nat) (bits : Bits) :
    Option (Nat × Bits) := do
  let (first, width) ← step? base widths index
  let (offset, rest) ← split? width bits
  some (first + ofLowFirst offset, rest)

/-- The copy that a symbol above 256 begins. -/
def readCopy (symbol : Nat) (bits : Bits) : Option (Token × Bits) := do
  let (length, rest) ←
    if symbol = greatestLength then some (258, bits)
    else readOffset 3 lengthWidths (symbol - 257) bits
  let (index, rest) ← split? 5 rest
  let (distance, rest) ← readOffset 1 distanceWidths (ofHighFirst index) rest
  some (.copy length distance, rest)

/-- The tokens up to the end of the block, of which there are fewer than `bound`. -/
def readTokens : (bound : Nat) → Bits → Option (List Token)
  | 0, _ => none
  | n + 1, bits => do
    let (symbol, rest) ← readSymbol bits
    if symbol = endOfBlock then some []
    else if symbol < endOfBlock then
      return .literal (UInt8.ofNat symbol) :: (← readTokens n rest)
    else
      let (token, rest) ← readCopy symbol rest
      return token :: (← readTokens n rest)

end ThemeBuilder.Deflate
