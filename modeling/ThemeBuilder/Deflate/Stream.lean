import ThemeBuilder.Deflate.Code
import ThemeBuilder.Deflate.Search

/-! Compressed data: one block, the last, in the fixed codes. -/
namespace ThemeBuilder.Deflate

/-- Marks the last block and its use of the fixed codes. -/
def blockHeader : Bits := [true, true, false]

def compress (data : Bytes) : Bytes :=
  pack (blockHeader ++ (tokens data).flatMap tokenCode ++ symbolCode endOfBlock)

/-- The data of a block in the fixed codes. What follows the block is not looked at. -/
def decompress? (bytes : Bytes) : Option Bytes := do
  let bits := unpack bytes
  if blockHeader.isPrefixOf bits then
    let ts ← readTokens bits.length (bits.drop blockHeader.length)
    let out ← expand #[] ts
    some out.toList
  else none

end ThemeBuilder.Deflate
