import ThemeBuilder.Text.Bytes

/-! The cyclic redundancy check of archive entries, with the reflected polynomial EDB88320. -/
namespace ThemeBuilder.Checksum

/-- One bit of the division. -/
def shift (r : UInt32) : UInt32 :=
  if r &&& 1 = 1 then (r >>> 1) ^^^ 0xEDB88320 else r >>> 1

def step (r : UInt32) (b : UInt8) : UInt32 :=
  (List.range 8).foldl (fun r _ => shift r) (r ^^^ b.toUInt32)

def crc32 (bs : Bytes) : UInt32 := bs.foldl step 0xFFFFFFFF ^^^ 0xFFFFFFFF

/-- The check value of the code, for the digits from 1 to 9. -/
example : crc32 [0x31, 0x32, 0x33, 0x34, 0x35, 0x36, 0x37, 0x38, 0x39] = 0xCBF43926 := by
  decide +kernel

end ThemeBuilder.Checksum
