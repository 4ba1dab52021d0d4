import ThemeBuilder.Text.Bytes

/-! Bit strings and the bytes that hold them. Numbers go lowest bit first, codes highest bit
first, and each byte fills from its lowest bit. -/
namespace ThemeBuilder.Deflate

abbrev Bits := List Bool

/-- The `width` low bits of a number, lowest first. -/
def lowFirst : (width : Nat) → Nat → Bits
  | 0, _ => []
  | w + 1, v => (v % 2 == 1) :: lowFirst w (v / 2)

def ofLowFirst : Bits → Nat
  | [] => 0
  | b :: bs => b.toNat + 2 * ofLowFirst bs

/-- The `width` low bits of a number, highest first. -/
def highFirst (width v : Nat) : Bits := (lowFirst width v).reverse

def ofHighFirst (bits : Bits) : Nat := ofLowFirst bits.reverse

/-- The bytes that hold a bit string; the last is filled up with zeros. -/
def pack : Bits → Bytes
  | [] => []
  | b :: bs => UInt8.ofNat (ofLowFirst ((b :: bs).take 8)) :: pack (bs.drop 7)
termination_by bits => bits.length
decreasing_by
  simp only [List.length_drop, List.length_cons]
  omega

def unpack (bytes : Bytes) : Bits := bytes.flatMap fun b => lowFirst 8 b.toNat

def split? : (width : Nat) → Bits → Option (Bits × Bits)
  | 0, bits => some ([], bits)
  | _ + 1, [] => none
  | w + 1, b :: bits => (split? w bits).map fun (front, rest) => (b :: front, rest)

end ThemeBuilder.Deflate
