import ThemeBuilder.Text.Bytes

/-! UTF-8. A byte string falls into pieces, each the encoding of one scalar value or a run that
begins none; a text shown to the user has U+FFFD in place of each malformed run. -/
namespace ThemeBuilder.Utf8

def encodeChar (c : Char) : Bytes :=
  let v := c.toNat
  if v < 0x80 then [UInt8.ofNat v]
  else if v < 0x800 then [UInt8.ofNat (0xC0 + v / 0x40), UInt8.ofNat (0x80 + v % 0x40)]
  else if v < 0x10000 then
    [UInt8.ofNat (0xE0 + v / 0x1000), UInt8.ofNat (0x80 + v / 0x40 % 0x40),
      UInt8.ofNat (0x80 + v % 0x40)]
  else
    [UInt8.ofNat (0xF0 + v / 0x40000), UInt8.ofNat (0x80 + v / 0x1000 % 0x40),
      UInt8.ofNat (0x80 + v / 0x40 % 0x40), UInt8.ofNat (0x80 + v % 0x40)]

def encodeChars (cs : List Char) : Bytes := cs.flatMap encodeChar

def encode (s : String) : Bytes := encodeChars s.toList

/-- What a lead byte announces: its share of the value, how many bytes follow it, and the range
of the first of them. All later ones lie in 80–BF. -/
structure Lead where
  high : Nat
  count : Nat
  least : UInt8 := 0x80
  greatest : UInt8 := 0xBF

/-- The narrowed ranges after E0, ED, F0 and F4 leave out overlong forms, surrogates and values
above U+10FFFF. -/
def lead? (b : UInt8) : Option Lead :=
  if b ≤ 0x7F then some { high := b.toNat, count := 0 }
  else if b < 0xC2 then none
  else if b ≤ 0xDF then some { high := b.toNat - 0xC0, count := 1 }
  else if b = 0xE0 then some { high := 0, count := 2, least := 0xA0 }
  else if b = 0xED then some { high := 0xD, count := 2, greatest := 0x9F }
  else if b ≤ 0xEF then some { high := b.toNat - 0xE0, count := 2 }
  else if b = 0xF0 then some { high := 0, count := 3, least := 0x90 }
  else if b ≤ 0xF3 then some { high := b.toNat - 0xF0, count := 3 }
  else if b = 0xF4 then some { high := 4, count := 3, greatest := 0x8F }
  else none

/-- At most `n` bytes from the front, the first in the range `lo`–`hi` and the others in 80–BF,
and what is left. -/
def continuation : Nat → UInt8 → UInt8 → Bytes → Bytes × Bytes
  | n + 1, lo, hi, b :: bs =>
    if lo ≤ b ∧ b ≤ hi then
      let (taken, rest) := continuation n 0x80 0xBF bs
      (b :: taken, rest)
    else ([], b :: bs)
  | _, _, _, bs => ([], bs)

inductive Piece where
  | scalar (c : Char)
  | malformed (bytes : Bytes)
  deriving DecidableEq

/-- The piece that begins with a given byte, and what follows it. A malformed piece is as long as
some encoding begins like it. -/
def firstPiece (b : UInt8) (bs : Bytes) : Piece × Bytes :=
  match lead? b with
  | none => (.malformed [b], bs)
  | some l =>
    let (tail, rest) := continuation l.count l.least l.greatest bs
    if tail.length = l.count then
      (.scalar (Char.ofNat (tail.foldl (fun v t => v * 0x40 + (t.toNat - 0x80)) l.high)), rest)
    else (.malformed (b :: tail), rest)

theorem length_continuation (n : Nat) (lo hi : UInt8) (bs : Bytes) :
    (continuation n lo hi bs).2.length ≤ bs.length := by
  fun_induction continuation n lo hi bs with
  | case1 n lo hi b bs h taken rest heq ih => simp_all; omega
  | case2 => simp
  | case3 => simp

theorem length_firstPiece (b : UInt8) (bs : Bytes) : (firstPiece b bs).2.length ≤ bs.length := by
  unfold firstPiece
  split
  · simp
  · rename_i l _
    have := length_continuation l.count l.least l.greatest bs
    dsimp only
    split <;> exact this

def pieces : Bytes → List Piece
  | [] => []
  | b :: bs => (firstPiece b bs).1 :: pieces (firstPiece b bs).2
termination_by bs => bs.length
decreasing_by
  have := length_firstPiece b bs
  simp only [List.length_cons]
  omega

def Piece.isScalar : Piece → Bool
  | .scalar _ => true
  | .malformed _ => false

def Piece.shown : Piece → Char
  | .scalar c => c
  | .malformed _ => '\uFFFD'

def valid (bs : Bytes) : Bool := (pieces bs).all Piece.isScalar

/-- The characters of a byte string, each malformed piece as one U+FFFD. -/
def lossyChars (bs : Bytes) : List Char := (pieces bs).map Piece.shown

def lossy (bs : Bytes) : String := String.ofList (lossyChars bs)

end ThemeBuilder.Utf8
