import ThemeBuilder.Text.Bytes

/-! Data as a sequence of literal bytes and of copies of what came shortly before. -/
namespace ThemeBuilder.Deflate

inductive Token where
  | literal (b : UInt8)
  /-- The `length` bytes that begin `distance` bytes back. They may reach into the copy itself. -/
  | copy (length distance : Nat)
  deriving DecidableEq

/-- Whether the length and the distance have codes. -/
def Token.isCoded : Token → Bool
  | literal _ => true
  | copy length distance => 3 ≤ length && length ≤ 258 && 1 ≤ distance && distance ≤ 32768

/-- Appends `length` bytes, each equal to the one `distance` bytes before it. -/
def copyBack (out : Array UInt8) (distance : Nat) : (length : Nat) → Option (Array UInt8)
  | 0 => some out
  | n + 1 =>
    if 0 < distance ∧ distance ≤ out.size then
      match out[out.size - distance]? with
      | some b => copyBack (out.push b) distance n
      | none => none
    else none

/-- The data that tokens describe after what is already there; none where a copy would begin
before the data does. -/
def expand (out : Array UInt8) : List Token → Option (Array UInt8)
  | [] => some out
  | .literal b :: ts => expand (out.push b) ts
  | .copy length distance :: ts =>
    match copyBack out distance length with
    | some out => expand out ts
    | none => none

end ThemeBuilder.Deflate
