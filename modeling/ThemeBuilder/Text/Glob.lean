/-! Glob patterns over the characters of a name. A `*` stands for any run of characters, a `?` for
one, a bracketed set for one of its members; nothing is special about slashes or leading dots. -/
namespace ThemeBuilder

structure CharRange where
  low : Char
  high : Char
  deriving DecidableEq

namespace Glob

inductive Token where
  | anyRun
  | anyChar
  | literal (c : Char)
  | oneOf (ranges : List CharRange)
  | noneOf (ranges : List CharRange)
  deriving DecidableEq

/-- The members of a bracketed set: `a-z` is a range when something stands on both sides. -/
def ranges : List Char → List CharRange
  | low :: '-' :: high :: cs => ⟨low, high⟩ :: ranges cs
  | c :: cs => ⟨c, c⟩ :: ranges cs
  | [] => []

def splitAtBracket : List Char → Option (List Char × List Char)
  | [] => none
  | ']' :: cs => some ([], cs)
  | c :: cs => (splitAtBracket cs).map fun (body, rest) => (c :: body, rest)

/-- A bracketed set, its opening bracket already read. Its first member may be `]`. -/
def bracket? : List Char → Option (Token × List Char)
  | '!' :: c :: cs =>
    (splitAtBracket cs).map fun (body, rest) => (.noneOf (ranges (c :: body)), rest)
  | c :: cs => (splitAtBracket cs).map fun (body, rest) => (.oneOf (ranges (c :: body)), rest)
  | [] => none

theorem length_splitAtBracket {cs : List Char} {p : List Char × List Char}
    (h : splitAtBracket cs = some p) : p.2.length < cs.length := by
  fun_induction splitAtBracket cs generalizing p with
  | case1 => simp at h
  | case2 => cases h; simp
  | case3 c cs _ ih =>
    obtain ⟨q, hq, rfl⟩ := Option.map_eq_some_iff.1 h
    have := ih hq
    simp only [List.length_cons]
    omega

theorem length_bracket? {cs : List Char} {p : Token × List Char} (h : bracket? cs = some p) :
    p.2.length < cs.length := by
  unfold bracket? at h
  split at h
  · obtain ⟨q, hq, rfl⟩ := Option.map_eq_some_iff.1 h
    have := length_splitAtBracket hq
    simp only [List.length_cons]
    omega
  · obtain ⟨q, hq, rfl⟩ := Option.map_eq_some_iff.1 h
    have := length_splitAtBracket hq
    simp only [List.length_cons]
    omega
  · simp at h

/-- The tokens of a pattern text; none when a bracket is not closed. -/
def parse? : List Char → Option (List Token)
  | [] => some []
  | '*' :: cs => (parse? cs).map (.anyRun :: ·)
  | '?' :: cs => (parse? cs).map (.anyChar :: ·)
  | '[' :: cs =>
    match _h : bracket? cs with
    | some (t, rest) => (parse? rest).map (t :: ·)
    | none => none
  | c :: cs => (parse? cs).map (.literal c :: ·)
termination_by cs => cs.length
decreasing_by
  · simp
  · simp
  · have := length_bracket? _h
    simp only [List.length_cons] at *
    omega
  · simp

def CharRange.contains (r : CharRange) (c : Char) : Bool := r.low ≤ c && c ≤ r.high

/-- Whether a token that stands for one character stands for this one. -/
def Token.admits (t : Token) (c : Char) : Bool :=
  match t with
  | .anyRun => false
  | .anyChar => true
  | .literal d => c == d
  | .oneOf rs => rs.any (CharRange.contains · c)
  | .noneOf rs => !rs.any (CharRange.contains · c)

/-- Whether the whole text is of the form that the tokens describe. -/
def accepts : List Token → List Char → Bool
  | [], cs => cs.isEmpty
  | .anyRun :: ts, cs => anywhere (accepts ts) cs
  | _ :: _, [] => false
  | t :: ts, c :: cs => t.admits c && accepts ts cs
where
  /-- Whether some end of the text satisfies `p`. -/
  anywhere (p : List Char → Bool) : List Char → Bool
    | [] => p []
    | c :: cs => p (c :: cs) || anywhere p cs

/-- A pattern text that matches exactly the given text. -/
def escape (cs : List Char) : List Char :=
  cs.flatMap fun c => if c ∈ ['?', '*', '[', ']'] then ['[', c, ']'] else [c]

end Glob
end ThemeBuilder
