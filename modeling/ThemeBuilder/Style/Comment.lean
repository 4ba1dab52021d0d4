import ThemeBuilder.Text.Bytes

/-! Block comments run from `/*` to the first `*/` after it, over as many lines as that takes. -/
namespace ThemeBuilder.Style
open Bytes

/-- What follows the first `*/`. -/
def afterClose : Bytes → Option Bytes
  | [] => none
  | b :: bs =>
    if b = star ∧ bs.head? = some slash then some bs.tail else afterClose bs

theorem length_lt_of_afterClose {bs rest : Bytes} (h : afterClose bs = some rest) :
    rest.length < bs.length := by
  induction bs with
  | nil => simp [afterClose] at h
  | cons b bs ih =>
    unfold afterClose at h
    split at h
    · cases h
      simp only [List.length_tail, List.length_cons]
      omega
    · have := ih h
      simp only [List.length_cons]
      omega

/-- Removes every block comment, delimiters included. The `*` that opens a comment does not close
it, and an opener without a closer is kept with all that follows. -/
def withoutComments : Bytes → Bytes
  | [] => []
  | b :: bs =>
    if b = slash ∧ bs.head? = some star then
      match _h : afterClose bs.tail with
      | some rest => withoutComments rest
      | none => b :: bs
    else b :: withoutComments bs
termination_by bs => bs.length
decreasing_by
  · have := length_lt_of_afterClose _h
    simp only [List.length_tail, List.length_cons] at *
    omega
  · simp

end ThemeBuilder.Style
