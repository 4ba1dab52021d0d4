import ThemeBuilder.Proofs.Style.Content
import ThemeBuilder.Proofs.Style.Tidying

/-! Texts that differ in lines of one space, which come and go where a line begins. Such a line is
in a comment as a whole or not at all, its space is in no pair, and it is dropped in the end. -/
namespace ThemeBuilder.Style
open Bytes

/-- A line of one space comes at some places of the first string where a line begins. The flag
tells whether one begins here. -/
inductive Padded : Bool → Bytes → Bytes → Prop
  | nil (start : Bool) : Padded start [] []
  | byte {start : Bool} (c : UInt8) {a b : Bytes} : Padded (c == newline) a b →
      Padded start (c :: a) (c :: b)
  | line {a b : Bytes} : Padded true a b → Padded true (space :: newline :: a) b

namespace Padded
variable {start : Bool} {a b : Bytes}

theorem ofFalse (h : Padded false a b) : Padded start a b := by
  cases h with
  | nil => exact .nil start
  | byte c h => exact .byte c h

theorem head?_eq (h : Padded false a b) : a.head? = b.head? := by
  cases h <;> rfl

theorem cons_inv {c : UInt8} (h : Padded false (c :: a) (c :: b)) : Padded (c == newline) a b := by
  cases h with
  | byte _ h => exact h

/-- Behind a byte that ends no line both strings go on with the same byte. -/
theorem head?_iff {c d : UInt8} (hc : c ≠ newline) (h : Padded (c == newline) a b) :
    a.head? = some d ↔ b.head? = some d := by
  rw [beq_false_of_ne hc] at h
  rw [h.head?_eq]

theorem append_newline (xs : Bytes) (h : Padded true a b) :
    Padded start (xs ++ newline :: a) (xs ++ newline :: b) := by
  induction xs generalizing start with
  | nil => exact .byte newline h
  | cons x xs ih => exact .byte x ih

theorem map {f : UInt8 → UInt8} (hspace : f space = space)
    (hnewline : ∀ c, f c = newline ↔ c = newline) (h : Padded start a b) :
    Padded start (a.map f) (b.map f) := by
  induction h with
  | nil => exact .nil _
  | byte c _ ih =>
    have hflag : (c == newline) = (f c == newline) := by
      rw [Bool.eq_iff_iff, beq_iff_eq, beq_iff_eq, hnewline]
    exact .byte (f c) (hflag ▸ ih)
  | line _ ih =>
    rw [List.map_cons, List.map_cons, hspace, (hnewline newline).mpr rfl]
    exact .line ih

/-- The first `*/` of both is the same one. -/
theorem afterClose_rel (h : Padded start a b) :
    Option.Rel (Padded false) (afterClose a) (afterClose b) := by
  induction h with
  | nil => exact .none
  | @byte _ c a b h ih =>
    rw [afterClose, afterClose]
    by_cases hclose : c = star ∧ a.head? = some slash
    · obtain ⟨rfl, ha⟩ := hclose
      have hb := (h.head?_iff (by decide)).mp ha
      rw [if_pos ⟨rfl, ha⟩, if_pos ⟨rfl, hb⟩]
      obtain ⟨a, rfl⟩ := List.head?_eq_some_iff.mp ha
      obtain ⟨b, rfl⟩ := List.head?_eq_some_iff.mp hb
      exact .some h.cons_inv
    · rw [if_neg hclose, if_neg]
      · exact ih
      · rintro ⟨rfl, hb⟩
        exact hclose ⟨rfl, (h.head?_iff (by decide)).mpr hb⟩
  | line _ ih =>
    rw [afterClose_cons_blank (by decide), afterClose_cons_blank (by decide)]
    exact ih

/-- A padded line lies in a comment as a whole or not at all. -/
theorem withoutComments (h : Padded start a b) :
    Padded start (withoutComments a) (withoutComments b) := by
  induction hn : a.length using Nat.strongRecOn generalizing start a b with
  | ind n ih =>
    cases h with
    | nil =>
      rw [Style.withoutComments]
      exact .nil start
    | line h =>
      rw [withoutComments_cons_blank (by decide), withoutComments_cons_blank (by decide)]
      exact .line (ih _ (by simp only [List.length_cons] at hn; omega) h rfl)
    | @byte _ c a b h =>
      rw [List.length_cons] at hn
      by_cases hopen : c = slash ∧ a.head? = some star
      · obtain ⟨rfl, ha⟩ := hopen
        have hb := (h.head?_iff (by decide)).mp ha
        obtain ⟨a, rfl⟩ := List.head?_eq_some_iff.mp ha
        obtain ⟨b, rfl⟩ := List.head?_eq_some_iff.mp hb
        have hrel := h.cons_inv.afterClose_rel
        cases hca : afterClose a with
        | none =>
          rw [hca] at hrel
          generalize hcb : afterClose b = found at hrel
          cases hrel
          rw [withoutComments_open hca, withoutComments_open hcb]
          exact .byte slash h
        | some resta =>
          rw [hca] at hrel
          generalize hcb : afterClose b = found at hrel
          cases hrel with
          | some hrest =>
            rw [withoutComments_closed hca, withoutComments_closed hcb]
            have := length_lt_of_afterClose hca
            exact (ih _ (by simp only [List.length_cons] at hn; omega) hrest rfl).ofFalse
      · rw [withoutComments_cons hopen, withoutComments_cons]
        · exact .byte c (ih _ (by omega) h rfl)
        · rintro ⟨rfl, hb⟩
          exact hopen ⟨rfl, (h.head?_iff (by decide)).mpr hb⟩

/-- The space of a padded line stands between line feeds, so it is in no pair. -/
theorem halveSpaces (h : Padded start a b) : Padded start (halveSpaces a) (halveSpaces b) := by
  induction hn : a.length using Nat.strongRecOn generalizing start a b with
  | ind n ih =>
    cases h with
    | nil => exact .nil start
    | @line a _ h =>
      have hline : Style.halveSpaces (space :: newline :: a) =
          space :: newline :: Style.halveSpaces a := halveSpaces_append_cons (by decide) [space] a
      rw [hline]
      exact .line (ih _ (by simp only [List.length_cons] at hn; omega) h rfl)
    | @byte _ c a b h =>
      rw [List.length_cons] at hn
      by_cases hpair : c = space ∧ a.head? = some space
      · obtain ⟨rfl, ha⟩ := hpair
        have hb := (h.head?_iff (by decide)).mp ha
        obtain ⟨a, rfl⟩ := List.head?_eq_some_iff.mp ha
        obtain ⟨b, rfl⟩ := List.head?_eq_some_iff.mp hb
        rw [Style.halveSpaces, if_pos ⟨rfl, rfl⟩, Style.halveSpaces, if_pos ⟨rfl, rfl⟩]
        exact .byte space (ih _ (by simp only [List.length_cons] at hn; omega) h.cons_inv rfl)
      · rw [halveSpaces_cons fun hc ha => hpair ⟨hc, ha⟩, halveSpaces_cons]
        · exact .byte c (ih _ (by omega) h rfl)
        · rintro rfl hb
          exact hpair ⟨rfl, (h.head?_iff (by decide)).mpr hb⟩

theorem tidied (h : Padded start a b) : Padded start (tidied a) (tidied b) := by
  have hdetab : Padded start (detab a) (detab b) :=
    map (by decide) (exchange_eq_iff (by decide) (by decide)) h
  exact map (by decide) (exchange_eq_iff (by decide) (by decide)) hdetab.halveSpaces

/-- A padded line is a line of blanks in the end. -/
theorem nonblankLines_eq (h : Padded start a b) (front : Bytes)
    (hfront : start = true → front = []) :
    nonblankLines (front ++ a) = nonblankLines (front ++ b) := by
  induction h generalizing front with
  | nil => rfl
  | @byte _ c a b h ih =>
    by_cases hc : c = newline
    · subst hc
      rw [nonblankLines_append_newline, nonblankLines_append_newline]
      exact congrArg (nonblankLines front ++ ·) (ih [] fun _ => rfl)
    · have := ih (front ++ [c]) fun h => absurd (beq_iff_eq.mp h) hc
      simpa only [List.append_assoc, List.singleton_append] using this
  | @line a b _ ih =>
    rw [hfront rfl]
    exact (nonblankLines_append_newline [space] a).trans (ih [] fun _ => rfl)

end Padded

end ThemeBuilder.Style
