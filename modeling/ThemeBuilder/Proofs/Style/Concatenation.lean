import ThemeBuilder.Proofs.Style.Comments
import ThemeBuilder.Proofs.Style.Output
import ThemeBuilder.Proofs.Style.Tidying
import ThemeBuilder.Text.Utf8

/-! A source that is cut between two lines, but not inside a comment, has the listings of its parts
for a listing. -/
namespace ThemeBuilder.Style
open Bytes

private theorem afterClose_append {a rest : Bytes} (h : afterClose a = some rest) (b : Bytes) :
    afterClose (a ++ b) = some (rest ++ b) := by
  induction a with
  | nil => cases h
  | cons c a ih =>
    rw [afterClose] at h
    split at h
    · rename_i hclose
      obtain ⟨rfl, hslash⟩ := hclose
      obtain ⟨a, rfl⟩ := List.head?_eq_some_iff.mp hslash
      cases h
      rfl
    · rename_i hopen
      rw [List.cons_append, afterClose, if_neg]
      · exact ih h
      · rintro ⟨hc, hslash⟩
        cases a with
        | nil => cases h
        | cons d a => exact hopen ⟨hc, hslash⟩

private theorem firstComment?_append {a before after : Bytes}
    (h : firstComment? a = some (before, after))
    (b : Bytes) : firstComment? (a ++ b) = some (before, after ++ b) := by
  induction a generalizing before with
  | nil => cases h
  | cons c a ih =>
    obtain ⟨inside, heq, hclose, rfl⟩ | ⟨hopen, front, rfl, hrest⟩ := firstComment?_cons_eq_some h
    · rw [heq, List.cons_append, List.cons_append, firstComment?_of_open, afterClose_append hclose]
      rfl
    · rw [List.cons_append, firstComment?_of_not_open, ih hrest]
      · rfl
      · rintro ⟨hc, hstar⟩
        cases a with
        | nil => cases hrest
        | cons d a => exact hopen ⟨hc, hstar⟩

section
variable {a : Bytes} (ha : WholeLines a)
include ha

/-- No `*/` lies across the end of a line. -/
private theorem afterClose_append_eq_none (h : afterClose a = none) {b : Bytes}
    (hb : afterClose b = none) : afterClose (a ++ b) = none := by
  induction a with
  | nil => exact hb
  | cons c a ih =>
    rw [afterClose] at h
    split at h
    · cases h
    · rename_i hopen
      rw [List.cons_append, afterClose, if_neg]
      · exact ih ha.of_cons h
      · rintro ⟨rfl, hslash⟩
        rw [ha.head?_append (by decide)] at hslash
        exact hopen ⟨rfl, hslash⟩

/-- An opener that no line closes is not closed by lines without a `*/`. -/
private theorem firstComment?_append_eq_none (h : firstComment? a = none) {b : Bytes}
    (hb : afterClose b = none) : firstComment? (a ++ b) = none := by
  induction a with
  | nil => exact firstComment?_eq_none_of_afterClose hb
  | cons c a ih =>
    obtain ⟨inside, heq, hclose⟩ | ⟨hopen, hrest⟩ := firstComment?_cons_eq_none h
    · cases heq
      rw [List.cons_append, List.cons_append, firstComment?_of_open,
        afterClose_append_eq_none ha.of_cons.of_cons hclose hb]
      rfl
    · rw [List.cons_append, firstComment?_of_not_open, ih ha.of_cons hrest]
      · rfl
      · rintro ⟨rfl, hstar⟩
        rw [ha.head?_append (by decide)] at hstar
        exact hopen ⟨rfl, hstar⟩

/-- No `/*` lies across the end of a line. -/
private theorem withoutComments_append_of_no_opener (h : ¬ [slash, star] <:+: a) (b : Bytes) :
    withoutComments (a ++ b) = a ++ withoutComments b := by
  induction a with
  | nil => rfl
  | cons c a ih =>
    rw [List.infix_cons_iff, not_or] at h
    rw [List.cons_append, withoutComments_cons, ih ha.of_cons h.2, List.cons_append]
    rintro ⟨rfl, hstar⟩
    rw [ha.head?_append (by decide)] at hstar
    obtain ⟨a, rfl⟩ := List.head?_eq_some_iff.mp hstar
    exact h.1 ⟨a, rfl⟩

/-- Whole lines that leave no comment open, or that are followed by no `*/`, have their comments
removed on their own. -/
theorem withoutComments_append {b : Bytes}
    (h : ¬ ([slash, star] <:+: remainder a ∧ [star, slash] <:+: b)) :
    withoutComments (a ++ b) = withoutComments a ++ withoutComments b := by
  induction a using comment_induction with
  | next a before after hfound ih =>
    have hafter : WholeLines after := by
      obtain ⟨inner, rfl⟩ := eq_append_of_firstComment? hfound
      exact ha.of_append.of_cons.of_cons.of_append.of_cons.of_cons
    rw [remainder_of_firstComment? hfound] at h
    rw [withoutComments_of_firstComment? (firstComment?_append hfound b), ih hafter h,
      withoutComments_of_firstComment? hfound, List.append_assoc]
  | last a hnone =>
    rw [remainder_of_firstComment?_eq_none hnone] at h
    rw [withoutComments_of_firstComment?_eq_none hnone]
    by_cases hopen : [slash, star] <:+: a
    · have hb : afterClose b = none := afterClose_eq_none_iff.mpr fun hb => h ⟨hopen, hb⟩
      rw [withoutComments_of_firstComment?_eq_none (firstComment?_append_eq_none ha hnone hb),
        withoutComments_of_firstComment?_eq_none (firstComment?_eq_none_of_afterClose hb)]
    · exact withoutComments_append_of_no_opener ha hopen b

end

/-- Trimming the lines makes no `*/`. -/
private theorem afterClose_rejoin {text : Bytes} (h : afterClose text = none) :
    afterClose (rejoin text) = none := by
  have := (respaced_rejoin text).afterClose_eq_none
  rw [afterClose_cons_blank (by decide), afterClose_cons_blank (by decide)] at this
  exact this h

/-- A text leaves a comment open: an opener follows the last comment that is removed from it. -/
def LeavesOpen (text : Bytes) : Prop := [slash, star] <:+: remainder (rejoin text)

theorem listingLines_append {a b : Bytes} (ha : WholeLines a)
    (h : ¬ (LeavesOpen a ∧ [star, slash] <:+: b)) :
    listingLines (a ++ b) = listingLines a ++ listingLines b := by
  have hb : ¬ (LeavesOpen a ∧ [star, slash] <:+: rejoin b) := by
    rintro ⟨hopen, hclose⟩
    refine h ⟨hopen, ?_⟩
    by_contra hnone
    exact afterClose_eq_none_iff.mp (afterClose_rejoin (afterClose_eq_none_iff.mpr hnone)) hclose
  have hwhole := wholeLines_rejoin a
  rw [listingLines_eq_tidied, rejoin_append ha, withoutComments_append hwhole hb,
    nonblankLines_tidied_append (wholeLines_withoutComments hwhole), List.map_append]
  rfl

/-- A source that is cut at the end of a line is compiled in two parts to the same listing, unless
the first part leaves a comment open and the second one has a `*/`. -/
theorem listing_parts {a b : Bytes} (whole : WholeLines a)
    (apart : ¬ (LeavesOpen a ∧ [star, slash] <:+: b)) :
    listingLines (a ++ b) = listingLines a ++ listingLines b ∧
      (writeListings none [a ++ b]).written = (writeListings none [a, b]).written := by
  have h := listingLines_append whole apart
  refine ⟨h, ?_⟩
  rw [writeListings_none, writeListings_none]
  simp only [listing, h, List.flatMap_cons, List.flatMap_nil, List.append_nil, List.flatMap_append]

/-- The first part leaves a comment open, and the second one opens another. -/
theorem listing_parts_open :
    let a := Utf8.encode "a /* b\nc */ /*/\n"
    let b := Utf8.encode "  d /* e"
    LeavesOpen a ∧ ¬ [star, slash] <:+: b ∧
      listingLines (a ++ b) = listingLines a ++ listingLines b := by
  intro a b
  have hopen : LeavesOpen a := by
    unfold LeavesOpen
    decide +kernel
  have hb : ¬ [star, slash] <:+: b := by decide +kernel
  exact ⟨hopen, hb, (listing_parts (.inr (by decide +kernel)) fun h => hb h.2).1⟩

end ThemeBuilder.Style
