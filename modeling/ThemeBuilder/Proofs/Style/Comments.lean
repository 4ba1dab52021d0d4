import ThemeBuilder.Proofs.Style.Content

/-! Comments one after the other, from the left: the first that is removed, and what is left when
all of them are. -/
namespace ThemeBuilder.Style
open Bytes

/-- The text is cut at its first `*/`. -/
theorem afterClose_eq_some_iff {bs rest : Bytes} : afterClose bs = some rest ↔
    ∃ inner, ¬ [star, slash] <:+: inner ∧ bs = inner ++ star :: slash :: rest := by
  constructor
  · intro h
    induction bs with
    | nil => cases h
    | cons b bs ih =>
      rw [afterClose] at h
      split at h
      · rename_i hclose
        obtain ⟨rfl, hslash⟩ := hclose
        obtain ⟨bs, rfl⟩ := List.head?_eq_some_iff.mp hslash
        cases h
        exact ⟨[], by simp, rfl⟩
      · rename_i hopen
        obtain ⟨inner, hinner, rfl⟩ := ih h
        refine ⟨b :: inner, ?_, rfl⟩
        rw [List.infix_cons_iff, not_or, List.cons_prefix_cons]
        refine ⟨?_, hinner⟩
        rintro ⟨rfl, more, rfl⟩
        exact hopen ⟨rfl, rfl⟩
  · rintro ⟨inner, hinner, rfl⟩
    induction inner with
    | nil => rfl
    | cons b inner ih =>
      rw [List.infix_cons_iff, not_or] at hinner
      rw [List.cons_append, afterClose, if_neg, ih hinner.2]
      rintro ⟨rfl, hslash⟩
      cases inner with
      | nil => exact absurd (Option.some.inj hslash) (by decide)
      | cons c inner =>
        cases hslash
        exact hinner.1 ⟨inner, rfl⟩

private theorem eq_append_of_afterClose {bs rest : Bytes} (h : afterClose bs = some rest) :
    ∃ inner, bs = inner ++ star :: slash :: rest := by
  obtain ⟨inner, -, heq⟩ := afterClose_eq_some_iff.mp h
  exact ⟨inner, heq⟩

theorem afterClose_eq_none_iff {bs : Bytes} : afterClose bs = none ↔ ¬ [star, slash] <:+: bs := by
  induction bs with
  | nil => simp [afterClose]
  | cons b bs ih =>
    rw [afterClose, List.infix_cons_iff, not_or, ← ih, List.cons_prefix_cons]
    split
    · rename_i hclose
      obtain ⟨rfl, hslash⟩ := hclose
      obtain ⟨bs, rfl⟩ := List.head?_eq_some_iff.mp hslash
      simp
    · rename_i hopen
      refine ⟨fun h => ⟨?_, h⟩, fun h => h.2⟩
      rintro ⟨rfl, rest, rfl⟩
      exact hopen ⟨rfl, rfl⟩

/-- What stands before the first comment that is removed, and what follows it. -/
def firstComment? : Bytes → Option (Bytes × Bytes)
  | [] => none
  | b :: bs =>
    if b = slash ∧ bs.head? = some star then (afterClose bs.tail).map ([], ·)
    else (firstComment? bs).map fun (before, after) => (b :: before, after)

theorem firstComment?_cons_eq_some {b : UInt8} {bs before after : Bytes}
    (h : firstComment? (b :: bs) = some (before, after)) :
    (∃ inside, b :: bs = slash :: star :: inside ∧ afterClose inside = some after ∧ before = []) ∨
    (¬ (b = slash ∧ bs.head? = some star) ∧
      ∃ front, before = b :: front ∧ firstComment? bs = some (front, after)) := by
  rw [firstComment?] at h
  split at h
  · rename_i hopen
    obtain ⟨rfl, hstar⟩ := hopen
    obtain ⟨inside, rfl⟩ := List.head?_eq_some_iff.mp hstar
    obtain ⟨rest, hrest, heq⟩ := Option.map_eq_some_iff.mp h
    cases heq
    exact .inl ⟨inside, rfl, hrest, rfl⟩
  · rename_i hopen
    obtain ⟨⟨front, rest⟩, hrest, heq⟩ := Option.map_eq_some_iff.mp h
    cases heq
    exact .inr ⟨hopen, front, rfl, hrest⟩

theorem firstComment?_cons_eq_none {b : UInt8} {bs : Bytes} (h : firstComment? (b :: bs) = none) :
    (∃ inside, b :: bs = slash :: star :: inside ∧ afterClose inside = none) ∨
    (¬ (b = slash ∧ bs.head? = some star) ∧ firstComment? bs = none) := by
  rw [firstComment?] at h
  split at h
  · rename_i hopen
    obtain ⟨rfl, hstar⟩ := hopen
    obtain ⟨inside, rfl⟩ := List.head?_eq_some_iff.mp hstar
    exact .inl ⟨inside, rfl, Option.map_eq_none_iff.mp h⟩
  · rename_i hopen
    exact .inr ⟨hopen, Option.map_eq_none_iff.mp h⟩

theorem firstComment?_of_open (inside : Bytes) :
    firstComment? (slash :: star :: inside) = (afterClose inside).map ([], ·) := by
  rw [firstComment?, if_pos ⟨rfl, rfl⟩, List.tail_cons]

theorem firstComment?_of_not_open {b : UInt8} {bs : Bytes}
    (h : ¬ (b = slash ∧ bs.head? = some star)) :
    firstComment? (b :: bs) =
      (firstComment? bs).map fun (before, after) => (b :: before, after) := by
  rw [firstComment?, if_neg h]

theorem firstComment?_eq_none_of_afterClose {bs : Bytes} (h : afterClose bs = none) :
    firstComment? bs = none := by
  induction bs with
  | nil => rfl
  | cons b bs ih =>
    rw [afterClose] at h
    split at h
    · cases h
    · by_cases hopen : b = slash ∧ bs.head? = some star
      · obtain ⟨rfl, hstar⟩ := hopen
        obtain ⟨inside, rfl⟩ := List.head?_eq_some_iff.mp hstar
        rw [afterClose] at h
        split at h
        · cases h
        · rw [firstComment?_of_open, h]
          rfl
      · rw [firstComment?_of_not_open hopen, ih h]
        rfl

theorem eq_append_of_firstComment? {bs before after : Bytes}
    (h : firstComment? bs = some (before, after)) :
    ∃ inner, bs = before ++ slash :: star :: (inner ++ star :: slash :: after) := by
  induction bs generalizing before with
  | nil => cases h
  | cons b bs ih =>
    obtain ⟨inside, heq, hclose, rfl⟩ | ⟨-, front, rfl, hrest⟩ := firstComment?_cons_eq_some h
    · obtain ⟨inner, rfl⟩ := eq_append_of_afterClose hclose
      exact ⟨inner, heq⟩
    · obtain ⟨inner, rfl⟩ := ih hrest
      exact ⟨inner, rfl⟩

theorem withoutComments_of_firstComment? {bs before after : Bytes}
    (h : firstComment? bs = some (before, after)) :
    withoutComments bs = before ++ withoutComments after := by
  induction bs generalizing before with
  | nil => cases h
  | cons b bs ih =>
    obtain ⟨inside, heq, hclose, rfl⟩ | ⟨hopen, front, rfl, hrest⟩ := firstComment?_cons_eq_some h
    · rw [heq, withoutComments_closed hclose, List.nil_append]
    · rw [withoutComments_cons hopen, ih hrest, List.cons_append]

theorem withoutComments_of_firstComment?_eq_none {bs : Bytes} (h : firstComment? bs = none) :
    withoutComments bs = bs := by
  induction bs with
  | nil => rw [withoutComments]
  | cons b bs ih =>
    obtain ⟨inside, heq, hclose⟩ | ⟨hopen, hrest⟩ := firstComment?_cons_eq_none h
    · rw [heq, withoutComments_open hclose]
    · rw [withoutComments_cons hopen, ih hrest]

private theorem length_lt_of_firstComment? {bs before after : Bytes}
    (h : firstComment? bs = some (before, after)) : after.length < bs.length := by
  obtain ⟨inner, rfl⟩ := eq_append_of_firstComment? h
  simp only [List.length_append, List.length_cons]
  omega

/-- What follows the last comment that is removed, and the whole where none is. -/
def remainder (bs : Bytes) : Bytes :=
  match _h : firstComment? bs with
  | some (_, after) => remainder after
  | none => bs
termination_by bs.length
decreasing_by exact length_lt_of_firstComment? _h

theorem remainder_of_firstComment? {bs before after : Bytes}
    (h : firstComment? bs = some (before, after)) : remainder bs = remainder after := by
  rw [remainder]
  split
  · rename_i h'
    rw [h] at h'
    cases h'
    rfl
  · rename_i h'
    rw [h] at h'
    cases h'

theorem remainder_of_firstComment?_eq_none {bs : Bytes} (h : firstComment? bs = none) :
    remainder bs = bs := by
  rw [remainder]
  split
  · rename_i h'
    rw [h] at h'
    cases h'
  · rfl

/-- A text has no comment that is removed, or it goes on behind the first one. -/
theorem comment_induction {P : Bytes → Prop} (last : ∀ bs, firstComment? bs = none → P bs)
    (next : ∀ bs before after, firstComment? bs = some (before, after) → P after → P bs)
    (bs : Bytes) : P bs := by
  induction hn : bs.length using Nat.strongRecOn generalizing bs with
  | ind n ih =>
    cases h : firstComment? bs with
    | none => exact last bs h
    | some found =>
      obtain ⟨before, after⟩ := found
      exact next bs before after h (ih _ (hn ▸ length_lt_of_firstComment? h) after rfl)

theorem withoutComments_sublist (bs : Bytes) : (withoutComments bs).Sublist bs := by
  induction bs using comment_induction with
  | last bs hnone => rw [withoutComments_of_firstComment?_eq_none hnone]
  | next bs before after hfound ih =>
    rw [withoutComments_of_firstComment? hfound]
    obtain ⟨inner, rfl⟩ := eq_append_of_firstComment? hfound
    refine (ih.trans (List.IsSuffix.sublist ?_)).append_left before
    exact ⟨slash :: star :: (inner ++ [star, slash]), by simp⟩

/-- A comment ends in no line feed, so the last one is kept. -/
theorem getLast?_withoutComments {a : Bytes} (h : a.getLast? = some newline) :
    (withoutComments a).getLast? = some newline := by
  induction a using comment_induction with
  | last a hnone => rwa [withoutComments_of_firstComment?_eq_none hnone]
  | next a before after hfound ih =>
    have hclosed : WholeLines (slash :: after) := by
      obtain ⟨inner, rfl⟩ := eq_append_of_firstComment? hfound
      exact WholeLines.of_cons (.of_append (.of_cons (.of_cons (.of_append (.inr h)))))
    rw [withoutComments_of_firstComment? hfound, List.getLast?_append,
      ih (hclosed.getLast?_of_cons (by decide)), Option.some_or]

theorem wholeLines_withoutComments {a : Bytes} (h : WholeLines a) :
    WholeLines (withoutComments a) := by
  obtain rfl | h := h
  · left
    rw [withoutComments]
  · exact .inr (getLast?_withoutComments h)

end ThemeBuilder.Style
