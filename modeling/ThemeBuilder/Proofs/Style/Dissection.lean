import Mathlib.Data.List.Infix
import ThemeBuilder.Proofs.Style.Comments
import ThemeBuilder.Text.Utf8

/-! A text as its comments and what stands between them. There is one way to cut it so that the
comments are found from the left and each is as short as can be, and it is the one by which comments
are removed. -/
namespace ThemeBuilder.Style
open Bytes

/-- One comment and nothing else. Its delimiters share no star, and no `*/` before its end could
close it. -/
structure IsComment (c : Bytes) : Prop where
  opens : [slash, star] <+: c
  closes : [star, slash] <:+ c
  length : 4 ≤ c.length
  shortest : ∀ i, 2 ≤ i → i + 3 ≤ c.length → ¬ [star, slash] <+: c.drop i

/-- A `/*` is followed by a `*/`, with which it shares no star. -/
def HoldsComment (bs : Bytes) : Prop :=
  ∃ before inside, bs = before ++ slash :: star :: inside ∧ [star, slash] <:+: inside

theorem isComment_iff {c : Bytes} : IsComment c ↔
    ∃ inner, ¬ [star, slash] <:+: inner ∧ c = slash :: star :: (inner ++ [star, slash]) := by
  constructor
  · rintro ⟨⟨inside, rfl⟩, ⟨front, hfront⟩, hlength, hshortest⟩
    obtain ⟨inner, rfl⟩ : ∃ inner, front = slash :: star :: inner := by
      match front, hfront with
      | [], h => cases h
      | [_], h =>
        cases h
        exact absurd hlength (by decide)
      | _ :: _ :: inner, h =>
        cases h
        exact ⟨inner, rfl⟩
    cases hfront
    refine ⟨inner, ?_, rfl⟩
    rintro ⟨x, y, rfl⟩
    refine hshortest (x.length + 2) (by omega) (by simp) ⟨y ++ [star, slash], ?_⟩
    simp
  · rintro ⟨inner, hinner, rfl⟩
    refine ⟨⟨inner ++ [star, slash], rfl⟩, ⟨slash :: star :: inner, rfl⟩, by simp, ?_⟩
    rintro i hi hlength ⟨more, hmore⟩
    obtain ⟨k, rfl⟩ := Nat.exists_eq_add_of_le' hi
    simp only [List.length_cons, List.length_append, List.length_nil] at hlength
    rw [List.drop_succ_cons, List.drop_succ_cons, List.drop_append_of_le_length (by omega)] at hmore
    rcases hdrop : inner.drop k with _ | ⟨b, _ | ⟨c, rest⟩⟩
    · rw [List.drop_eq_nil_iff] at hdrop
      omega
    · rw [hdrop] at hmore
      cases hmore
    · rw [hdrop] at hmore
      cases hmore
      refine hinner ⟨inner.take k, rest, ?_⟩
      rw [List.append_assoc, List.cons_append, List.cons_append, List.nil_append, ← hdrop,
        List.take_append_drop]

theorem firstComment?_eq_some_iff {bs before after : Bytes} :
    firstComment? bs = some (before, after) ↔
      ∃ c, ¬ [slash, star] <:+: before ∧ IsComment c ∧ bs = before ++ (c ++ after) := by
  constructor
  · intro h
    induction bs generalizing before with
    | nil => cases h
    | cons b bs ih =>
      obtain ⟨inside, heq, hclose, rfl⟩ | ⟨hopen, front, rfl, hrest⟩ := firstComment?_cons_eq_some h
      · obtain ⟨inner, hinner, rfl⟩ := afterClose_eq_some_iff.mp hclose
        exact ⟨_, by simp, isComment_iff.mpr ⟨inner, hinner, rfl⟩, by rw [heq]; simp⟩
      · obtain ⟨c, hfront, hc, rfl⟩ := ih hrest
        refine ⟨c, ?_, hc, rfl⟩
        rw [List.infix_cons_iff, not_or, List.cons_prefix_cons]
        refine ⟨?_, hfront⟩
        rintro ⟨rfl, more, rfl⟩
        exact hopen ⟨rfl, rfl⟩
  · rintro ⟨c, hbefore, hc, rfl⟩
    obtain ⟨inner, hinner, rfl⟩ := isComment_iff.mp hc
    induction before with
    | nil =>
      have hclose : afterClose (inner ++ star :: slash :: after) = some after :=
        afterClose_eq_some_iff.mpr ⟨inner, hinner, rfl⟩
      rw [List.nil_append, List.cons_append, List.cons_append, List.append_assoc,
        firstComment?_of_open]
      exact congrArg (Option.map _) hclose
    | cons b before ih =>
      rw [List.infix_cons_iff, not_or] at hbefore
      rw [List.cons_append, firstComment?_of_not_open, ih hbefore.2]
      · rfl
      · rintro ⟨rfl, hstar⟩
        cases before with
        | nil => exact absurd (Option.some.inj hstar) (by decide)
        | cons d before =>
          cases hstar
          exact hbefore.1 ⟨before, rfl⟩

theorem firstComment?_eq_none_iff {bs : Bytes} : firstComment? bs = none ↔ ¬ HoldsComment bs := by
  constructor
  · rintro h ⟨before, inside, rfl, hclose⟩
    induction before with
    | nil =>
      rw [List.nil_append, firstComment?_of_open, Option.map_eq_none_iff,
        afterClose_eq_none_iff] at h
      exact h hclose
    | cons b before ih =>
      obtain ⟨inside', heq, hnone⟩ | ⟨-, hrest⟩ := firstComment?_cons_eq_none h
      · rw [afterClose_eq_none_iff] at hnone
        cases before with
        | nil => cases heq
        | cons c before =>
          cases heq
          refine hnone (hclose.trans ⟨before ++ [slash, star], [], ?_⟩)
          simp
      · exact ih hrest
  · intro h
    by_contra hsome
    obtain ⟨⟨before, after⟩, hfound⟩ := Option.ne_none_iff_exists'.mp hsome
    obtain ⟨inner, rfl⟩ := eq_append_of_firstComment? hfound
    exact h ⟨before, _, rfl, inner, after, by simp⟩

instance (c : Bytes) : Decidable (IsComment c) :=
  decidable_of_iff (firstComment? c = some ([], [])) <| by
    rw [firstComment?_eq_some_iff]
    simp

instance (bs : Bytes) : Decidable (HoldsComment bs) :=
  decidable_of_iff (firstComment? bs ≠ none) (by rw [ne_eq, firstComment?_eq_none_iff, not_not])

theorem withoutComments_of_not_holdsComment {bs : Bytes} (h : ¬ HoldsComment bs) :
    withoutComments bs = bs :=
  withoutComments_of_firstComment?_eq_none (firstComment?_eq_none_iff.mpr h)

/-- A text cut into comments and what stands between them. -/
structure Dissection where
  /-- The comments, each behind what stands before it. -/
  parts : List (Bytes × Bytes)
  /-- What follows the last comment. -/
  rest : Bytes
  deriving DecidableEq

namespace Dissection

def text (d : Dissection) : Bytes := d.parts.flatMap (fun p => p.1 ++ p.2) ++ d.rest

/-- What stands between the comments, before the first and behind the last one. -/
def kept (d : Dissection) : List Bytes := d.parts.map Prod.fst ++ [d.rest]

/-- The text is cut so that each comment opens where the first `/*` of what is left does, up to
where no comment opens that is closed. -/
structure Dissects (d : Dissection) (bs : Bytes) : Prop where
  text : d.text = bs
  open_free : ∀ p ∈ d.parts, ¬ [slash, star] <:+: p.1
  comment : ∀ p ∈ d.parts, IsComment p.2
  rest : ¬ HoldsComment d.rest

instance (d : Dissection) (bs : Bytes) : Decidable (d.Dissects bs) :=
  decidable_of_iff (d.text = bs ∧ (∀ p ∈ d.parts, ¬ [slash, star] <:+: p.1) ∧
      (∀ p ∈ d.parts, IsComment p.2) ∧ ¬ HoldsComment d.rest)
    ⟨fun ⟨htext, hopen, hcomment, hrest⟩ => ⟨htext, hopen, hcomment, hrest⟩,
      fun h => ⟨h.text, h.open_free, h.comment, h.rest⟩⟩

/-- The dissection with a comment more, before the others. -/
def cons (before c : Bytes) (d : Dissection) : Dissection := ⟨(before, c) :: d.parts, d.rest⟩

private theorem eq_nil_or_cons (d : Dissection) :
    (∃ rest, d = ⟨[], rest⟩) ∨ ∃ before c e, d = cons before c e := by
  match d with
  | ⟨[], rest⟩ => exact .inl ⟨rest, rfl⟩
  | ⟨(before, c) :: parts, rest⟩ => exact .inr ⟨before, c, ⟨parts, rest⟩, rfl⟩

variable {d : Dissection} {bs before c after : Bytes}

theorem text_cons : (cons before c d).text = before ++ (c ++ d.text) := by
  simp only [text, cons, List.flatMap_cons, List.append_assoc]

private theorem dissects_cons : (cons before c d).Dissects bs ↔
    ¬ [slash, star] <:+: before ∧ IsComment c ∧
      ∃ after, bs = before ++ (c ++ after) ∧ d.Dissects after := by
  constructor
  · rintro ⟨rfl, hopen, hcomment, hrest⟩
    rw [cons, List.forall_mem_cons] at hopen hcomment
    exact ⟨hopen.1, hcomment.1, d.text, text_cons, rfl, hopen.2, hcomment.2, hrest⟩
  · rintro ⟨hbefore, hc, after, rfl, rfl, hopen, hcomment, hrest⟩
    exact ⟨text_cons, List.forall_mem_cons.mpr ⟨hbefore, hopen⟩,
      List.forall_mem_cons.mpr ⟨hc, hcomment⟩, hrest⟩

/-- A text without a comment that is removed is left in one piece. -/
private theorem dissects_of_none (h : firstComment? bs = none) (d : Dissection) :
    d.Dissects bs ↔ d = ⟨[], bs⟩ := by
  constructor
  · intro hd
    obtain ⟨rest, rfl⟩ | ⟨before, c, e, rfl⟩ := d.eq_nil_or_cons
    · rw [← hd.text]
      rfl
    · obtain ⟨hbefore, hc, after, hbs, -⟩ := dissects_cons.mp hd
      rw [firstComment?_eq_some_iff.mpr ⟨c, hbefore, hc, hbs⟩] at h
      cases h
  · rintro rfl
    exact ⟨rfl, by simp, by simp, firstComment?_eq_none_iff.mp h⟩

/-- Every dissection of a text begins with the first comment that is removed. -/
private theorem dissects_of_some (h : firstComment? bs = some (before, after)) :
    ∃ c, ∀ d : Dissection,
      d.Dissects bs ↔ ∃ e : Dissection, e.Dissects after ∧ d = cons before c e := by
  obtain ⟨c, hbefore, hc, rfl⟩ := firstComment?_eq_some_iff.mp h
  refine ⟨c, fun d => ⟨fun hd => ?_, ?_⟩⟩
  · obtain ⟨rest, rfl⟩ | ⟨before', c', e, rfl⟩ := d.eq_nil_or_cons
    · have htext : rest = before ++ (c ++ after) := hd.text
      rw [← htext, firstComment?_eq_none_iff.mpr hd.rest] at h
      cases h
    · obtain ⟨hbefore', hc', after', hbs, he⟩ := dissects_cons.mp hd
      rw [firstComment?_eq_some_iff.mpr ⟨c', hbefore', hc', hbs⟩] at h
      cases h
      obtain rfl := List.append_cancel_right (List.append_cancel_left hbs)
      exact ⟨e, he, rfl⟩
  · rintro ⟨e, he, rfl⟩
    exact dissects_cons.mpr ⟨hbefore, hc, after, rfl, he⟩

theorem Dissects.withoutComments_eq (h : d.Dissects bs) : withoutComments bs = d.kept.flatten := by
  induction bs using comment_induction generalizing d with
  | last bs hnone =>
    obtain rfl := (dissects_of_none hnone d).mp h
    rw [withoutComments_of_firstComment?_eq_none hnone]
    exact (List.append_nil bs).symm
  | next bs before after hfound ih =>
    obtain ⟨c, hc⟩ := dissects_of_some hfound
    obtain ⟨e, he, rfl⟩ := (hc d).mp h
    rw [withoutComments_of_firstComment? hfound, ih he]
    rfl

/-- There is one dissection of each text. -/
theorem exists_dissects_iff (bs : Bytes) :
    ∃ d : Dissection, ∀ e : Dissection, e.Dissects bs ↔ e = d := by
  induction bs using comment_induction with
  | last bs hnone => exact ⟨_, dissects_of_none hnone⟩
  | next bs before after hfound ih =>
    obtain ⟨d, hd⟩ := ih
    obtain ⟨c, hc⟩ := dissects_of_some hfound
    refine ⟨cons before c d, fun e => ?_⟩
    simp only [hc, hd, exists_eq_left]

end Dissection

/-- A text can be cut in exactly one way into comments, each as short as can be, and what stands
between them without a `/*` that would be closed. What stands between them is left when comments are
removed. -/
theorem withoutComments_dissection (bs : Bytes) :
    ∃ d : Dissection, (∀ e : Dissection, e.Dissects bs ↔ e = d) ∧
      withoutComments bs = d.kept.flatten := by
  obtain ⟨d, hd⟩ := Dissection.exists_dissects_iff bs
  exact ⟨d, hd, ((hd d).mpr rfl).withoutComments_eq⟩

/-- The star of an opener closes nothing, an opener inside a comment opens nothing, and the last
comment is not closed. -/
example : (⟨[(Utf8.encode "a", Utf8.encode "/*/ /* */"), ([], Utf8.encode "/**/")],
      Utf8.encode "*/ /*/"⟩ : Dissection).Dissects (Utf8.encode "a/*/ /* *//**/*/ /*/") := by
  decide +kernel

end ThemeBuilder.Style
