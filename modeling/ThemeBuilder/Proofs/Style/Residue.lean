import Mathlib.Data.List.Chain
import ThemeBuilder.Proofs.Style.Dissection

/-! What removing comments once leaves. A comment that is still there opens with a slash and a star
that stood on the two sides of removed comments. -/
namespace ThemeBuilder.Style
open Bytes

namespace Dissection
variable {d : Dissection} {bs before inside : Bytes}

/-- What stands between the groups of adjacent comments, and before and behind all of them. -/
def pieces (d : Dissection) : List Bytes := d.kept.filter fun s => !s.isEmpty

/-- No group of adjacent comments, taken as long as can be, has a slash right before it and a star
right behind it. -/
def Apart (d : Dissection) : Prop :=
  d.pieces.IsChain fun (s t : Bytes) => ¬ (s.getLast? = some slash ∧ t.head? = some star)

instance (d : Dissection) : Decidable d.Apart := inferInstanceAs (Decidable (List.IsChain _ _))

/-- An opener that is closed lies across the end of one of the texts, as none of them has one. -/
private theorem exists_cut {texts : List Bytes} {rest : Bytes}
    (hopen : ∀ s ∈ texts, ¬ [slash, star] <:+: s) (hrest : ¬ HoldsComment rest)
    (h : (texts ++ [rest]).flatten = before ++ slash :: star :: inside)
    (hclose : [star, slash] <:+: inside) :
    ∃ front back, texts ++ [rest] = front ++ back ∧ front.flatten = before ++ [slash] ∧
      back.flatten = star :: inside := by
  induction texts generalizing before with
  | nil =>
    rw [List.nil_append, List.flatten_singleton] at h
    exact absurd ⟨before, inside, h, hclose⟩ hrest
  | cons s texts ih =>
    rw [List.forall_mem_cons] at hopen
    have later (more : Bytes) (hbefore : before = s ++ more)
        (h : (texts ++ [rest]).flatten = more ++ slash :: star :: inside) :
        ∃ front back, s :: texts ++ [rest] = front ++ back ∧ front.flatten = before ++ [slash] ∧
          back.flatten = star :: inside := by
      obtain ⟨front, back, heq, hfront, hback⟩ := ih hopen.2 h
      refine ⟨s :: front, back, congrArg (s :: ·) heq, ?_, hback⟩
      rw [List.flatten_cons, hfront, hbefore, List.append_assoc]
    rw [List.cons_append, List.flatten_cons] at h
    obtain ⟨more, hbefore, hmore⟩ | ⟨more, hs, hmore⟩ := List.append_eq_append_iff.mp h
    · exact later more hbefore hmore
    · match more, hmore with
      | [], hmore =>
        exact later [] (by rw [hs, List.append_nil, List.append_nil]) hmore.symm
      | [_], hmore =>
        obtain ⟨rfl, hbehind⟩ := List.cons.inj hmore
        exact ⟨[s], texts ++ [rest], rfl, by rw [List.flatten_singleton, hs], hbehind.symm⟩
      | _ :: _ :: more, hmore =>
        cases hmore
        exact absurd ⟨before, more, by simp [hs]⟩ hopen.1

/-- Two texts with nothing but removed comments between them, the first of which ends in a slash
and the second one of which begins with a star. -/
private theorem Dissects.exists_seam (h : d.Dissects bs)
    (heq : withoutComments bs = before ++ slash :: star :: inside)
    (hclose : [star, slash] <:+: inside) :
    ∃ front s t back, d.pieces = front ++ s :: t :: back ∧
      front.flatten ++ s = before ++ [slash] ∧ t ++ back.flatten = star :: inside := by
  have hopen : ∀ s ∈ d.parts.map Prod.fst, ¬ [slash, star] <:+: s := by
    intro s hs
    obtain ⟨p, hp, rfl⟩ := List.mem_map.mp hs
    exact h.open_free p hp
  rw [h.withoutComments_eq] at heq
  obtain ⟨left, right, hkept, hleft, hright⟩ := exists_cut hopen h.rest heq hclose
  rw [← List.flatten_filter_not_isEmpty] at hleft hright
  have hpieces : d.pieces = left.filter (fun s => !s.isEmpty) ++
      right.filter (fun s => !s.isEmpty) := by
    rw [pieces, kept, hkept, List.filter_append]
  obtain hnone | ⟨front, s, hs⟩ := List.eq_nil_or_concat' (left.filter fun s => !s.isEmpty)
  · rw [hnone] at hleft
    simp at hleft
  · match hback : right.filter fun s => !s.isEmpty with
    | [] =>
      rw [hback] at hright
      cases hright
    | t :: back =>
      rw [hback] at hright hpieces
      rw [hs] at hleft hpieces
      refine ⟨front, s, t, back, ?_, ?_, hright⟩
      · rw [hpieces, List.append_assoc]
        rfl
      · rw [← hleft, List.flatten_append, List.flatten_singleton]

end Dissection

/-- Where no removed comments stand between a slash and a star, no comment is left. -/
private theorem Dissection.Dissects.not_holdsComment {d : Dissection} {bs : Bytes}
    (h : d.Dissects bs) (hapart : d.Apart) : ¬ HoldsComment (withoutComments bs) := by
  rintro ⟨before, inside, heq, hclose⟩
  obtain ⟨front, s, t, back, hpieces, hs, ht⟩ := h.exists_seam heq hclose
  have hne : ∀ u ∈ d.pieces, u ≠ [] := fun u hu => by simpa using (List.mem_filter.mp hu).2
  rw [Dissection.Apart, hpieces, List.isChain_append_cons_cons] at hapart
  refine hapart.2.1 ⟨?_, ?_⟩
  · have hlast := congrArg List.getLast? hs
    rw [List.getLast?_append_of_ne_nil _ (hne s (by simp [hpieces])),
      List.getLast?_append_of_ne_nil _ (List.cons_ne_nil _ _)] at hlast
    exact hlast
  · have hfirst := congrArg List.head? ht
    rw [List.head?_append_of_ne_nil _ (hne t (by simp [hpieces]))] at hfirst
    exact hfirst

/-- Where no removed comments stand between a slash and a star, none is left, and removing comments
again changes nothing. Wherever one is left nevertheless, its opener was brought together from the
two sides of a group of removed comments. What brings a closer together does no harm. -/
theorem withoutComments_residue (bs : Bytes) :
    ∃ d : Dissection, (∀ e : Dissection, e.Dissects bs ↔ e = d) ∧
      (d.Apart → ¬ HoldsComment (withoutComments bs) ∧
        withoutComments (withoutComments bs) = withoutComments bs) ∧
      ∀ before inside, withoutComments bs = before ++ slash :: star :: inside →
        [star, slash] <:+: inside →
        ∃ front s t back, d.pieces = front ++ s :: t :: back ∧
          front.flatten ++ s = before ++ [slash] ∧ t ++ back.flatten = star :: inside := by
  obtain ⟨d, hd⟩ := Dissection.exists_dissects_iff bs
  have h : d.Dissects bs := (hd d).mpr rfl
  refine ⟨d, hd, fun hapart => ?_, fun before inside heq hclose => h.exists_seam heq hclose⟩
  have hnone := h.not_holdsComment hapart
  exact ⟨hnone, withoutComments_of_not_holdsComment hnone⟩

/-- A closer that two adjacent comments kept apart, and an opener that one comment did. -/
theorem withoutComments_residue_seams :
    let a := Utf8.encode "a*/*x*//*/ y*// /*z"
    let b := Utf8.encode "//*x*/* y */"
    withoutComments a = Utf8.encode "a*/ /*z" ∧
      withoutComments (withoutComments a) = withoutComments a ∧
      withoutComments b = Utf8.encode "/* y */" ∧
      ∃ (d : Dissection) (front : List Bytes) (s t : Bytes) (back : List Bytes),
        d.Dissects b ∧ d.pieces = front ++ s :: t :: back ∧
          front.flatten ++ s = [slash] ∧ t ++ back.flatten = star :: Utf8.encode " y */" := by
  intro a b
  have ha : Dissection.Dissects ⟨[(Utf8.encode "a*", Utf8.encode "/*x*/"),
      ([], Utf8.encode "/*/ y*/")], Utf8.encode "/ /*z"⟩ a := by decide +kernel
  have hleft : withoutComments b = Utf8.encode "/* y */" := by decide +kernel
  obtain ⟨d, hd, hclean, -⟩ := withoutComments_residue a
  obtain rfl := (hd _).mp ha
  obtain ⟨d, hd, -, hseam⟩ := withoutComments_residue b
  obtain ⟨front, s, t, back, hseam⟩ := hseam [] (Utf8.encode " y */") hleft (by decide +kernel)
  exact ⟨by decide +kernel, (hclean (by decide +kernel)).2, hleft, d, front, s, t, back,
    (hd d).mpr rfl, hseam⟩

end ThemeBuilder.Style
