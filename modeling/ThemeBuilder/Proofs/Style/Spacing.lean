import ThemeBuilder.Proofs.Text.Lines
import ThemeBuilder.Style.Source

/-! Byte strings that differ only in how long their runs of blanks are and what they consist of.
Comment delimiters hold no blank, so such strings have the same comments. -/
namespace ThemeBuilder.Style
open Bytes

/-- The bytes that are not blank. -/
def nonblanks (bs : Bytes) : Bytes := bs.filter (!isBlank ·)

theorem nonblanks_cons_blank {c : UInt8} (hc : isBlank c = true) (bs : Bytes) :
    nonblanks (c :: bs) = nonblanks bs := by
  simp [nonblanks, hc]

theorem nonblanks_cons_congr (c : UInt8) {a b : Bytes} (h : nonblanks a = nonblanks b) :
    nonblanks (c :: a) = nonblanks (c :: b) := by
  simp only [nonblanks, List.filter_cons] at h ⊢
  rw [h]

@[simp]
theorem nonblanks_append (a b : Bytes) : nonblanks (a ++ b) = nonblanks a ++ nonblanks b :=
  List.filter_append ..

/-- No byte but a blank comes first. -/
def AtBlank (bs : Bytes) : Prop := ∀ b, bs.head? = some b → isBlank b = true

theorem atBlank_cons {c : UInt8} {bs : Bytes} : AtBlank (c :: bs) ↔ isBlank c = true := by
  simp [AtBlank]

/-- Blanks are exchanged for others, or come and go next to other blanks or at the end. A byte
next to another one stays next to it. -/
inductive Respaced : Bytes → Bytes → Prop
  | nil : Respaced [] []
  | byte (c : UInt8) {a b : Bytes} : Respaced a b → Respaced (c :: a) (c :: b)
  | blank {c d : UInt8} {a b : Bytes} : isBlank c = true → isBlank d = true →
      Respaced a b → Respaced (c :: a) (d :: b)
  | left {c : UInt8} {a b : Bytes} : isBlank c = true → AtBlank a →
      Respaced a b → Respaced (c :: a) b
  | right {d : UInt8} {a b : Bytes} : isBlank d = true → AtBlank b →
      Respaced a b → Respaced a (d :: b)

namespace Respaced
variable {a b : Bytes}

theorem symm (h : Respaced a b) : Respaced b a := by
  induction h with
  | nil => exact .nil
  | byte c _ ih => exact .byte c ih
  | blank hc hd _ ih => exact .blank hd hc ih
  | left hc ha _ ih => exact .right hc ha ih
  | right hd hb _ ih => exact .left hd hb ih

theorem atBlank (h : Respaced a b) (hb : AtBlank b) : AtBlank a := by
  induction h with
  | nil => exact hb
  | byte c => exact atBlank_cons.mpr (atBlank_cons.mp hb)
  | blank hc | left hc => exact atBlank_cons.mpr hc
  | right _ hb' _ ih => exact ih hb'

/-- What follows a byte that is no blank stays behind it. -/
theorem cons_inv {c : UInt8} (hc : isBlank c = false) (h : Respaced (c :: a) b) :
    ∃ b', b = c :: b' ∧ Respaced a b' := by
  generalize hs : c :: a = s at h
  induction h with
  | nil => cases hs
  | byte d h =>
    cases hs
    exact ⟨_, rfl, h⟩
  | blank hd | left hd =>
    cases hs
    exact absurd hd (by simp [hc])
  | right _ hb h =>
    have := h.atBlank hb
    rw [← hs, atBlank_cons, hc] at this
    cases this

theorem cons_cons_inv {c : UInt8} (hc : isBlank c = false) (h : Respaced (c :: a) (c :: b)) :
    Respaced a b := by
  obtain ⟨_, he, h⟩ := h.cons_inv hc
  cases he
  exact h

theorem head?_eq {c : UInt8} (hc : isBlank c = false) (h : Respaced a b) :
    a.head? = some c ↔ b.head? = some c := by
  have forward {a b : Bytes} (h : Respaced a b) (ha : a.head? = some c) : b.head? = some c := by
    obtain ⟨a, rfl⟩ := List.head?_eq_some_iff.mp ha
    obtain ⟨b, rfl, -⟩ := h.cons_inv hc
    rfl
  exact ⟨forward h, forward h.symm⟩

theorem append_left (c : Bytes) (h : Respaced a b) : Respaced (c ++ a) (c ++ b) := by
  induction c with
  | nil => exact h
  | cons c cs ih => exact .byte c ih

/-- Blanks before a blank or before the end come and go. -/
theorem pad {g : Bytes} (hg : ∀ c ∈ g, isBlank c = true) (ha : AtBlank a) (h : Respaced a b) :
    Respaced (g ++ a) b := by
  induction g with
  | nil => exact h
  | cons c g ih =>
    rw [List.forall_mem_cons] at hg
    refine .left hg.1 ?_ (ih hg.2)
    cases g with
    | nil => exact ha
    | cons d g => exact atBlank_cons.mpr (hg.2 d List.mem_cons_self)

/-- A run of blanks may take the place of one. -/
theorem gap {g : Bytes} {c d : UInt8} (hg : ∀ c ∈ g, isBlank c = true) (hc : isBlank c = true)
    (hd : isBlank d = true) (h : Respaced a b) : Respaced (c :: (g ++ a)) (d :: b) := by
  induction g generalizing c with
  | nil => exact .blank hc hd h
  | cons e g ih =>
    rw [List.forall_mem_cons] at hg
    exact .left hc (atBlank_cons.mpr hg.1) (ih hg.2 hg.1)

theorem nonblanks_eq (h : Respaced a b) : nonblanks a = nonblanks b := by
  induction h with
  | nil => rfl
  | byte c _ ih => exact nonblanks_cons_congr c ih
  | blank hc hd _ ih => rw [nonblanks_cons_blank hc, nonblanks_cons_blank hd, ih]
  | left hc _ _ ih => rw [nonblanks_cons_blank hc, ih]
  | right hd _ _ ih => rw [nonblanks_cons_blank hd, ih]

end Respaced

theorem afterClose_cons_blank {c : UInt8} (hc : isBlank c = true) (bs : Bytes) :
    afterClose (c :: bs) = afterClose bs := by
  rw [afterClose, if_neg]
  rintro ⟨rfl, -⟩
  exact absurd hc (by decide)

/-- The first `*/` of both is the same one. -/
theorem Respaced.afterClose_rel {a b : Bytes} (h : Respaced a b) :
    Option.Rel Respaced (afterClose a) (afterClose b) := by
  induction h with
  | nil => exact .none
  | blank hc hd _ ih => rwa [afterClose_cons_blank hc, afterClose_cons_blank hd]
  | left hc _ _ ih => rwa [afterClose_cons_blank hc]
  | right hd _ _ ih => rwa [afterClose_cons_blank hd]
  | @byte c a b h ih =>
    have hslash := h.head?_eq (c := slash) (by decide)
    rw [afterClose, afterClose]
    by_cases hclose : c = star ∧ a.head? = some slash
    · rw [if_pos hclose, if_pos ⟨hclose.1, hslash.mp hclose.2⟩]
      obtain ⟨a, rfl⟩ := List.head?_eq_some_iff.mp hclose.2
      obtain ⟨b, rfl, hab⟩ := h.cons_inv (by decide)
      exact .some hab
    · rw [if_neg hclose, if_neg fun hb => hclose ⟨hb.1, hslash.mpr hb.2⟩]
      exact ih

theorem Respaced.afterClose_eq_none {a b : Bytes} (h : Respaced a b) (ha : afterClose a = none) :
    afterClose b = none := by
  have := h.afterClose_rel
  rw [ha] at this
  generalize afterClose b = found at this
  cases this
  rfl

theorem Respaced.afterClose_eq_some {a b rest : Bytes} (h : Respaced a b)
    (ha : afterClose a = some rest) : ∃ rest', afterClose b = some rest' ∧ Respaced rest rest' := by
  have := h.afterClose_rel
  rw [ha] at this
  generalize afterClose b = found at this
  cases this with
  | some hrest => exact ⟨_, rfl, hrest⟩

end ThemeBuilder.Style
