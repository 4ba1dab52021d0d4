import Mathlib.Algebra.Order.Floor.Div
import Mathlib.GroupTheory.GroupAction.Ring
import ThemeBuilder.Proofs.Style.Tidying
import ThemeBuilder.Text.Utf8

/-! Byte strings by their runs of spaces. A pass that halves spaces acts on each run alone, so what
several passes make of a text can be read off its runs. -/
namespace ThemeBuilder.Style
open Bytes

/-- A byte string cut at its runs of spaces. A run may be empty. -/
structure Runs where
  /-- Each byte that is no space, behind the number of spaces before it. -/
  before : List (Nat × {b : UInt8 // b ≠ space})
  /-- The number of spaces at the end. -/
  last : Nat

namespace Runs

/-- The bytes that are cut so. -/
def text (r : Runs) : Bytes :=
  (r.before.flatMap fun (n, b) => List.replicate n space ++ [b.1]) ++ List.replicate r.last space

/-- The lengths of all runs, of empty ones too, in order. -/
def lengths (r : Runs) : List Nat := r.before.map Prod.fst ++ [r.last]

/-- The bytes that are no spaces, in order. -/
def others (r : Runs) : Bytes := r.before.map fun p => p.2.1

/-- Each run with another length. -/
def map (f : Nat → Nat) (r : Runs) : Runs := ⟨r.before.map fun (n, b) => (f n, b), f r.last⟩

/-- One space more at the start. -/
def pad : Runs → Runs
  | ⟨[], n⟩ => ⟨[], n + 1⟩
  | ⟨(n, b) :: before, last⟩ => ⟨(n + 1, b) :: before, last⟩

/-- The runs of a byte string. -/
def ofText : Bytes → Runs
  | [] => ⟨[], 0⟩
  | b :: bs =>
    if h : b = space then (ofText bs).pad
    else ⟨(0, ⟨b, h⟩) :: (ofText bs).before, (ofText bs).last⟩

variable {n last : Nat} {b : {b : UInt8 // b ≠ space}}
  {before : List (Nat × {b : UInt8 // b ≠ space})}

@[simp]
theorem text_nil (last : Nat) : text ⟨[], last⟩ = List.replicate last space := rfl

@[simp]
theorem text_cons : text ⟨(n, b) :: before, last⟩ =
    List.replicate n space ++ b.1 :: text ⟨before, last⟩ := by
  simp [text]

@[simp]
private theorem text_pad (r : Runs) : r.pad.text = space :: r.text := by
  obtain ⟨_ | ⟨⟨n, b⟩, before⟩, last⟩ := r
  · rfl
  · rw [pad, text_cons, text_cons, List.replicate_succ, List.cons_append]

@[simp]
theorem text_ofText (bs : Bytes) : (ofText bs).text = bs := by
  induction bs with
  | nil => rfl
  | cons b bs ih =>
    rw [ofText]
    split
    · rename_i h
      rw [text_pad, ih, h]
    · rw [text_cons, ih]
      rfl

private theorem ofText_replicate_append (n : Nat) (bs : Bytes) :
    ofText (List.replicate n space ++ bs) = pad^[n] (ofText bs) := by
  induction n with
  | zero => rfl
  | succ n ih =>
    rw [List.replicate_succ, List.cons_append, ofText, dif_pos rfl, ih,
      Function.iterate_succ_apply']

@[simp]
private theorem iterate_pad_nil (n last : Nat) : pad^[n] ⟨[], last⟩ = ⟨[], last + n⟩ := by
  induction n with
  | zero => rfl
  | succ n ih => rw [Function.iterate_succ_apply', ih, pad, Nat.add_assoc]

@[simp]
private theorem iterate_pad_cons (n m : Nat) :
    pad^[n] ⟨(m, b) :: before, last⟩ = ⟨(m + n, b) :: before, last⟩ := by
  induction n with
  | zero => rfl
  | succ n ih => rw [Function.iterate_succ_apply', ih, pad, Nat.add_assoc]

@[simp]
theorem ofText_text (r : Runs) : ofText r.text = r := by
  obtain ⟨before, last⟩ := r
  induction before with
  | nil =>
    have hspaces := ofText_replicate_append last []
    rw [List.append_nil] at hspaces
    rw [text_nil, hspaces, ofText, iterate_pad_nil, Nat.zero_add]
  | cons p before ih =>
    obtain ⟨n, b⟩ := p
    rw [text_cons, ofText_replicate_append, ofText, dif_neg b.2, ih, iterate_pad_cons,
      Nat.zero_add]

/-- There is one way to cut a byte string at its runs. -/
theorem text_eq_iff {r : Runs} {bs : Bytes} : r.text = bs ↔ r = ofText bs := by
  constructor
  · rintro rfl
    exact (ofText_text r).symm
  · rintro rfl
    exact text_ofText bs

@[simp]
theorem map_map (f g : Nat → Nat) (r : Runs) : (r.map f).map g = r.map (g ∘ f) := by
  simp [map]

@[simp]
theorem lengths_map (f : Nat → Nat) (r : Runs) : (r.map f).lengths = r.lengths.map f := by
  simp [map, lengths]

@[simp]
theorem others_map (f : Nat → Nat) (r : Runs) : (r.map f).others = r.others := by
  simp [map, others]

private theorem map_eq_self_iff (f : Nat → Nat) (r : Runs) :
    r.map f = r ↔ ∀ n ∈ r.lengths, f n = n := by
  obtain ⟨before, last⟩ := r
  have hbefore : (before.map fun (n, b) => (f n, b)) = before ↔ ∀ p ∈ before, f p.1 = p.1 := by
    have hmap := List.map_inj_left (l := before) (f := fun (n, b) => (f n, b)) (g := id)
    rw [List.map_id] at hmap
    simpa [Prod.ext_iff] using hmap
  simp only [map, lengths, Runs.mk.injEq, hbefore, List.forall_mem_append, List.forall_mem_map,
    List.forall_mem_singleton]

/-- The lengths of the runs that are there, in order. -/
def present (r : Runs) : List Nat := r.lengths.filter (0 < ·)

private theorem present_map {f : Nat → Nat} (hf : ∀ n, 0 < f n ↔ 0 < n) (r : Runs) :
    (r.map f).present = r.present.map f := by
  rw [present, present, lengths_map, List.filter_map]
  congr 2
  funext n
  exact decide_eq_decide.mpr (hf n)

end Runs

section Passes

/-- A number is halved upwards again and again, or divided upwards at once. -/
private theorem ceilDiv_two_pow_succ (n k : Nat) : n ⌈/⌉ 2 ^ k ⌈/⌉ 2 = n ⌈/⌉ 2 ^ (k + 1) := by
  refine eq_of_forall_ge_iff fun m => ?_
  rw [ceilDiv_le_iff_le_mul two_pos, ceilDiv_le_iff_le_mul (Nat.two_pow_pos k),
    ceilDiv_le_iff_le_mul (Nat.two_pow_pos _), Nat.pow_succ, Nat.mul_assoc]

private theorem ceilDiv_two_pow_le (n m k : Nat) : n ⌈/⌉ 2 ^ k ≤ m ↔ n ≤ 2 ^ k * m :=
  ceilDiv_le_iff_le_mul (Nat.two_pow_pos k)

private theorem ceilDiv_two_pow_pos (n k : Nat) : 0 < n ⌈/⌉ 2 ^ k ↔ 0 < n := by
  rw [← not_iff_not, Nat.not_lt, Nat.not_lt, ceilDiv_two_pow_le, Nat.mul_zero]

private theorem ceilDiv_two_pow_succ_eq_self (n k : Nat) : n ⌈/⌉ 2 ^ (k + 1) = n ↔ n ≤ 1 := by
  have hpos := ceilDiv_two_pow_pos n (k + 1)
  have htwo : 2 ≤ 2 ^ (k + 1) := Nat.pow_le_pow_right two_pos (Nat.le_add_left 1 k)
  constructor
  · intro heq
    by_contra hlarge
    have hfits : n ≤ 2 ^ (k + 1) * (n - 1) :=
      Nat.le_trans (show n ≤ 2 * (n - 1) by omega) (Nat.mul_le_mul_right _ htwo)
    have hless := (ceilDiv_two_pow_le n (n - 1) (k + 1)).mpr hfits
    omega
  · intro hsmall
    have hle := (ceilDiv_two_pow_le n n (k + 1)).mpr (Nat.le_mul_of_pos_left n (by omega))
    omega

theorem halveSpaces_replicate (n : Nat) :
    halveSpaces (List.replicate n space) = List.replicate (n ⌈/⌉ 2) space := by
  induction n using Nat.twoStepInduction with
  | zero => rfl
  | one => rfl
  | more n ih _ =>
    have hstep : (n + 2) ⌈/⌉ 2 = n ⌈/⌉ 2 + 1 := by
      rw [Nat.ceilDiv_eq_add_pred_div, Nat.ceilDiv_eq_add_pred_div]
      omega
    rw [List.replicate_succ, List.replicate_succ, halveSpaces, if_pos ⟨rfl, rfl⟩, ih, hstep,
      List.replicate_succ]

/-- A pass halves each run. -/
theorem halveSpaces_text (r : Runs) : halveSpaces r.text = (r.map (· ⌈/⌉ 2)).text := by
  obtain ⟨before, last⟩ := r
  induction before with
  | nil => exact halveSpaces_replicate last
  | cons p before ih =>
    obtain ⟨n, b⟩ := p
    rw [Runs.text_cons, halveSpaces_append_cons b.2, halveSpaces_replicate, ih]
    exact Runs.text_cons.symm

theorem iterate_halveSpaces_text (r : Runs) (k : Nat) :
    halveSpaces^[k] r.text = (r.map (· ⌈/⌉ 2 ^ k)).text := by
  induction k with
  | zero =>
    have hself : r.map (· ⌈/⌉ 2 ^ 0) = r := by
      refine (Runs.map_eq_self_iff _ r).mpr fun n _ => ?_
      rw [Nat.ceilDiv_eq_add_pred_div, Nat.pow_zero, Nat.add_sub_cancel, Nat.div_one]
    rw [hself]
    rfl
  | succ k ih =>
    rw [Function.iterate_succ_apply', ih, halveSpaces_text, Runs.map_map]
    exact congrArg (fun f => (r.map f).text) (funext fun n => ceilDiv_two_pow_succ n k)

/-- A pass leaves a text as it is if there is nothing to be halved. -/
theorem halveSpaces_eq_self_iff (bs : Bytes) :
    halveSpaces bs = bs ↔ ¬ [space, space] <:+: bs := by
  fun_induction halveSpaces bs with
  | case1 => simp
  | case2 b => simp [List.infix_cons_iff]
  | case3 a b bs h _ =>
    obtain ⟨rfl, rfl⟩ := h
    refine iff_of_false (fun heq => ?_) (not_not.mpr (List.prefix_append _ bs).isInfix)
    have hlength := (halveSpaces_sublist bs).length_le
    rw [List.tail_eq_of_cons_eq heq, List.length_cons] at hlength
    omega
  | case4 a b bs h ih =>
    have hprefix : ¬ [space, space] <+: a :: b :: bs := by
      intro hprefix
      obtain ⟨ha, hprefix⟩ := List.cons_prefix_cons.mp hprefix
      exact h ⟨ha.symm, (List.cons_prefix_cons.mp hprefix).1.symm⟩
    rw [List.infix_cons_iff, or_iff_right hprefix, ← ih, List.cons.injEq, and_iff_right rfl]

/-- Several passes change something if one does. -/
theorem iterate_halveSpaces_eq_self_iff (bs : Bytes) (k : Nat) :
    halveSpaces^[k + 1] bs = bs ↔ ∀ n ∈ (Runs.ofText bs).lengths, n ≤ 1 := by
  have hpasses := iterate_halveSpaces_text (Runs.ofText bs) (k + 1)
  rw [Runs.text_ofText] at hpasses
  rw [hpasses, Runs.text_eq_iff, Runs.map_eq_self_iff]
  exact forall₂_congr fun n _ => ceilDiv_two_pow_succ_eq_self n k

end Passes

/-- What any number of passes makes of a text: a run of `n` spaces, `n` not zero, becomes one of
`n / 2 ^ k` spaces, rounded up, and the other bytes stay as they are. So as many runs are there as
before, between the same bytes. Where no two spaces are adjacent the passes change nothing, and
elsewhere they do. One more pass changes nothing if no run has more than `2 ^ k` spaces. -/
theorem iterate_halveSpaces (bs : Bytes) (k : Nat) :
    let r := Runs.ofText bs
    (∀ q : Runs, q.text = bs ↔ q = r) ∧
    halveSpaces^[k] bs = (r.map (· ⌈/⌉ 2 ^ k)).text ∧
    Runs.ofText (halveSpaces^[k] bs) = r.map (· ⌈/⌉ 2 ^ k) ∧
    (Runs.ofText (halveSpaces^[k] bs)).others = r.others ∧
    (Runs.ofText (halveSpaces^[k] bs)).present = r.present.map (· ⌈/⌉ 2 ^ k) ∧
    (halveSpaces^[k + 1] bs = bs ↔ ¬ [space, space] <:+: bs) ∧
    (halveSpaces (halveSpaces^[k] bs) = halveSpaces^[k] bs ↔ ∀ n ∈ r.present, n ≤ 2 ^ k) := by
  intro r
  have hpasses : halveSpaces^[k] bs = (r.map (· ⌈/⌉ 2 ^ k)).text := by
    rw [← iterate_halveSpaces_text, Runs.text_ofText]
  have hruns : Runs.ofText (halveSpaces^[k] bs) = r.map (· ⌈/⌉ 2 ^ k) := by
    rw [hpasses, Runs.ofText_text]
  refine ⟨fun q => Runs.text_eq_iff, hpasses, hruns, ?_, ?_, ?_, ?_⟩
  · rw [hruns, Runs.others_map]
  · rw [hruns, Runs.present_map fun n => ceilDiv_two_pow_pos n k]
  · rw [iterate_halveSpaces_eq_self_iff, ← halveSpaces_eq_self_iff]
    exact (iterate_halveSpaces_eq_self_iff bs 0).symm
  · have hone := iterate_halveSpaces_eq_self_iff (halveSpaces^[k] bs) 0
    rw [hruns, Runs.lengths_map, List.forall_mem_map] at hone
    refine hone.trans ?_
    simp only [ceilDiv_two_pow_le, Nat.mul_one, Runs.present, List.mem_filter, decide_eq_true_eq,
      and_imp]
    refine forall₂_congr fun n _ => ⟨fun h _ => h, fun h => ?_⟩
    obtain rfl | hn := Nat.eq_zero_or_pos n
    · exact Nat.zero_le _
    · exact h hn

example : halveSpaces^[2] (Utf8.encode "     a b    \n") = Utf8.encode "  a b \n" := by
  decide +kernel

end ThemeBuilder.Style
