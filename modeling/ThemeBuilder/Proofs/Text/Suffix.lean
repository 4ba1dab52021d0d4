import Mathlib.Data.List.Basic
import ThemeBuilder.Config
import ThemeBuilder.Proofs.Text.Pattern

/-! The pattern for style sources describes the names that end in the extension, whatever characters
the extension has. -/
namespace ThemeBuilder
namespace Glob

/-- The token for one character, as an escaped text has it. -/
def exactly (c : Char) : Token :=
  if c ∈ ['?', '*', '[', ']'] then .oneOf [⟨c, c⟩] else .literal c

private theorem standsFor_exactly {c d : Char} : (exactly c).StandsFor d ↔ d = c := by
  unfold exactly
  split
  · constructor
    · intro h
      cases h with
      | oneOf hr hlow hhigh =>
        obtain rfl := List.mem_singleton.mp hr
        exact Char.le_antisymm hhigh hlow
    · rintro rfl
      exact .oneOf List.mem_cons_self (Char.le_refl d) (Char.le_refl d)
  · constructor
    · intro h
      cases h
      rfl
    · rintro rfl
      exact .literal d

theorem exactly_injective : Function.Injective exactly := by
  intro c d h
  apply standsFor_exactly.mp
  rw [← h]
  exact standsFor_exactly.mpr rfl

private theorem escape_cons (c : Char) (cs : List Char) :
    escape (c :: cs) = if c ∈ ['?', '*', '[', ']'] then '[' :: c :: ']' :: escape cs
      else c :: escape cs := by
  rw [escape, List.flatMap_cons, ← escape]
  split <;> rfl

/-- An escaped text is a pattern. -/
private theorem spells_escape (cs : List Char) : Spells (escape cs) (cs.map exactly) := by
  induction cs with
  | nil => exact .nil
  | cons c cs ih =>
    rw [escape_cons, List.map_cons, exactly]
    by_cases hc : c ∈ ['?', '*', '[', ']']
    · have hfirst : c ≠ '!' := by
        rintro rfl
        exact absurd hc (by decide)
      rw [if_pos hc, if_pos hc]
      exact .oneOf hfirst List.not_mem_nil ih
    · rw [if_neg hc, if_neg hc]
      refine .literal (fun hmem => hc ?_) ih
      simp only [List.mem_cons, List.not_mem_nil, or_false] at hmem ⊢
      tauto

/-- An escaped text stands for itself only. -/
private theorem describes_exactly {cs name : List Char} :
    Describes (cs.map exactly) name ↔ name = cs := by
  induction cs generalizing name with
  | nil =>
    constructor
    · intro h
      cases h
      rfl
    · rintro rfl
      exact .nil
  | cons c cs ih =>
    rw [List.map_cons]
    constructor
    · intro h
      generalize ht : exactly c = t at h
      cases h with
      | run =>
        unfold exactly at ht
        split at ht <;> cases ht
      | one hd h =>
        rw [← ht, standsFor_exactly] at hd
        rw [hd, ih.mp h]
    · rintro rfl
      exact .one (standsFor_exactly.mpr rfl) (ih.mpr rfl)

theorem escape_injective : Function.Injective escape := by
  intro cs ds h
  have hread := parse?_of_spells (spells_escape cs)
  rw [h, parse?_of_spells (spells_escape ds)] at hread
  exact (List.map_injective_iff.mpr exactly_injective (Option.some.inj hread)).symm

/-- In an escaped text stars are apart, and from a character before it too. -/
private theorem not_isInfix_cons_escape (c : Char) (cs : List Char) :
    ¬ ['*', '*'] <:+: c :: escape cs := by
  have hcons {a b : Char} {rest : List Char} (hab : ¬ (a = '*' ∧ b = '*'))
      (h : ¬ ['*', '*'] <:+: b :: rest) : ¬ ['*', '*'] <:+: a :: b :: rest := by
    rw [List.infix_cons_iff, not_or, List.cons_prefix_cons, List.cons_prefix_cons]
    exact ⟨fun hstars => hab ⟨hstars.1.symm, hstars.2.1.symm⟩, h⟩
  induction cs generalizing c with
  | nil => simp [escape, List.infix_cons_iff]
  | cons d cs ih =>
    rw [escape_cons]
    split
    · exact hcons (by simp) (hcons (by simp) (hcons (by simp) (ih ']')))
    · rename_i hd
      refine hcons ?_ (ih d)
      rintro ⟨-, rfl⟩
      exact hd (by decide)

end Glob

namespace Config
open Glob

/-- The pattern for style sources: any run of characters, and then those of the extension. -/
theorem spells_sourcePattern (config : Config) : Spells config.sourcePattern.toList
    (.anyRun :: config.sourceExtension.toList.map exactly) := by
  rw [sourcePattern, String.toList_ofList]
  exact .anyRun (spells_escape _)

theorem describes_sourcePattern {config : Config} {name : List Char} :
    Describes (.anyRun :: config.sourceExtension.toList.map exactly) name ↔
      config.sourceExtension.toList <:+ name := by
  constructor
  · intro h
    cases h with
    | run hs h => rwa [← describes_exactly.mp h]
    | one hc => cases hc
  · intro hs
    exact .run hs (describes_exactly.mpr rfl)

/-- The names of style sources are those that end in the extension. -/
theorem isSource_iff (config : Config) (name : String) :
    config.isSource name = true ↔ config.sourceExtension.toList <:+ name.toList := by
  rw [isSource, parse?_of_spells (spells_sourcePattern config)]
  exact accepts_eq_true_iff.trans describes_sourcePattern

/-- The pattern for style sources is put together by the rules in exactly one way, and by the rules
it describes the names that end in the extension. No two of its stars are adjacent, so that none of
them could be taken for more than a run of characters. Every extension has a pattern of its own. -/
theorem sourcePattern_ending (config : Config) :
    config.sourcePattern.toList = '*' :: (config.sourceExtension.toList.flatMap fun c =>
      if c ∈ ['?', '*', '[', ']'] then ['[', c, ']'] else [c]) ∧
    ¬ ['*', '*'] <:+: config.sourcePattern.toList ∧
    (∃ tokens, (∀ ts, Spells config.sourcePattern.toList ts ↔ ts = tokens) ∧
      parse? config.sourcePattern.toList = some tokens ∧
      ∀ name : String, Describes tokens name.toList ↔
        config.sourceExtension.toList <:+ name.toList) ∧
    (∀ name, config.isSource name = true ↔ config.sourceExtension.toList <:+ name.toList) ∧
    ∀ other : Config, other.sourcePattern = config.sourcePattern ↔
      other.sourceExtension = config.sourceExtension := by
  have htext : config.sourcePattern.toList = '*' :: escape config.sourceExtension.toList :=
    String.toList_ofList
  refine ⟨htext, ?_, ?_, config.isSource_iff, fun other => ⟨fun h => ?_, fun h => ?_⟩⟩
  · rw [htext]
    exact not_isInfix_cons_escape '*' _
  · have hparse := parse?_of_spells config.spells_sourcePattern
    refine ⟨_, fun ts => ?_, hparse, fun name => describes_sourcePattern⟩
    rw [← parse?_eq_some_iff, hparse, Option.some.injEq]
    exact eq_comm
  · have hescape := (List.cons.inj (String.ofList_injective h)).2
    exact String.toList_injective (escape_injective hescape)
  · rw [sourcePattern, h, sourcePattern]

/-- An extension that would be a set, a run or an open bracket if it were not escaped. -/
example :
    let config : Config := { sourceExtension := "[!a]*[" }
    config.isSource "/x[!a]*[" = true ∧ config.isSource "/x[!b]*[" = false ∧
      config.isSource "/xb*[" = false := by
  decide +kernel

end Config
end ThemeBuilder
