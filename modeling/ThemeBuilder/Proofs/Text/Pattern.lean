import Mathlib.Data.List.Infix
import ThemeBuilder.Text.Glob

/-! Glob patterns by their rules: how the text of a pattern is put together, and which names a
pattern describes. What is read and what is accepted is what the rules say. -/
namespace ThemeBuilder
namespace Glob

/-- The text of a pattern, token by token. The first member of a bracketed set may be a `]`, and a
`]` outside of a set stands for itself. -/
inductive Spells : List Char → List Token → Prop
  | nil : Spells [] []
  | anyRun {cs : List Char} {ts : List Token} : Spells cs ts → Spells ('*' :: cs) (.anyRun :: ts)
  | anyChar {cs : List Char} {ts : List Token} : Spells cs ts → Spells ('?' :: cs) (.anyChar :: ts)
  | oneOf {first : Char} {others cs : List Char} {ts : List Token} : first ≠ '!' → ']' ∉ others →
      Spells cs ts →
      Spells ('[' :: first :: (others ++ ']' :: cs)) (.oneOf (ranges (first :: others)) :: ts)
  | noneOf {first : Char} {others cs : List Char} {ts : List Token} : ']' ∉ others →
      Spells cs ts →
      Spells ('[' :: '!' :: first :: (others ++ ']' :: cs)) (.noneOf (ranges (first :: others)) :: ts)
  | literal {c : Char} {cs : List Char} {ts : List Token} : c ∉ ['*', '?', '['] → Spells cs ts →
      Spells (c :: cs) (.literal c :: ts)

private theorem splitAtBracket_eq_some {cs body rest : List Char} :
    splitAtBracket cs = some (body, rest) ↔ ']' ∉ body ∧ cs = body ++ ']' :: rest := by
  fun_induction splitAtBracket cs generalizing body with
  | case1 => simp
  | case2 cs =>
    constructor
    · intro h
      cases h
      exact ⟨List.not_mem_nil, rfl⟩
    · rintro ⟨hbody, heq⟩
      cases body with
      | nil =>
        cases heq
        rfl
      | cons c body =>
        cases heq
        exact absurd List.mem_cons_self hbody
  | case3 c cs hc ih =>
    rw [Option.map_eq_some_iff]
    constructor
    · rintro ⟨⟨front, back⟩, hfound, heq⟩
      cases heq
      obtain ⟨hfront, rfl⟩ := ih.mp hfound
      exact ⟨List.not_mem_cons_of_ne_of_not_mem (Ne.symm hc) hfront, rfl⟩
    · rintro ⟨hbody, heq⟩
      cases body with
      | nil =>
        cases heq
        exact absurd rfl hc
      | cons d body =>
        cases heq
        exact ⟨(body, rest), ih.mpr ⟨List.not_mem_of_not_mem_cons hbody, rfl⟩, rfl⟩

private theorem bracket?_eq_some {cs rest : List Char} {t : Token} : bracket? cs = some (t, rest) ↔
    ∃ first others, ']' ∉ others ∧
      (first ≠ '!' ∧ cs = first :: (others ++ ']' :: rest) ∧
          t = .oneOf (ranges (first :: others)) ∨
        cs = '!' :: first :: (others ++ ']' :: rest) ∧ t = .noneOf (ranges (first :: others))) := by
  constructor
  · intro h
    unfold bracket? at h
    split at h
    · obtain ⟨⟨others, rest⟩, hfound, heq⟩ := Option.map_eq_some_iff.mp h
      cases heq
      obtain ⟨hothers, rfl⟩ := splitAtBracket_eq_some.mp hfound
      exact ⟨_, others, hothers, .inr ⟨rfl, rfl⟩⟩
    · rename_i first cs hplain
      obtain ⟨⟨others, rest⟩, hfound, heq⟩ := Option.map_eq_some_iff.mp h
      cases heq
      obtain ⟨hothers, rfl⟩ := splitAtBracket_eq_some.mp hfound
      refine ⟨first, others, hothers, .inl ⟨?_, rfl, rfl⟩⟩
      rintro rfl
      cases others with
      | nil => exact hplain _ _ rfl rfl
      | cons c others => exact hplain _ _ rfl rfl
    · cases h
  · rintro ⟨first, others, hothers, ⟨hfirst, rfl, rfl⟩ | ⟨rfl, rfl⟩⟩
    · rw [bracket?, splitAtBracket_eq_some.mpr ⟨hothers, rfl⟩]
      · rfl
      · intro _ _ heq
        exact absurd heq hfirst
    · rw [bracket?, splitAtBracket_eq_some.mpr ⟨hothers, rfl⟩]
      rfl

private theorem spells_of_parse? {cs : List Char} {ts : List Token} (h : parse? cs = some ts) :
    Spells cs ts := by
  fun_induction parse? cs generalizing ts with
  | case1 =>
    cases h
    exact .nil
  | case2 cs ih =>
    obtain ⟨ts, hts, rfl⟩ := Option.map_eq_some_iff.mp h
    exact .anyRun (ih hts)
  | case3 cs ih =>
    obtain ⟨ts, hts, rfl⟩ := Option.map_eq_some_iff.mp h
    exact .anyChar (ih hts)
  | case4 cs t rest hset ih =>
    obtain ⟨ts, hts, rfl⟩ := Option.map_eq_some_iff.mp h
    obtain ⟨first, others, hothers, ⟨hfirst, rfl, rfl⟩ | ⟨rfl, rfl⟩⟩ := bracket?_eq_some.mp hset
    · exact .oneOf hfirst hothers (ih hts)
    · exact .noneOf hothers (ih hts)
  | case5 => cases h
  | case6 c cs hrun hone hset ih =>
    obtain ⟨ts, hts, rfl⟩ := Option.map_eq_some_iff.mp h
    refine .literal ?_ (ih hts)
    simp only [List.mem_cons, List.not_mem_nil, or_false]
    rintro (rfl | rfl | rfl)
    · exact hrun rfl
    · exact hone rfl
    · exact hset rfl

private theorem parse?_set {cs rest : List Char} {t : Token} (h : bracket? cs = some (t, rest)) :
    parse? ('[' :: cs) = (parse? rest).map (t :: ·) := by
  rw [parse?]
  split
  · rename_i heq
    rw [h] at heq
    cases heq
    rfl
  · rename_i heq
    rw [h] at heq
    cases heq

theorem parse?_of_spells {cs : List Char} {ts : List Token} (h : Spells cs ts) :
    parse? cs = some ts := by
  induction h with
  | nil => rw [parse?]
  | anyRun _ ih | anyChar _ ih => rw [parse?, ih, Option.map_some]
  | oneOf hfirst hothers _ ih =>
    rw [parse?_set (bracket?_eq_some.mpr ⟨_, _, hothers, .inl ⟨hfirst, rfl, rfl⟩⟩), ih,
      Option.map_some]
  | noneOf hothers _ ih =>
    rw [parse?_set (bracket?_eq_some.mpr ⟨_, _, hothers, .inr ⟨rfl, rfl⟩⟩), ih, Option.map_some]
  | @literal c cs ts hc _ ih =>
    rw [parse?, ih, Option.map_some]
    all_goals
      rintro rfl
      exact hc (by decide)

/-- The patterns that are read are those that the rules put together. -/
theorem parse?_eq_some_iff {cs : List Char} {ts : List Token} :
    parse? cs = some ts ↔ Spells cs ts :=
  ⟨spells_of_parse?, parse?_of_spells⟩

/-- The characters that a token for one character stands for. -/
inductive Token.StandsFor : Token → Char → Prop
  | anyChar (c : Char) : StandsFor .anyChar c
  | literal (c : Char) : StandsFor (.literal c) c
  | oneOf {rs : List CharRange} {r : CharRange} {c : Char} : r ∈ rs → r.low ≤ c → c ≤ r.high →
      StandsFor (.oneOf rs) c
  | noneOf {rs : List CharRange} {c : Char} : (∀ r ∈ rs, ¬ (r.low ≤ c ∧ c ≤ r.high)) →
      StandsFor (.noneOf rs) c

/-- The names that a pattern describes. A run is made of any characters, or of none. -/
inductive Describes : List Token → List Char → Prop
  | nil : Describes [] []
  | run {ts : List Token} {cs rest : List Char} : rest <:+ cs → Describes ts rest →
      Describes (.anyRun :: ts) cs
  | one {t : Token} {ts : List Token} {c : Char} {cs : List Char} : t.StandsFor c →
      Describes ts cs → Describes (t :: ts) (c :: cs)

theorem contains_eq_true {r : CharRange} {c : Char} :
    CharRange.contains r c = true ↔ r.low ≤ c ∧ c ≤ r.high := by
  rw [CharRange.contains, Bool.and_eq_true, decide_eq_true_eq, decide_eq_true_eq]

theorem admits_eq_true {t : Token} {c : Char} : t.admits c = true ↔ t.StandsFor c := by
  constructor
  · intro h
    cases t with
    | anyRun => cases h
    | anyChar => exact .anyChar c
    | literal d =>
      obtain rfl := beq_iff_eq.mp h
      exact .literal c
    | oneOf rs =>
      obtain ⟨r, hr, hc⟩ := List.any_eq_true.mp h
      obtain ⟨hlow, hhigh⟩ := contains_eq_true.mp hc
      exact .oneOf hr hlow hhigh
    | noneOf rs =>
      rw [Token.admits, Bool.not_eq_true', List.any_eq_false] at h
      exact .noneOf fun r hr hc => h r hr (contains_eq_true.mpr hc)
  · intro h
    cases h with
    | anyChar => rfl
    | literal => exact beq_iff_eq.mpr rfl
    | oneOf hr hlow hhigh =>
      exact List.any_eq_true.mpr ⟨_, hr, contains_eq_true.mpr ⟨hlow, hhigh⟩⟩
    | noneOf hnone =>
      rw [Token.admits, Bool.not_eq_true', List.any_eq_false]
      exact fun r hr hc => hnone r hr (contains_eq_true.mp hc)

theorem anywhere_eq_true {p : List Char → Bool} {cs : List Char} :
    accepts.anywhere p cs = true ↔ ∃ rest, rest <:+ cs ∧ p rest = true := by
  induction cs with
  | nil => simp [accepts.anywhere, List.suffix_nil]
  | cons c cs ih =>
    rw [accepts.anywhere, Bool.or_eq_true, ih]
    constructor
    · rintro (h | ⟨rest, hs, h⟩)
      · exact ⟨c :: cs, List.suffix_rfl, h⟩
      · exact ⟨rest, hs.trans (List.suffix_cons c cs), h⟩
    · rintro ⟨rest, hs, h⟩
      obtain rfl | hs := List.suffix_cons_iff.mp hs
      · exact .inl h
      · exact .inr ⟨rest, hs, h⟩

/-- The names that are accepted are those that the pattern describes. -/
theorem accepts_eq_true_iff {ts : List Token} {cs : List Char} :
    accepts ts cs = true ↔ Describes ts cs := by
  induction ts generalizing cs with
  | nil =>
    rw [accepts, List.isEmpty_iff]
    constructor
    · rintro rfl
      exact .nil
    · intro h
      cases h
      rfl
  | cons t ts ih =>
    by_cases ht : t = .anyRun
    · subst ht
      rw [accepts, anywhere_eq_true]
      constructor
      · rintro ⟨rest, hs, h⟩
        exact .run hs (ih.mp h)
      · intro h
        cases h with
        | run hs h => exact ⟨_, hs, ih.mpr h⟩
        | one hc => cases hc
    · cases cs with
      | nil =>
        rw [accepts]
        · constructor
          · exact Bool.noConfusion
          · intro h
            cases h
            exact absurd rfl ht
        · exact ht
      | cons c cs =>
        rw [accepts, Bool.and_eq_true, admits_eq_true, ih]
        · constructor
          · rintro ⟨hc, h⟩
            exact .one hc h
          · intro h
            cases h with
            | run => exact absurd rfl ht
            | one hc h => exact ⟨hc, h⟩
        · exact ht

end Glob
end ThemeBuilder
