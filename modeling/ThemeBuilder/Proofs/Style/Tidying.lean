import ThemeBuilder.Proofs.Text.Lines
import ThemeBuilder.Style.Source

/-! Joining and tidying go on line by line: nothing that is done to a text apart from the removal of
its comments reaches over a line feed. -/
namespace ThemeBuilder.Style
open Bytes

/-- A text with its tabs, runs of spaces and double quotes replaced, ready to be cut into lines. -/
def tidied (text : Bytes) : Bytes := softenQuotes (halveSpaces (detab text))

/-- Where one byte takes the place of another, a third one stays where it is. -/
theorem exchange_eq_iff {old new c : UInt8} (hold : old ≠ c) (hnew : new ≠ c) (b : UInt8) :
    (if b = old then new else b) = c ↔ b = c := by
  by_cases hb : b = old
  · rw [if_pos hb, hb]
    exact iff_of_false hnew hold
  · rw [if_neg hb]

theorem listingLines_eq_tidied (text : Bytes) : listingLines text =
    (nonblankLines (tidied (withoutComments (rejoin text)))).map enquote := rfl

theorem rejoin_append {a : Bytes} (ha : WholeLines a) (b : Bytes) :
    rejoin (a ++ b) = rejoin a ++ rejoin b := by
  rw [rejoin, lines_append ha, List.flatMap_append]
  rfl

theorem wholeLines_rejoin (text : Bytes) : WholeLines (rejoin text) := by
  rw [rejoin]
  induction lines text with
  | nil => exact .inl rfl
  | cons line rest ih =>
    have := wholeLines_append_newline (trim line ++ [space]) ih
    rw [List.append_assoc] at this
    rwa [List.flatMap_cons, List.append_assoc]

theorem halveSpaces_cons {b : UInt8} {bs : Bytes} (h : b = space → bs.head? ≠ some space) :
    halveSpaces (b :: bs) = b :: halveSpaces bs := by
  cases bs with
  | nil => rfl
  | cons c bs =>
    rw [halveSpaces, if_neg]
    rintro ⟨hb, rfl⟩
    exact h hb rfl

theorem halveSpaces_append_cons {c : UInt8} (hc : c ≠ space) (xs ys : Bytes) :
    halveSpaces (xs ++ c :: ys) = halveSpaces xs ++ c :: halveSpaces ys := by
  fun_induction halveSpaces xs with
  | case1 => exact halveSpaces_cons fun h => absurd h hc
  | case2 b =>
    rw [List.cons_append, List.nil_append, halveSpaces_cons (b := b) (by simpa using fun _ => hc),
      halveSpaces_cons fun h => absurd h hc]
    rfl
  | case3 a b xs h ih =>
    rw [List.cons_append, List.cons_append, halveSpaces, if_pos h, ih]
    rfl
  | case4 a b xs h ih =>
    rw [List.cons_append, List.cons_append, halveSpaces, if_neg h, ← List.cons_append, ih]
    rfl

theorem halveSpaces_sublist (bs : Bytes) : (halveSpaces bs).Sublist bs := by
  fun_induction halveSpaces bs with
  | case1 => exact .slnil
  | case2 b => exact .refl [b]
  | case3 a b bs h ih =>
    obtain ⟨rfl, rfl⟩ := h
    exact (ih.cons _).cons_cons _
  | case4 a b bs _ ih => exact ih.cons_cons a

theorem head?_halveSpaces (bs : Bytes) : (halveSpaces bs).head? = bs.head? := by
  fun_cases halveSpaces bs with
  | case1 => rfl
  | case2 => rfl
  | case3 a b bs h => rw [List.head?_cons, List.head?_cons, h.1]
  | case4 => rfl

@[simp]
theorem nonblankLines_append_newline (xs ys : Bytes) :
    nonblankLines (xs ++ newline :: ys) = nonblankLines xs ++ nonblankLines ys := by
  rw [nonblankLines, splitOn_append_cons (by decide), List.filter_append]
  rfl

@[simp]
theorem tidied_append_newline (xs ys : Bytes) :
    tidied (xs ++ newline :: ys) = tidied xs ++ newline :: tidied ys := by
  have hdetab : detab (xs ++ newline :: ys) = detab xs ++ newline :: detab ys := List.map_append
  rw [tidied, hdetab, halveSpaces_append_cons (by decide)]
  exact List.map_append

/-- A byte that has not been put there by tidying was there before. -/
theorem mem_of_mem_tidied {b : UInt8} (hspace : b ≠ space) (hquote : b ≠ singleQuote) {bs : Bytes}
    (h : b ∈ tidied bs) : b ∈ bs ∧ b ≠ tab ∧ b ≠ doubleQuote := by
  obtain ⟨c, hc, rfl⟩ := List.mem_map.mp h
  by_cases hdouble : c = doubleQuote
  · rw [if_pos hdouble] at hquote
    exact absurd rfl hquote
  · rw [if_neg hdouble] at hspace ⊢
    obtain ⟨d, hd, rfl⟩ := List.mem_map.mp ((halveSpaces_sublist _).mem hc)
    by_cases htab : d = tab
    · rw [if_pos htab] at hspace
      exact absurd rfl hspace
    · rw [if_neg htab] at hdouble ⊢
      exact ⟨hd, htab, hdouble⟩

theorem wholeLines_tidied {a : Bytes} (h : WholeLines a) : WholeLines (tidied a) := by
  induction a, h using WholeLines.induction with
  | nil => exact .inl rfl
  | cons line rest _ _ ih =>
    rw [tidied_append_newline]
    exact wholeLines_append_newline _ ih

/-- Whole lines are tidied and cut on their own, whatever follows them. -/
theorem nonblankLines_tidied_append {a : Bytes} (h : WholeLines a) (b : Bytes) :
    nonblankLines (tidied (a ++ b)) = nonblankLines (tidied a) ++ nonblankLines (tidied b) := by
  induction a, h using WholeLines.induction with
  | nil => rfl
  | cons line rest _ _ ih =>
    rw [List.append_assoc, List.cons_append, tidied_append_newline, nonblankLines_append_newline,
      ih, tidied_append_newline, nonblankLines_append_newline, List.append_assoc]

end ThemeBuilder.Style
