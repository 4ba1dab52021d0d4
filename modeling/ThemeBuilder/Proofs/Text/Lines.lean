import Mathlib.Data.List.DropRight
import ThemeBuilder.Text.Bytes

/-! The lines of a text and the pieces between separators, one at a time, and the bytes that
neither loses. -/
namespace ThemeBuilder.Bytes

theorem lines_append_newline {line : Bytes} (h : newline ∉ line) (rest : Bytes) :
    lines (line ++ newline :: rest) = line :: lines rest := by
  induction line with
  | nil => simp [lines]
  | cons b line ih =>
    obtain ⟨hb, hline⟩ := not_or.mp (List.mem_cons.not.mp h)
    rw [List.cons_append, lines, if_neg (Ne.symm hb), ih hline]

theorem lines_of_not_mem {line : Bytes} (hne : line ≠ []) (h : newline ∉ line) :
    lines line = [line] := by
  induction line with
  | nil => exact absurd rfl hne
  | cons b line ih =>
    obtain ⟨hb, hline⟩ := not_or.mp (List.mem_cons.not.mp h)
    rw [lines, if_neg (Ne.symm hb)]
    cases line with
    | nil => rfl
    | cons c line => rw [ih (List.cons_ne_nil _ _) hline]

/-- A text is empty, a line without a line feed, or a line before the rest of the text. -/
theorem lines_induction {P : Bytes → Prop} (nil : P [])
    (last : ∀ line, line ≠ [] → newline ∉ line → P line)
    (cons : ∀ line rest, newline ∉ line → P rest → P (line ++ newline :: rest)) (text : Bytes) :
    P text := by
  induction hn : text.length using Nat.strongRecOn generalizing text with
  | ind n ih =>
    by_cases h : newline ∈ text
    · obtain ⟨line, rest, rfl, hline⟩ := List.eq_append_cons_of_mem h
      refine cons line rest hline (ih rest.length ?_ rest rfl)
      rw [← hn, List.length_append, List.length_cons]
      omega
    · by_cases hne : text = []
      · rw [hne]
        exact nil
      · exact last text hne h

theorem isInfix_of_mem_lines {text line : Bytes} (h : line ∈ lines text) : line <:+: text := by
  induction text using lines_induction with
  | nil => cases h
  | last text hne htext =>
    rw [lines_of_not_mem hne htext, List.mem_singleton] at h
    exact h ▸ List.infix_rfl
  | cons first rest hfirst ih =>
    rw [lines_append_newline hfirst, List.mem_cons] at h
    rcases h with rfl | h
    · exact (List.prefix_append _ _).isInfix
    · exact (ih h).trans ((List.suffix_cons newline rest).trans (List.suffix_append first _)).isInfix

theorem mem_of_mem_lines {text line : Bytes} (h : line ∈ lines text) {b : UInt8} (hb : b ∈ line) :
    b ∈ text :=
  (isInfix_of_mem_lines h).subset hb

theorem newline_not_mem_of_mem_lines {text line : Bytes} (h : line ∈ lines text) :
    newline ∉ line := by
  induction text using lines_induction with
  | nil => cases h
  | last text hne htext =>
    rw [lines_of_not_mem hne htext, List.mem_singleton] at h
    exact h ▸ htext
  | cons first rest hfirst ih =>
    rw [lines_append_newline hfirst, List.mem_cons] at h
    rcases h with rfl | h
    · exact hfirst
    · exact ih h

/-- A text of whole lines: it is empty or ends in a line feed. -/
def WholeLines (text : Bytes) : Prop := text = [] ∨ text.getLast? = some newline

theorem wholeLines_append_newline (line : Bytes) {rest : Bytes} (h : WholeLines rest) :
    WholeLines (line ++ newline :: rest) := by
  right
  obtain rfl | h := h
  · exact List.getLast?_concat
  · rw [List.getLast?_append, List.getLast?_cons, h]
    rfl

theorem WholeLines.of_append {a b : Bytes} (h : WholeLines (a ++ b)) : WholeLines b := by
  obtain h | h := h
  · exact .inl (List.append_eq_nil_iff.mp h).2
  · cases hb : b.getLast? with
    | none => exact .inl (List.getLast?_eq_none_iff.mp hb)
    | some c =>
      rw [List.getLast?_append, hb, Option.some_or] at h
      cases h
      exact .inr hb

theorem WholeLines.of_cons {b : UInt8} {bs : Bytes} (h : WholeLines (b :: bs)) : WholeLines bs :=
  .of_append (a := [b]) h

/-- A line is not at its end behind another byte than a line feed. -/
theorem WholeLines.getLast?_of_cons {b : UInt8} {bs : Bytes} (h : WholeLines (b :: bs))
    (hb : b ≠ newline) : bs.getLast? = some newline := by
  obtain rfl | hbs := h.of_cons
  · obtain h | h := h
    · cases h
    · cases h
      exact absurd rfl hb
  · exact hbs

/-- What follows whole lines is next to none of their bytes but the last line feed. -/
theorem WholeLines.head?_append {b : UInt8} {bs : Bytes} (h : WholeLines (b :: bs))
    (hb : b ≠ newline) (rest : Bytes) : (bs ++ rest).head? = bs.head? := by
  cases bs with
  | nil => cases h.getLast?_of_cons hb
  | cons c bs => rfl

/-- A text of whole lines is empty or a line before whole lines. -/
theorem WholeLines.induction {P : (text : Bytes) → WholeLines text → Prop} (nil : P [] (.inl rfl))
    (cons : ∀ line rest (_ : newline ∉ line) (h : WholeLines rest), P rest h →
      P (line ++ newline :: rest) (wholeLines_append_newline line h))
    (text : Bytes) (h : WholeLines text) : P text h := by
  induction text using lines_induction with
  | nil => exact nil
  | last line hne hline =>
    obtain h | h := h
    · exact absurd h hne
    · exact absurd (List.mem_of_getLast? h) hline
  | cons line rest hline ih =>
    have hrest : WholeLines rest := h.of_append.of_cons
    exact cons line rest hline hrest (ih hrest)

theorem lines_append {a : Bytes} (h : WholeLines a) (b : Bytes) :
    lines (a ++ b) = lines a ++ lines b := by
  induction a, h using WholeLines.induction with
  | nil => rfl
  | cons line rest hline _ ih =>
    rw [List.append_assoc, List.cons_append, lines_append_newline hline, ih,
      lines_append_newline hline, List.cons_append]

theorem length_lines_of_wholeLines {text : Bytes} (h : WholeLines text) :
    (lines text).length = text.count newline := by
  induction text, h using WholeLines.induction with
  | nil => rfl
  | cons line rest hline _ ih =>
    rw [lines_append_newline hline, List.length_cons, ih, List.count_append, List.count_cons_self,
      List.count_eq_zero_of_not_mem hline, Nat.zero_add]

/-- A last line without a line feed is one line more than there are line feeds. -/
theorem length_lines_of_not_wholeLines {text : Bytes} (h : ¬ WholeLines text) :
    (lines text).length = text.count newline + 1 := by
  induction text using lines_induction with
  | nil => exact absurd (.inl rfl) h
  | last line hne hline =>
    rw [lines_of_not_mem hne hline, List.count_eq_zero_of_not_mem hline]
    rfl
  | cons line rest hline ih =>
    rw [lines_append_newline hline, List.length_cons,
      ih fun hrest => h (wholeLines_append_newline line hrest), List.count_append,
      List.count_cons_self, List.count_eq_zero_of_not_mem hline, Nat.zero_add]

/-- Lines that are written out, each with a line feed behind it, are read back. -/
theorem lines_flatMap_newline {ls : List Bytes} (h : ∀ line ∈ ls, newline ∉ line) :
    lines (ls.flatMap fun line => line ++ [newline]) = ls := by
  induction ls with
  | nil => rfl
  | cons line ls ih =>
    rw [List.forall_mem_cons] at h
    rw [List.flatMap_cons, List.append_assoc, List.singleton_append, lines_append_newline h.1,
      ih h.2]

theorem wholeLines_flatMap_newline (ls : List Bytes) :
    WholeLines (ls.flatMap fun line => line ++ [newline]) := by
  induction ls with
  | nil => exact .inl rfl
  | cons line ls ih =>
    rw [List.flatMap_cons, List.append_assoc]
    exact wholeLines_append_newline line ih

theorem splitOn_ne_nil (sep : UInt8 → Bool) (bs : Bytes) : splitOn sep bs ≠ [] := by
  cases bs with
  | nil => exact List.cons_ne_nil _ _
  | cons b bs =>
    rw [splitOn]
    split
    · exact List.cons_ne_nil _ _
    · split <;> exact List.cons_ne_nil _ _

theorem splitOn_append_cons {sep : UInt8 → Bool} {b : UInt8} (h : sep b = true) (xs ys : Bytes) :
    splitOn sep (xs ++ b :: ys) = splitOn sep xs ++ splitOn sep ys := by
  induction xs with
  | nil =>
    rw [List.nil_append, splitOn.eq_def sep (b :: ys)]
    dsimp only
    rw [if_pos h]
    rfl
  | cons x xs ih =>
    rw [List.cons_append, splitOn, splitOn, ih]
    split
    · rfl
    · cases hp : splitOn sep xs with
      | nil => exact absurd hp (splitOn_ne_nil sep xs)
      | cons piece pieces => rfl

theorem splitOn_of_forall {sep : UInt8 → Bool} {xs : Bytes} (h : ∀ b ∈ xs, sep b = false) :
    splitOn sep xs = [xs] := by
  induction xs with
  | nil => rfl
  | cons x xs ih =>
    rw [List.forall_mem_cons] at h
    rw [splitOn, if_neg (by simp [h.1]), ih h.2]

theorem splitOn_of_not_mem {b : UInt8} {xs : Bytes} (h : b ∉ xs) : splitOn (· == b) xs = [xs] :=
  splitOn_of_forall fun _ hx => beq_false_of_ne fun heq => h (heq ▸ hx)

/-- Between the line feeds of whole lines are the lines, and nothing is behind the last one. -/
theorem splitOn_newline {text : Bytes} (h : WholeLines text) :
    splitOn (· == newline) text = lines text ++ [[]] := by
  induction text, h using WholeLines.induction with
  | nil => rfl
  | cons line rest hline _ ih =>
    rw [splitOn_append_cons (by simp), splitOn_of_not_mem hline, ih, lines_append_newline hline]
    rfl

/-- Nothing but the separators is lost between the pieces. -/
@[simp]
theorem flatten_splitOn (sep : UInt8 → Bool) (bs : Bytes) :
    (splitOn sep bs).flatten = bs.filter (!sep ·) := by
  induction bs with
  | nil => rfl
  | cons b bs ih =>
    rw [splitOn]
    split
    · simp_all
    · split
      · rename_i h
        exact absurd h (splitOn_ne_nil sep bs)
      · simp_all

end ThemeBuilder.Bytes
