import ThemeBuilder.Proofs.Style.Dissection
import ThemeBuilder.Proofs.Style.Layout
import ThemeBuilder.Proofs.Style.Literals

/-! Sources that hold no comment. Joining their lines makes none, and then a line of the listing is
made from one line of the source, whatever stands in the others. -/
namespace ThemeBuilder.Style
open Bytes

theorem HoldsComment.mono {a b : Bytes} (h : HoldsComment a) (hab : a <:+: b) : HoldsComment b := by
  obtain ⟨before, inside, rfl, hclose⟩ := h
  obtain ⟨front, back, rfl⟩ := hab
  refine ⟨front ++ before, inside ++ back, ?_, hclose.trans (List.prefix_append _ _).isInfix⟩
  simp only [List.append_assoc, List.cons_append]

private theorem firstComment?_cons_blank_eq_none {c : UInt8} (hc : isBlank c = true) (bs : Bytes) :
    firstComment? (c :: bs) = none ↔ firstComment? bs = none := by
  rw [firstComment?_of_not_open, Option.map_eq_none_iff]
  rintro ⟨rfl, -⟩
  exact absurd hc (by decide)

/-- How blanks are laid out does not matter for whether there is a comment. -/
private theorem Respaced.firstComment?_eq_none {a b : Bytes} (h : Respaced a b)
    (ha : firstComment? a = none) : firstComment? b = none := by
  induction h with
  | nil => rfl
  | blank hc hd _ ih =>
    rw [firstComment?_cons_blank_eq_none hc] at ha
    exact (firstComment?_cons_blank_eq_none hd _).mpr (ih ha)
  | left hc _ _ ih => exact ih ((firstComment?_cons_blank_eq_none hc _).mp ha)
  | right hd _ _ ih => exact (firstComment?_cons_blank_eq_none hd _).mpr (ih ha)
  | @byte c a b h ih =>
    have hstar := h.head?_eq (c := star) (by decide)
    by_cases hopen : c = slash ∧ a.head? = some star
    · obtain ⟨rfl, hhead⟩ := hopen
      obtain ⟨a, rfl⟩ := List.head?_eq_some_iff.mp hhead
      obtain ⟨b, rfl⟩ := List.head?_eq_some_iff.mp (hstar.mp hhead)
      rw [firstComment?_of_open, Option.map_eq_none_iff] at ha ⊢
      exact (h.cons_cons_inv (by decide)).afterClose_eq_none ha
    · rw [firstComment?_of_not_open hopen, Option.map_eq_none_iff] at ha
      rw [firstComment?_of_not_open fun hb => hopen ⟨hb.1, hstar.mpr hb.2⟩, Option.map_eq_none_iff]
      exact ih ha

private theorem not_holdsComment_rejoin {text : Bytes} (h : ¬ HoldsComment text) :
    ¬ HoldsComment (rejoin text) := by
  rw [← firstComment?_eq_none_iff] at h ⊢
  have hblank : isBlank newline = true := by decide
  rw [← firstComment?_cons_blank_eq_none hblank] at h ⊢
  exact (respaced_rejoin text).firstComment?_eq_none h

private theorem nonblanks_eq_nil {bs : Bytes} : nonblanks bs = [] ↔ bs.all isBlank = true := by
  simp [nonblanks]

/-- Tidying leaves a line of blanks one, and makes none of another line. -/
private theorem all_isBlank_tidied (bs : Bytes) : (tidied bs).all isBlank = bs.all isBlank := by
  rw [Bool.eq_iff_iff, ← nonblanks_eq_nil, ← nonblanks_eq_nil, tidied, nonblanks_softenQuotes,
    nonblanks_halveSpaces, nonblanks_detab, softenQuotes, List.map_eq_nil_iff]

/-- A line as it is left when it is trimmed, with no line end inside. -/
structure Trimmed (line : Bytes) : Prop where
  newline : newline ∉ line
  carriageReturn : carriageReturn ∉ line
  inked : line.all isBlank = true → line = []

theorem trimmed_trim {text line : Bytes} (hline : line ∈ lines text)
    (hreturn : carriageReturn ∉ trim line) : Trimmed (trim line) where
  newline := fun h => newline_not_mem_of_mem_lines hline (mem_of_mem_trim h)
  carriageReturn := hreturn
  inked := by
    intro hblank
    cases htrim : trim line with
    | nil => rfl
    | cons b bs =>
      have hhead := List.head?_dropWhile_not isBlank (trimEnd line)
      rw [← trim, htrim] at hhead
      rw [htrim, List.all_cons, Bool.and_eq_true] at hblank
      exact absurd hblank.1 (by simpa using hhead)

namespace Trimmed
variable {line : Bytes}

/-- A trimmed line makes one line, or none if it is empty. -/
private theorem nonblankLines_tidied (h : Trimmed line) :
    nonblankLines (tidied (line ++ [space])) =
      ([line].filter (· ≠ [])).map fun m => tidied (m ++ [space]) := by
  have hpiece : splitOn (fun b => b == Bytes.newline || b == Bytes.carriageReturn)
      (tidied (line ++ [space])) = [tidied (line ++ [space])] := by
    apply splitOn_of_forall
    intro b hb
    rw [Bool.or_eq_false_iff, beq_eq_false_iff_ne, beq_eq_false_iff_ne]
    have hmem {c : UInt8} (hspace : c ≠ space) (hquote : c ≠ singleQuote) (hc : c = b) :
        c ∈ line := by
      have hkept := (mem_of_mem_tidied hspace hquote (hc ▸ hb)).1
      exact (List.mem_append.mp hkept).resolve_right (List.mem_singleton.not.mpr hspace)
    constructor
    · intro heq
      exact h.newline (hmem (by decide) (by decide) heq.symm)
    · intro heq
      exact h.carriageReturn (hmem (by decide) (by decide) heq.symm)
  rw [nonblankLines, hpiece]
  by_cases hline : line = []
  · subst hline
    decide
  · have hinked : (tidied (line ++ [space])).all isBlank = false := by
      rw [all_isBlank_tidied, List.all_append, Bool.and_eq_false_iff]
      exact .inl (Bool.eq_false_iff.mpr fun hblank => hline (h.inked hblank))
    rw [List.filter_cons_of_pos (by simp [hinked]), List.filter_cons_of_pos (by simpa using hline)]
    rfl

end Trimmed

private theorem nonblankLines_tidied_joined {ls : List Bytes} (h : ∀ line ∈ ls, Trimmed line) :
    nonblankLines (tidied (joined ls)) =
      (ls.filter (· ≠ [])).map fun m => tidied (m ++ [space]) := by
  induction ls with
  | nil => rfl
  | cons line ls ih =>
    rw [List.forall_mem_cons] at h
    have hsplit : joined (line :: ls) = (line ++ [space]) ++ newline :: joined ls := by
      simp [joined]
    rw [hsplit, tidied_append_newline, nonblankLines_append_newline, h.1.nonblankLines_tidied,
      ih h.2, ← List.map_append, ← List.filter_append, List.singleton_append]

private theorem listingLines_of_trimmed {text : Bytes} (hcomment : ¬ HoldsComment text)
    (hreturn : ∀ line ∈ lines text, carriageReturn ∉ trim line) :
    listingLines text = (inkedLines text).map fun m => enquote (tidied (m ++ [space])) := by
  have htrimmed : ∀ line ∈ (lines text).map trim, Trimmed line :=
    List.forall_mem_map.mpr fun line hline => trimmed_trim hline (hreturn line hline)
  rw [listingLines_eq_tidied,
    withoutComments_of_not_holdsComment (not_holdsComment_rejoin hcomment), rejoin_eq_joined,
    nonblankLines_tidied_joined htrimmed, List.map_map]
  rfl

/-- In a source without comments each line that is not empty when trimmed gives one line of the
listing, and no line matters to what another one gives. A lone `/*` or `*/` is as any other text. -/
theorem listingLines_linewise {text : Bytes} (hcomment : ¬ HoldsComment text)
    (hreturn : ∀ line ∈ lines text, carriageReturn ∉ trim line) :
    listingLines text = (inkedLines text).map (fun m =>
      enquote (softenQuotes (halveSpaces (detab (m ++ [space]))))) ∧
    listingLines text = (lines text).flatMap listingLines := by
  refine ⟨listingLines_of_trimmed hcomment hreturn, ?_⟩
  have hline : ∀ line ∈ lines text, listingLines line =
      ([trim line].filter (· ≠ [])).map fun m => enquote (tidied (m ++ [space])) := by
    intro line hmem
    have hnewline := newline_not_mem_of_mem_lines hmem
    rw [listingLines_of_trimmed fun h => hcomment (h.mono (isInfix_of_mem_lines hmem)),
      inkedLines_of_not_mem hnewline]
    intro other hother
    by_cases hempty : line = []
    · rw [hempty] at hother
      cases hother
    · rw [lines_of_not_mem hempty hnewline, List.mem_singleton] at hother
      exact hother ▸ hreturn line hmem
  rw [listingLines_of_trimmed hcomment hreturn, List.flatMap_congr hline, ← List.map_flatMap,
    ← List.filter_flatMap, ← List.map_eq_flatMap]
  rfl

/-- A lone closer before a lone opener, tabs and quotes, carriage returns at the ends of lines, and
a line of blanks of which not all are taken off as trailing ones. -/
theorem listingLines_linewise_lone :
    let text := Utf8.encode "  a */\t\t\"b\"\r\n\x0b\x0c \r\n/*/   c\x0b\nd"
    ¬ HoldsComment text ∧ (∀ line ∈ lines text, carriageReturn ∉ trim line) ∧
      listingLines text = [Utf8.encode "\"a */ 'b' \"", Utf8.encode "\"/*/  c\x0b \"",
        Utf8.encode "\"d \""] ∧
      (lines text).flatMap listingLines = listingLines text := by
  intro text
  have hcomment : ¬ HoldsComment text := by decide +kernel
  have hreturn : ∀ line ∈ lines text, carriageReturn ∉ trim line := by decide +kernel
  obtain ⟨hlines, hapart⟩ := listingLines_linewise hcomment hreturn
  refine ⟨hcomment, hreturn, ?_, hapart.symm⟩
  rw [hlines]
  decide +kernel

end ThemeBuilder.Style
