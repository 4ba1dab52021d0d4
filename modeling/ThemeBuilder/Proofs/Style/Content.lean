import ThemeBuilder.Proofs.Style.Spacing

/-! What a listing keeps of its source: all that is not blank and in no comment, in order. Trimming
and joining the lines first makes no comment and breaks none. -/
namespace ThemeBuilder.Style
open Bytes

theorem withoutComments_cons {b : UInt8} {bs : Bytes} (h : ¬ (b = slash ∧ bs.head? = some star)) :
    withoutComments (b :: bs) = b :: withoutComments bs := by
  rw [withoutComments, if_neg h]

theorem withoutComments_cons_blank {c : UInt8} (hc : isBlank c = true) (bs : Bytes) :
    withoutComments (c :: bs) = c :: withoutComments bs := by
  refine withoutComments_cons ?_
  rintro ⟨rfl, -⟩
  exact absurd hc (by decide)

theorem withoutComments_closed {bs rest : Bytes} (h : afterClose bs = some rest) :
    withoutComments (slash :: star :: bs) = withoutComments rest := by
  rw [withoutComments, if_pos ⟨rfl, rfl⟩]
  split
  · rename_i h'
    rw [List.tail_cons, h] at h'
    cases h'
    rfl
  · rename_i h'
    rw [List.tail_cons, h] at h'
    cases h'

theorem withoutComments_open {bs : Bytes} (h : afterClose bs = none) :
    withoutComments (slash :: star :: bs) = slash :: star :: bs := by
  rw [withoutComments, if_pos ⟨rfl, rfl⟩]
  split
  · rename_i h'
    rw [List.tail_cons, h] at h'
    cases h'
  · rfl

private theorem nonblanks_withoutComments_blank {c : UInt8} (hc : isBlank c = true) (bs : Bytes) :
    nonblanks (withoutComments (c :: bs)) = nonblanks (withoutComments bs) := by
  rw [withoutComments_cons_blank hc, nonblanks_cons_blank hc]

/-- How blanks are laid out does not matter for what stands outside of comments. -/
theorem Respaced.nonblanks_withoutComments {a b : Bytes} (h : Respaced a b) :
    nonblanks (withoutComments a) = nonblanks (withoutComments b) := by
  -- on both lengths together, as a comment is passed over in one step
  induction hn : a.length + b.length using Nat.strongRecOn generalizing a b with
  | ind n ih =>
    have later {x y : Bytes} (hlt : x.length + y.length < n) (h : Respaced x y) :
        nonblanks (withoutComments x) = nonblanks (withoutComments y) := ih _ hlt h rfl
    cases h with
    | nil => rfl
    | blank hc hd h =>
      rw [nonblanks_withoutComments_blank hc, nonblanks_withoutComments_blank hd]
      exact later (by simp only [List.length_cons] at hn; omega) h
    | left hc _ h =>
      rw [nonblanks_withoutComments_blank hc]
      exact later (by simp only [List.length_cons] at hn; omega) h
    | right hd _ h =>
      rw [nonblanks_withoutComments_blank hd]
      exact later (by simp only [List.length_cons] at hn; omega) h
    | @byte c a b h =>
      simp only [List.length_cons] at hn
      have hstar := h.head?_eq (c := star) (by decide)
      by_cases hopen : c = slash ∧ a.head? = some star
      · obtain ⟨rfl, ha⟩ := hopen
        obtain ⟨a, rfl⟩ := List.head?_eq_some_iff.mp ha
        obtain ⟨b, rfl⟩ := List.head?_eq_some_iff.mp (hstar.mp ha)
        have hab := h.cons_cons_inv (by decide)
        cases hca : afterClose a with
        | none =>
          rw [withoutComments_open hca, withoutComments_open (hab.afterClose_eq_none hca)]
          exact (h.byte slash).nonblanks_eq
        | some resta =>
          obtain ⟨restb, hcb, hrest⟩ := hab.afterClose_eq_some hca
          rw [withoutComments_closed hca, withoutComments_closed hcb]
          have := length_lt_of_afterClose hca
          have := length_lt_of_afterClose hcb
          exact later (by simp only [List.length_cons] at hn; omega) hrest
      · rw [withoutComments_cons hopen, withoutComments_cons fun hb => hopen ⟨hb.1, hstar.mpr hb.2⟩]
        exact nonblanks_cons_congr c (later (by omega) h)

private theorem isBlank_of_isTrailing {b : UInt8} (h : isTrailing b = true) : isBlank b = true := by
  simp only [isTrailing, isBlank, Bool.or_eq_true] at h ⊢
  tauto

/-- Trimming takes blanks off both ends. -/
theorem exists_eq_trim (line : Bytes) : ∃ lead trail, line = lead ++ (trim line ++ trail) ∧
    (∀ b ∈ lead, isBlank b = true) ∧ ∀ b ∈ trail, isBlank b = true := by
  refine ⟨(trimEnd line).takeWhile isBlank, line.rtakeWhile isTrailing, ?_, ?_, ?_⟩
  · rw [← List.append_assoc, trim, List.takeWhile_append_dropWhile]
    exact List.rdropWhile_append_rtakeWhile.symm
  · exact fun b hb => List.mem_takeWhile_imp hb
  · exact fun b hb => isBlank_of_isTrailing (List.mem_rtakeWhile_imp hb)

/-- Behind a line feed, a text and its lines put together again differ in blanks only. -/
theorem respaced_rejoin (text : Bytes) : Respaced (newline :: text) (newline :: rejoin text) := by
  induction text using lines_induction with
  | nil => exact .byte newline .nil
  | last line hne hline =>
    obtain ⟨lead, trail, he, hlead, htrail⟩ := exists_eq_trim line
    have hend : Respaced trail [space, newline] := by
      have := Respaced.pad htrail (a := []) (by simp [AtBlank])
        (.right (d := space) (by decide) (by simp [AtBlank]; decide)
          (.right (d := newline) (by decide) (by simp [AtBlank]) .nil))
      rwa [List.append_nil] at this
    rw [rejoin, lines_of_not_mem hne hline, List.flatMap_singleton]
    nth_rewrite 1 [he]
    exact .gap hlead (by decide) (by decide) (hend.append_left _)
  | cons line rest hline ih =>
    obtain ⟨lead, trail, he, hlead, htrail⟩ := exists_eq_trim line
    have hend : Respaced (trail ++ newline :: rest) (space :: newline :: rejoin rest) :=
      .pad htrail (atBlank_cons.mpr (by decide)) (.right (by decide) (atBlank_cons.mpr (by decide)) ih)
    rw [rejoin, lines_append_newline hline, List.flatMap_cons]
    nth_rewrite 1 [he]
    simp only [List.append_assoc]
    exact .gap hlead (by decide) (by decide) (hend.append_left _)

private theorem nonblanks_withoutComments_rejoin (text : Bytes) :
    nonblanks (withoutComments (rejoin text)) = nonblanks (withoutComments text) := by
  have := (respaced_rejoin text).nonblanks_withoutComments
  rw [nonblanks_withoutComments_blank (by decide),
    nonblanks_withoutComments_blank (by decide)] at this
  exact this.symm

@[simp]
theorem nonblanks_detab (bs : Bytes) : nonblanks (detab bs) = nonblanks bs := by
  induction bs with
  | nil => rfl
  | cons b bs ih =>
    rw [detab, List.map_cons]
    by_cases hb : b = tab
    · subst hb
      rw [if_pos rfl, nonblanks_cons_blank (by decide), nonblanks_cons_blank (by decide)]
      exact ih
    · rw [if_neg hb]
      exact nonblanks_cons_congr b ih

theorem nonblanks_halveSpaces (bs : Bytes) : nonblanks (halveSpaces bs) = nonblanks bs := by
  fun_induction halveSpaces bs with
  | case1 => rfl
  | case2 => rfl
  | case3 a b bs h ih =>
    obtain ⟨rfl, rfl⟩ := h
    rw [nonblanks_cons_blank (by decide), nonblanks_cons_blank (by decide),
      nonblanks_cons_blank (by decide), ih]
  | case4 a b bs _ ih => exact nonblanks_cons_congr a ih

@[simp]
theorem nonblanks_softenQuotes (bs : Bytes) :
    nonblanks (softenQuotes bs) = softenQuotes (nonblanks bs) := by
  rw [nonblanks, softenQuotes, List.filter_map]
  congr 1
  apply List.filter_congr
  intro b _
  by_cases hb : b = doubleQuote
  · subst hb
    decide
  · simp [hb]

/-- The line ends and the lines of blanks that are dropped hold blanks only. -/
@[simp]
theorem nonblanks_flatten_nonblankLines (bs : Bytes) :
    nonblanks (nonblankLines bs).flatten = nonblanks bs := by
  have hpieces (pieces : List Bytes) :
      nonblanks (pieces.filter fun line => !line.all isBlank).flatten =
        nonblanks pieces.flatten := by
    induction pieces with
    | nil => rfl
    | cons line pieces ih =>
      rw [List.filter_cons, List.flatten_cons, nonblanks_append]
      split
      · rw [List.flatten_cons, nonblanks_append, ih]
      · rename_i h
        have hline : nonblanks line = [] := by
          simpa [nonblanks] using h
        rw [ih, hline, List.nil_append]
  rw [nonblankLines, hpieces, flatten_splitOn, nonblanks, List.filter_filter]
  apply List.filter_congr
  intro b _
  by_cases hb : isBlank b = true
  · simp [hb]
  · have : ¬ (b = newline ∨ b = carriageReturn) := by
      rintro (rfl | rfl) <;> exact hb (by decide)
    simp_all

/-- A quoted line without its quotes. -/
def unquote (line : Bytes) : Bytes := line.tail.dropLast

@[simp]
theorem unquote_enquote (line : Bytes) : unquote (enquote line) = line := by
  simp [unquote, enquote]

/-- The lines of a listing, their quotes taken off, hold the bytes that stand outside of the
comments of the source as it was given, blanks apart. -/
theorem nonblanks_listingLines (text : Bytes) :
    (∀ line ∈ listingLines text, enquote (unquote line) = line) ∧
    nonblanks ((listingLines text).flatMap unquote) =
      softenQuotes (nonblanks (withoutComments text)) := by
  have hlines (kept : List Bytes) : (kept.map enquote).flatMap unquote = kept.flatten := by
    simp only [List.flatMap_map, unquote_enquote, List.flatMap_id']
  constructor
  · intro line hline
    obtain ⟨kept, -, rfl⟩ := List.mem_map.mp hline
    rw [unquote_enquote]
  · rw [listingLines, hlines, nonblanks_flatten_nonblankLines, nonblanks_softenQuotes,
      nonblanks_halveSpaces, nonblanks_detab, nonblanks_withoutComments_rejoin]

end ThemeBuilder.Style
