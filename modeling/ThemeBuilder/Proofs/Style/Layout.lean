import ThemeBuilder.Proofs.Style.Padding
import ThemeBuilder.Text.Utf8

/-! The listing of a source depends only on those of its trimmed lines that are not empty. -/
namespace ThemeBuilder.Style
open Bytes

/-- The trimmed lines of a text that are not empty. -/
def inkedLines (text : Bytes) : List Bytes := ((lines text).map trim).filter (· ≠ [])

/-- Lines put together as they are when a text is rejoined. -/
def joined (ls : List Bytes) : Bytes := ls.flatMap fun line => line ++ [space, newline]

theorem rejoin_eq_joined (text : Bytes) : rejoin text = joined ((lines text).map trim) := by
  rw [rejoin, joined, List.flatMap_map]

private theorem padded_joined (ls : List Bytes) :
    Padded true (joined ls) (joined (ls.filter (· ≠ []))) := by
  induction ls with
  | nil => exact .nil true
  | cons line ls ih =>
    by_cases hline : line = []
    · rw [hline, List.filter_cons_of_neg (by simp)]
      exact .line ih
    · have : Padded true _ _ := ih.append_newline (line ++ [space])
      rw [List.append_assoc, List.append_assoc] at this
      rw [List.filter_cons_of_pos (by simpa using hline), joined, List.flatMap_cons, joined,
        List.flatMap_cons, List.append_assoc, List.append_assoc]
      exact this

/-- A listing is made from the lines that are not empty when trimmed. -/
theorem listingLines_eq_joined (text : Bytes) : listingLines text =
    (nonblankLines (tidied (withoutComments (joined (inkedLines text))))).map enquote := by
  rw [listingLines_eq_tidied, rejoin_eq_joined]
  congr 1
  exact (padded_joined _).withoutComments.tidied.nonblankLines_eq [] fun _ => rfl

theorem inkedLines_of_not_mem {line : Bytes} (h : newline ∉ line) :
    inkedLines line = [trim line].filter (· ≠ []) := by
  by_cases hline : line = []
  · rw [hline]
    rfl
  · rw [inkedLines, lines_of_not_mem hline h, List.map_singleton]

theorem inkedLines_append_newline (text rest : Bytes) :
    inkedLines (text ++ newline :: rest) = inkedLines text ++ inkedLines rest := by
  have hcons (line rest : Bytes) (h : newline ∉ line) :
      inkedLines (line ++ newline :: rest) = inkedLines line ++ inkedLines rest := by
    rw [inkedLines_of_not_mem h, inkedLines, lines_append_newline h, List.map_cons,
      ← List.singleton_append, List.filter_append]
    rfl
  induction text using lines_induction with
  | nil => exact hcons [] rest List.not_mem_nil
  | last line _ hline => exact hcons line rest hline
  | cons line text hline ih =>
    rw [List.append_assoc, List.cons_append, hcons line _ hline, ih, hcons line text hline,
      List.append_assoc]

theorem inkedLines_append {front : Bytes} (h : WholeLines front) (rest : Bytes) :
    inkedLines (front ++ rest) = inkedLines front ++ inkedLines rest := by
  rw [inkedLines, lines_append h, List.map_append, List.filter_append]
  rfl

/-- What trimming takes off may as well be there. -/
theorem trim_padding {lead trail : Bytes} (hlead : ∀ b ∈ lead, isBlank b = true)
    (htrail : ∀ b ∈ trail, isTrailing b = true) (line : Bytes) :
    trim (lead ++ line ++ trail) = trim line := by
  have hend : trimEnd (lead ++ line ++ trail) = trimEnd (lead ++ line) := by
    rw [trimEnd, List.reverse_append, List.dropWhile_append_of_pos (by simpa using htrail), trimEnd]
  rw [trim, hend, trimEnd, List.reverse_append, List.dropWhile_append]
  split
  · -- nothing of the line is left, and then nothing of what leads
    rename_i hempty
    have hline : trim line = [] := by
      rw [trim, trimEnd, List.isEmpty_iff.mp hempty]
      rfl
    rw [hline, List.dropWhile_eq_nil_iff]
    intro b hb
    exact hlead b (List.mem_reverse.mp ((List.dropWhile_sublist _).mem (List.mem_reverse.mp hb)))
  · rw [List.reverse_append, List.reverse_reverse, List.dropWhile_append_of_pos hlead]
    rfl

private theorem inkedLines_padding {lead line trail : Bytes}
    (hline : newline ∉ lead ++ line ++ trail)
    (hlead : ∀ b ∈ lead, isBlank b = true) (htrail : ∀ b ∈ trail, isTrailing b = true) :
    inkedLines (lead ++ line ++ trail) = inkedLines line := by
  have : newline ∉ line := fun h =>
    hline (List.mem_append_left _ (List.mem_append_right _ h))
  rw [inkedLines_of_not_mem hline, inkedLines_of_not_mem this, trim_padding hlead htrail]

private theorem inkedLines_of_blank {blank : Bytes} (h : ∀ b ∈ blank, isBlank b = true) :
    inkedLines blank = [] := by
  have hline (line : Bytes) (hn : newline ∉ line) (h : ∀ b ∈ line, isBlank b = true) :
      inkedLines line = [] := by
    rw [inkedLines_of_not_mem hn]
    have hnone : ∀ b ∈ ([] : Bytes), isTrailing b = true := by simp
    have := trim_padding h hnone []
    rw [List.append_nil, List.append_nil] at this
    rw [this]
    rfl
  induction blank using lines_induction with
  | nil => rfl
  | last line _ hn => exact hline line hn h
  | cons line rest hn ih =>
    rw [List.forall_mem_append, List.forall_mem_cons] at h
    rw [inkedLines_append_newline, hline line hn h.1, ih h.2.2]
    rfl

/-- A text with a carriage return before each line feed. -/
def returned (text : Bytes) : Bytes :=
  text.flatMap fun b => if b = newline then [carriageReturn, newline] else [b]

private theorem returned_of_not_mem {line : Bytes} (h : newline ∉ line) : returned line = line := by
  induction line with
  | nil => rfl
  | cons b line ih =>
    obtain ⟨hb, hline⟩ := not_or.mp (List.mem_cons.not.mp h)
    rw [returned, List.flatMap_cons, if_neg (Ne.symm hb)]
    exact congrArg (b :: ·) (ih hline)

theorem inkedLines_returned (text : Bytes) : inkedLines (returned text) = inkedLines text := by
  induction text using lines_induction with
  | nil => rfl
  | last line _ hline => rw [returned_of_not_mem hline]
  | cons line rest hline ih =>
    have hsplit : returned (line ++ newline :: rest) =
        ([] ++ line ++ [carriageReturn]) ++ newline :: returned rest := by
      rw [returned, List.flatMap_append, List.flatMap_cons, if_pos rfl, ← returned,
        returned_of_not_mem hline]
      simp [returned]
    have hlast : newline ∉ [] ++ line ++ [carriageReturn] := by
      simpa [show newline ≠ carriageReturn by decide] using hline
    have htrail : ∀ b ∈ [carriageReturn], isTrailing b = true := by simp [isTrailing]
    rw [hsplit, inkedLines_append_newline, inkedLines_append_newline, ih,
      inkedLines_padding hlast (by simp) htrail]

/-- Sources with the same trimmed lines, empty ones apart, have the same listing. So it does not
matter how a line is indented and what blanks end it, whether carriage returns stand before the
line feeds, whether the last line has a line feed, and where lines of blanks are. -/
theorem listingLines_layout :
    (∀ a b, inkedLines a = inkedLines b → listingLines a = listingLines b) ∧
    (∀ front lead line trail rest, WholeLines front → newline ∉ lead ++ line ++ trail →
      (∀ b ∈ lead, isBlank b = true) → (∀ b ∈ trail, isTrailing b = true) →
      listingLines (front ++ (lead ++ line ++ trail ++ newline :: rest)) =
        listingLines (front ++ (line ++ newline :: rest))) ∧
    (∀ text, listingLines (returned text) = listingLines text) ∧
    (∀ text, listingLines (text ++ [newline]) = listingLines text) ∧
    (∀ front blank rest, WholeLines front → (∀ b ∈ blank, isBlank b = true) →
      listingLines (front ++ (blank ++ newline :: rest)) = listingLines (front ++ rest)) := by
  have hmain (a b : Bytes) (h : inkedLines a = inkedLines b) : listingLines a = listingLines b := by
    rw [listingLines_eq_joined, h, listingLines_eq_joined]
  refine ⟨hmain, ?_, ?_, ?_, ?_⟩
  · intro front lead line trail rest hfront hline hlead htrail
    apply hmain
    rw [inkedLines_append hfront, inkedLines_append hfront, inkedLines_append_newline,
      inkedLines_append_newline, inkedLines_padding hline hlead htrail]
  · intro text
    exact hmain _ _ (inkedLines_returned text)
  · intro text
    apply hmain
    rw [inkedLines_append_newline]
    exact List.append_nil _
  · intro front blank rest hfront hblank
    apply hmain
    rw [inkedLines_append hfront, inkedLines_append hfront, inkedLines_append_newline,
      inkedLines_of_blank hblank, List.nil_append]

/-- A source with a comment over several lines, indented and with a line of blanks in the comment,
beside the plain one. -/
theorem listingLines_layout_comment :
    let plain := Utf8.encode "a /* b\nc */ d\n/*"
    let laid := Utf8.encode "\t a /* b \r\n \r\n\t\r\nc */ d\r\n\r\n/*\r\n"
    inkedLines plain = inkedLines laid ∧ listingLines plain = listingLines laid := by
  intro plain laid
  have h : inkedLines plain = inkedLines laid := by decide +kernel
  exact ⟨h, listingLines_layout.1 plain laid h⟩

end ThemeBuilder.Style
