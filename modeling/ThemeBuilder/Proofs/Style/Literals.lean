import Mathlib.Algebra.GroupWithZero.Nat
import Mathlib.Data.List.Chain
import Mathlib.Data.List.SplitLengths
import ThemeBuilder.Proofs.Style.Comments
import ThemeBuilder.Proofs.Style.Output
import ThemeBuilder.Proofs.Style.Tidying
import ThemeBuilder.Text.Utf8

/-! The lines of a listing as literals, one on each line and well delimited, whatever bytes the
sources hold. -/
namespace ThemeBuilder.Style
open Bytes

/-- A space stands before every line feed but one at the start. -/
def Spaced (bs : Bytes) : Prop := bs.IsChain fun a b => b = newline → a = space

namespace Spaced
variable {c : UInt8} {bs : Bytes}

theorem of_cons (h : Spaced (c :: bs)) : Spaced bs := List.IsChain.of_cons h

/-- A byte before a text that begins with no line feed. -/
theorem cons (h : Spaced bs) (hhead : bs.head? = some newline → c = space) : Spaced (c :: bs) := by
  refine List.isChain_cons.mpr ⟨?_, h⟩
  rintro b hb rfl
  exact hhead hb

private theorem head?_ne (h : Spaced (c :: bs)) (hc : c ≠ space) :
    bs.head? ≠ some newline := fun hb =>
  hc ((List.isChain_cons.mp h).1 newline hb rfl)

private theorem append_line {line rest : Bytes} (hline : newline ∉ line)
    (h : Spaced (newline :: rest))
    (c : UInt8) : Spaced (c :: (line ++ space :: newline :: rest)) := by
  induction line generalizing c with
  | nil => exact cons (cons h fun _ => rfl) fun h => absurd (Option.some.inj h) (by decide)
  | cons b line ih =>
    obtain ⟨hb, hline⟩ := not_or.mp (List.mem_cons.not.mp hline)
    exact cons (ih hline b) fun h => absurd (Option.some.inj h).symm hb

/-- What follows a comment does not begin with a line feed. -/
theorem withoutComments (h : Spaced (c :: bs)) : Spaced (c :: withoutComments bs) := by
  induction bs using comment_induction generalizing c with
  | last bs hnone => rwa [withoutComments_of_firstComment?_eq_none hnone]
  | next bs before after hfound ih =>
    obtain ⟨inner, rfl⟩ := eq_append_of_firstComment? hfound
    rw [withoutComments_of_firstComment? hfound]
    have hbehind : Spaced (slash :: after) := by
      refine h.suffix ?_
      exact ⟨c :: (before ++ slash :: star :: (inner ++ [star])), by simp⟩
    have hbefore : Spaced (c :: before) := h.prefix ⟨_, rfl⟩
    refine List.isChain_append.mpr ⟨hbefore, (ih hbehind).of_cons, ?_⟩
    rintro a - b hb rfl
    exact absurd hb ((ih hbehind).head?_ne (by decide))

theorem map {f : UInt8 → UInt8} (hspace : f space = space)
    (hnewline : ∀ b, f b = newline ↔ b = newline) (h : Spaced bs) : Spaced (bs.map f) := by
  refine List.isChain_map_of_isChain f (fun a b hab hb => ?_) h
  rw [hab ((hnewline b).mp hb), hspace]

theorem halveSpaces (h : Spaced bs) : Spaced (halveSpaces bs) := by
  fun_induction Style.halveSpaces bs with
  | case1 => exact h
  | case2 => exact h
  | case3 a b bs _ ih => exact cons (ih h.of_cons.of_cons) fun _ => rfl
  | case4 a b bs _ ih =>
    refine cons (ih h.of_cons) fun hb => ?_
    rw [head?_halveSpaces] at hb
    by_contra ha
    exact h.head?_ne ha hb

theorem tidied (h : Spaced bs) : Spaced (tidied bs) := by
  have hdetab : Spaced (detab bs) := map (by decide) (exchange_eq_iff (by decide) (by decide)) h
  exact map (by decide) (exchange_eq_iff (by decide) (by decide)) hdetab.halveSpaces

end Spaced

theorem mem_of_mem_trim {b : UInt8} {line : Bytes} (h : b ∈ trim line) : b ∈ line := by
  obtain ⟨lead, trail, heq, -⟩ := exists_eq_trim line
  rw [heq]
  exact List.mem_append_right _ (List.mem_append_left _ h)

private theorem mem_of_mem_rejoin {b : UInt8} (hspace : b ≠ space) (hnewline : b ≠ newline)
    {text : Bytes} (h : b ∈ rejoin text) : b ∈ text := by
  obtain ⟨line, hline, hb⟩ := List.mem_flatMap.mp h
  obtain hb | hb := List.mem_append.mp hb
  · exact mem_of_mem_lines hline (mem_of_mem_trim hb)
  · simp [hspace, hnewline] at hb

theorem spaced_rejoin (text : Bytes) : Spaced (newline :: rejoin text) := by
  induction text using lines_induction with
  | nil => exact List.isChain_singleton _
  | last line hne hline =>
    rw [rejoin, lines_of_not_mem hne hline, List.flatMap_singleton]
    exact Spaced.append_line (fun h => hline (mem_of_mem_trim h)) (List.isChain_singleton _) newline
  | cons line rest hline ih =>
    rw [rejoin, lines_append_newline hline, List.flatMap_cons, List.append_assoc]
    exact Spaced.append_line (fun h => hline (mem_of_mem_trim h)) ih newline

private theorem spaced_tidied (text : Bytes) : Spaced (tidied (withoutComments (rejoin text))) :=
  (spaced_rejoin text).withoutComments.of_cons.tidied

/-- A line that is kept is cut out between line ends and has more than blanks. -/
private theorem of_mem_nonblankLines {bs line : Bytes} (h : line ∈ nonblankLines bs) :
    (∀ b ∈ line, b ∈ bs ∧ b ≠ newline ∧ b ≠ carriageReturn) ∧ ∃ b ∈ line, isBlank b = false := by
  obtain ⟨hpiece, hinked⟩ := List.mem_filter.mp h
  constructor
  · intro b hb
    have : b ∈ (splitOn (fun b => b == newline || b == carriageReturn) bs).flatten :=
      List.mem_flatten_of_mem hpiece hb
    rw [flatten_splitOn] at this
    simpa using this
  · simpa using hinked

/-- Without carriage returns the line ends are the line feeds, with a space before each. -/
private theorem getLast?_of_mem_nonblankLines {bs : Bytes} (hwhole : WholeLines bs) (h : Spaced bs)
    (hreturn : carriageReturn ∉ bs) {line : Bytes} (hline : line ∈ nonblankLines bs) :
    line.getLast? = some space := by
  induction bs, hwhole using WholeLines.induction with
  | nil => cases hline
  | cons first rest hfirst _ ih =>
    rw [List.mem_append, List.mem_cons, not_or, not_or] at hreturn
    rw [nonblankLines_append_newline, List.mem_append] at hline
    obtain hline | hline := hline
    · have hpiece := (List.mem_filter.mp hline).1
      rw [splitOn_of_forall, List.mem_singleton] at hpiece
      · subst hpiece
        obtain ⟨b, hb, -⟩ := (of_mem_nonblankLines hline).2
        have hjoint := (List.isChain_append.mp h).2.2
        cases hlast : line.getLast? with
        | none =>
          rw [List.getLast?_eq_none_iff.mp hlast] at hb
          cases hb
        | some b => exact congrArg some (hjoint b hlast newline rfl rfl)
      · intro b hb
        simp only [Bool.or_eq_false_iff, beq_eq_false_iff_ne]
        exact ⟨fun h => hfirst (h ▸ hb), fun h => hreturn.1 (h ▸ hb)⟩
    · exact ih (h.suffix ⟨first ++ [newline], by simp⟩) hreturn.2.2 hline

/-- What can stand between the quotes of a listing line. -/
structure Enclosed (inside : Bytes) : Prop where
  doubleQuote : doubleQuote ∉ inside
  tab : tab ∉ inside
  newline : newline ∉ inside
  carriageReturn : carriageReturn ∉ inside
  inked : ∃ b ∈ inside, isBlank b = false

private theorem enclosed_of_mem_nonblankLines {text inside : Bytes}
    (h : inside ∈ nonblankLines (tidied text)) : Enclosed inside := by
  obtain ⟨hbytes, hinked⟩ := of_mem_nonblankLines h
  have htidied {b : UInt8} (hb : b ∈ inside) (hspace : b ≠ space) (hquote : b ≠ singleQuote) :=
    mem_of_mem_tidied hspace hquote (hbytes b hb).1
  exact {
    doubleQuote := fun hb => (htidied hb (by decide) (by decide)).2.2 rfl
    tab := fun hb => (htidied hb (by decide) (by decide)).2.1 rfl
    newline := fun hb => (hbytes _ hb).2.1 rfl
    carriageReturn := fun hb => (hbytes _ hb).2.2 rfl
    inked := hinked }

theorem exists_of_mem_listingLines {text line : Bytes} (h : line ∈ listingLines text) :
    ∃ inside, line = enquote inside ∧ Enclosed inside ∧
      (carriageReturn ∉ text → inside.getLast? = some space) := by
  rw [listingLines_eq_tidied] at h
  obtain ⟨inside, hinside, rfl⟩ := List.mem_map.mp h
  refine ⟨inside, rfl, enclosed_of_mem_nonblankLines hinside, fun hreturn => ?_⟩
  refine getLast?_of_mem_nonblankLines
    (wholeLines_tidied (wholeLines_withoutComments (wholeLines_rejoin text))) (spaced_tidied text)
    (fun hb => ?_) hinside
  have hkept := (mem_of_mem_tidied (by decide) (by decide) hb).1
  exact hreturn (mem_of_mem_rejoin (by decide) (by decide)
    ((withoutComments_sublist _).mem hkept))

theorem newline_not_mem_of_mem_listingLines {text line : Bytes} (h : line ∈ listingLines text) :
    newline ∉ line := by
  obtain ⟨inside, rfl, hinside, -⟩ := exists_of_mem_listingLines h
  rw [enquote, List.mem_cons, List.mem_append, List.mem_singleton]
  rintro (hb | hb | hb)
  · exact absurd hb (by decide)
  · exact hinside.newline hb
  · exact absurd hb (by decide)

/-- Listings one after the other are the lines of all of them. -/
theorem flatMap_listing (texts : List Bytes) : texts.flatMap listing =
    (texts.flatMap listingLines).flatMap fun line => line ++ [newline] := by
  rw [List.flatMap_assoc]
  rfl

theorem lines_flatMap_listing (texts : List Bytes) :
    lines (texts.flatMap listing) = texts.flatMap listingLines := by
  rw [flatMap_listing, lines_flatMap_newline]
  intro line hline
  obtain ⟨text, -, hline⟩ := List.mem_flatMap.mp hline
  exact newline_not_mem_of_mem_listingLines hline

private theorem splitLengths_flatMap (f : Bytes → List Bytes) (texts : List Bytes)
    (rest : List Bytes) :
    (texts.map fun text => (f text).length).splitLengths (texts.flatMap f ++ rest) =
      texts.map f := by
  induction texts with
  | nil => rfl
  | cons text texts ih =>
    rw [List.map_cons, List.splitLengths_cons, List.flatMap_cons, List.append_assoc, List.take_left,
      List.drop_left, ih, List.map_cons]

/-- Listings that are written one after the other are whole lines, each of them a literal of its
own, and the numbers of lines that were reported tell which of them belong to which text. -/
theorem writeListings_literals (texts : List Bytes) :
    WholeLines (writeListings none texts).written ∧
    (∀ line ∈ lines (writeListings none texts).written, ∃ inside, line = enquote inside ∧
      Enclosed inside ∧
      ((∀ text ∈ texts, carriageReturn ∉ text) → inside.getLast? = some space)) ∧
    ∃ counts : List Nat, (writeListings none texts).results = counts.map some ∧
      counts.sum = (lines (writeListings none texts).written).length ∧
      counts.splitLengths (splitOn (· == newline) (writeListings none texts).written) =
        texts.map listingLines := by
  have hwhole : WholeLines (texts.flatMap listing) := by
    rw [flatMap_listing]
    exact wholeLines_flatMap_newline _
  rw [writeListings_none]
  refine ⟨hwhole, ?_, texts.map fun text => (listingLines text).length, ?_, ?_, ?_⟩
  · intro line hline
    rw [lines_flatMap_listing] at hline
    obtain ⟨text, htext, hline⟩ := List.mem_flatMap.mp hline
    obtain ⟨inside, heq, hinside, hspace⟩ := exists_of_mem_listingLines hline
    exact ⟨inside, heq, hinside, fun hreturn => hspace (hreturn text htext)⟩
  · rw [List.map_map]
    rfl
  · rw [lines_flatMap_listing, List.length_flatMap]
  · dsimp only
    rw [splitOn_newline hwhole, lines_flatMap_listing]
    exact splitLengths_flatMap listingLines texts [[]]

/-- A source with quotes, a tab and a comment over two lines, one of blanks, and one that is no
text. -/
theorem writeListings_literals_quotes :
    let texts := [Utf8.encode "a\t\"b\" /*\n*/ c\nd", Utf8.encode "\n \n", [0xff]]
    (∀ text ∈ texts, carriageReturn ∉ text) ∧
      (writeListings none texts).results = [some 2, some 0, some 1] ∧
      ∀ line ∈ lines (writeListings none texts).written, ∃ inside, line = enquote inside ∧
        Enclosed inside ∧ inside.getLast? = some space := by
  intro texts
  have hreturn : ∀ text ∈ texts, carriageReturn ∉ text := by decide +kernel
  have hresults : (writeListings none texts).results = [some 2, some 0, some 1] := by decide +kernel
  refine ⟨hreturn, hresults, fun line hline => ?_⟩
  obtain ⟨inside, heq, hinside, hspace⟩ := (writeListings_literals texts).2.1 line hline
  exact ⟨inside, heq, hinside, hspace hreturn⟩

end ThemeBuilder.Style
