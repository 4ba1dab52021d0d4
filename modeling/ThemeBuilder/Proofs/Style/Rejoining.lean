import ThemeBuilder.Proofs.Style.Layout
import ThemeBuilder.Proofs.Style.Literals

/-! A text whose lines have been put together again is in a form of its own: doing so once more
changes nothing, and it can be done part by part. -/
namespace ThemeBuilder.Style
open Bytes

/-- What is left of a line has nothing more to be trimmed. -/
@[simp]
theorem trim_trim (line : Bytes) : trim (trim line) = trim line := by
  have hlead : ∀ b ∈ (trimEnd line).takeWhile isBlank, isBlank b = true := fun b hb =>
    List.mem_takeWhile_imp hb
  have htrail : ∀ b ∈ line.rtakeWhile isTrailing, isTrailing b = true := fun b hb =>
    List.mem_rtakeWhile_imp hb
  have hline : (trimEnd line).takeWhile isBlank ++ trim line ++ line.rtakeWhile isTrailing =
      line := by
    rw [trim, List.takeWhile_append_dropWhile]
    exact List.rdropWhile_append_rtakeWhile
  calc trim (trim line)
      = trim ((trimEnd line).takeWhile isBlank ++ trim line ++ line.rtakeWhile isTrailing) :=
        (trim_padding hlead htrail (trim line)).symm
    _ = trim line := by rw [hline]

@[simp]
theorem trim_append_space (line : Bytes) : trim (trim line ++ [space]) = trim line := by
  have hnone : ∀ b ∈ ([] : Bytes), isBlank b = true := by simp
  have hspace : ∀ b ∈ [space], isTrailing b = true := by simp [isTrailing]
  exact (trim_padding hnone hspace (trim line)).trans (trim_trim line)

theorem lines_rejoin (text : Bytes) :
    lines (rejoin text) = (lines text).map fun line => trim line ++ [space] := by
  have hwhole : ∀ line ∈ (lines text).map fun line => trim line ++ [space], newline ∉ line := by
    refine List.forall_mem_map.mpr fun line hline hmem => ?_
    obtain hmem | hmem := List.mem_append.mp hmem
    · exact newline_not_mem_of_mem_lines hline (mem_of_mem_trim hmem)
    · exact absurd (List.mem_singleton.mp hmem) (by decide)
  have hrejoin : rejoin text =
      ((lines text).map fun line => trim line ++ [space]).flatMap (· ++ [newline]) := by
    simp [rejoin, List.flatMap_map]
  rw [hrejoin, lines_flatMap_newline hwhole]

@[simp]
theorem rejoin_rejoin (text : Bytes) : rejoin (rejoin text) = rejoin text := by
  rw [rejoin, lines_rejoin, List.flatMap_map]
  exact List.flatMap_congr fun line _ => by rw [trim_append_space]

theorem count_newline_rejoin (text : Bytes) :
    (rejoin text).count newline = (lines text).length := by
  rw [← length_lines_of_wholeLines (wholeLines_rejoin text), lines_rejoin, List.length_map]

/-- A space stands before each line feed of the joined lines. -/
private theorem getLast?_of_rejoin {text front back : Bytes}
    (h : rejoin text = front ++ newline :: back) : front.getLast? = some space := by
  have hspaced := spaced_rejoin text
  rw [h, ← List.cons_append] at hspaced
  obtain ⟨-, -, hbefore⟩ := List.isChain_append.mp hspaced
  cases hlast : front.getLast? with
  | none =>
    have hfront : (newline :: front).getLast? = some newline := by
      rw [List.getLast?_cons, hlast]
      rfl
    exact absurd (hbefore newline hfront newline rfl rfl) (by decide)
  | some b =>
    have hfront : (newline :: front).getLast? = some b := by
      rw [List.getLast?_cons, hlast]
      rfl
    exact congrArg some (hbefore b hfront newline rfl rfl)

/-- To put the lines of a text together again is to bring it into a normal form. There is one line
feed for each line of the text, a last one without a line feed included, and a space before each of
them. The lines of a text can be put together apart from those that follow them. -/
theorem rejoin_normal (text : Bytes) :
    rejoin (rejoin text) = rejoin text ∧
    lines (rejoin text) = (lines text).map (fun line => trim line ++ [space]) ∧
    (rejoin text).count newline = (lines text).length ∧
    (WholeLines text → (rejoin text).count newline = text.count newline) ∧
    (¬ WholeLines text → (rejoin text).count newline = text.count newline + 1) ∧
    (∀ front back, rejoin text = front ++ newline :: back → front.getLast? = some space) ∧
    ∀ rest, WholeLines text → rejoin (text ++ rest) = rejoin text ++ rejoin rest := by
  refine ⟨rejoin_rejoin text, lines_rejoin text, count_newline_rejoin text, ?_, ?_, ?_, ?_⟩
  · intro hwhole
    rw [count_newline_rejoin, length_lines_of_wholeLines hwhole]
  · intro hopen
    rw [count_newline_rejoin, length_lines_of_not_wholeLines hopen]
  · exact fun front back h => getLast?_of_rejoin h
  · exact fun rest hwhole => rejoin_append hwhole rest

/-- A line that ends in a vertical tab behind its text, one of a form feed only, one with a carriage
return inside, and a last one without a line feed. -/
theorem rejoin_normal_mixed :
    let text := Utf8.encode "\x0b a\x0b \r\n\t\x0c\t\nb\r c\t \n"
    let rest := Utf8.encode "\x0c\x0bd"
    WholeLines text ∧ ¬ WholeLines rest ∧
      rejoin text = Utf8.encode "a\x0b \n \nb\r c \n" ∧
      rejoin (text ++ rest) = Utf8.encode "a\x0b \n \nb\r c \nd \n" ∧
      rejoin (rejoin (text ++ rest)) = rejoin (text ++ rest) ∧
      (rejoin rest).count newline = rest.count newline + 1 := by
  intro text rest
  have hwhole : WholeLines text := .inr (by decide +kernel)
  have hopen : ¬ WholeLines rest := by
    rintro (h | h) <;> exact absurd h (by decide +kernel)
  have hjoined : rejoin text = Utf8.encode "a\x0b \n \nb\r c \n" := by decide +kernel
  obtain ⟨-, -, -, -, -, -, hparts⟩ := rejoin_normal text
  obtain ⟨-, -, -, -, hcount, -⟩ := rejoin_normal rest
  refine ⟨hwhole, hopen, hjoined, ?_, (rejoin_normal (text ++ rest)).1, hcount hopen⟩
  rw [hparts rest hwhole, hjoined]
  decide +kernel

end ThemeBuilder.Style
