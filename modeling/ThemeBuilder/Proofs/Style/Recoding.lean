import ThemeBuilder.Proofs.Style.Comments
import ThemeBuilder.Proofs.Style.Tidying
import ThemeBuilder.Text.Utf8

/-! Texts in other encodings. What becomes a line of a listing, and where its comments and blanks
are, hangs on a few bytes only, and whatever is put in the place of the others comes out in their
place. -/
namespace ThemeBuilder
namespace Bytes
variable {p : UInt8 → UInt8}

private theorem lines_map (h : ∀ b, p b = newline ↔ b = newline) (text : Bytes) :
    lines (text.map p) = (lines text).map (List.map p) := by
  induction text with
  | nil => rfl
  | cons b text ih =>
    rw [List.map_cons, lines, lines, ih]
    by_cases hb : b = newline
    · rw [if_pos hb, if_pos ((h b).mpr hb)]
      rfl
    · rw [if_neg hb, if_neg ((h b).not.mpr hb)]
      cases lines text <;> rfl

private theorem splitOn_map {sep : UInt8 → Bool} (h : ∀ b, sep (p b) = sep b) (bs : Bytes) :
    splitOn sep (bs.map p) = (splitOn sep bs).map (List.map p) := by
  induction bs with
  | nil => rfl
  | cons b bs ih =>
    rw [List.map_cons, splitOn, splitOn, ih, h]
    by_cases hb : sep b = true
    · rw [if_pos hb, if_pos hb]
      rfl
    · rw [if_neg hb, if_neg hb]
      cases splitOn sep bs <;> rfl

end Bytes

namespace Style
open Bytes

/-- The bytes that are looked for when a listing is made. -/
def special : List UInt8 :=
  [tab, newline, 0x0b, 0x0c, carriageReturn, space, doubleQuote, star, slash]

/-- The special bytes stand for themselves and no other byte stands for one of them. A single quote
stands for itself too, as it is put where double quotes were. -/
structure Recoding (p : UInt8 → UInt8) : Prop where
  special : ∀ b ∈ special, p b = b
  singleQuote : p singleQuote = singleQuote
  other : ∀ b, b ∉ Style.special → p b ∉ Style.special

namespace Recoding
variable {p : UInt8 → UInt8}

/-- Only a special byte itself stands for it. -/
private theorem eq_iff (h : Recoding p) {s : UInt8} (hs : s ∈ Style.special) (b : UInt8) :
    p b = s ↔ b = s := by
  constructor
  · intro hb
    by_cases hspecial : b ∈ Style.special
    · rwa [h.special b hspecial] at hb
    · exact absurd (hb ▸ hs) (h.other b hspecial)
  · rintro rfl
    exact h.special b hs

private theorem beq_eq (h : Recoding p) {s : UInt8} (hs : s ∈ Style.special) (b : UInt8) :
    (p b == s) = (b == s) := by
  rw [Bool.eq_iff_iff, beq_iff_eq, beq_iff_eq, h.eq_iff hs]

private theorem isBlank_eq (h : Recoding p) (b : UInt8) : isBlank (p b) = isBlank b := by
  simp only [isBlank, h.beq_eq (show space ∈ _ by decide), h.beq_eq (show tab ∈ _ by decide),
    h.beq_eq (show newline ∈ _ by decide), h.beq_eq (show 0x0b ∈ _ by decide),
    h.beq_eq (show 0x0c ∈ _ by decide), h.beq_eq (show carriageReturn ∈ _ by decide)]

private theorem isTrailing_eq (h : Recoding p) (b : UInt8) : isTrailing (p b) = isTrailing b := by
  simp only [isTrailing, h.beq_eq (show carriageReturn ∈ _ by decide),
    h.beq_eq (show newline ∈ _ by decide), h.beq_eq (show tab ∈ _ by decide),
    h.beq_eq (show space ∈ _ by decide)]

theorem head?_iff (h : Recoding p) {s : UInt8} (hs : s ∈ Style.special) (bs : Bytes) :
    (bs.map p).head? = some s ↔ bs.head? = some s := by
  cases bs with
  | nil => rfl
  | cons b bs => simp only [List.map_cons, List.head?_cons, Option.some.injEq, h.eq_iff hs]

private theorem trim_map (h : Recoding p) (line : Bytes) :
    trim (line.map p) = (trim line).map p := by
  have hblank : isBlank ∘ p = isBlank := funext h.isBlank_eq
  have htrailing : isTrailing ∘ p = isTrailing := funext h.isTrailing_eq
  rw [trim, trimEnd, ← List.map_reverse, List.dropWhile_map, htrailing, ← List.map_reverse,
    List.dropWhile_map, hblank]
  rfl

theorem rejoin_map (h : Recoding p) (text : Bytes) : rejoin (text.map p) = (rejoin text).map p := by
  have hline (line : Bytes) :
      trim (line.map p) ++ [space, newline] = (trim line ++ [space, newline]).map p := by
    rw [h.trim_map, List.map_append, List.map_cons, List.map_singleton,
      h.special space (by decide), h.special newline (by decide)]
  rw [rejoin, lines_map (h.eq_iff (by decide)), List.flatMap_map, rejoin, List.map_flatMap]
  simp only [hline]

private theorem afterClose_map (h : Recoding p) (bs : Bytes) :
    afterClose (bs.map p) = (afterClose bs).map (List.map p) := by
  induction bs with
  | nil => rfl
  | cons b bs ih =>
    have hclose : p b = star ∧ (bs.map p).head? = some slash ↔
        b = star ∧ bs.head? = some slash := by
      rw [h.eq_iff (by decide), h.head?_iff (by decide)]
    rw [List.map_cons, afterClose, afterClose]
    by_cases hb : b = star ∧ bs.head? = some slash
    · rw [if_pos hb, if_pos (hclose.mpr hb), ← List.map_tail]
      rfl
    · rw [if_neg hb, if_neg (hclose.not.mpr hb), ih]

/-- The first comment is at the same place. -/
private theorem firstComment?_map (h : Recoding p) (bs : Bytes) :
    firstComment? (bs.map p) =
      (firstComment? bs).map fun (before, after) => (before.map p, after.map p) := by
  induction bs with
  | nil => rfl
  | cons b bs ih =>
    have hopen : p b = slash ∧ (bs.map p).head? = some star ↔
        b = slash ∧ bs.head? = some star := by
      rw [h.eq_iff (by decide), h.head?_iff (by decide)]
    rw [List.map_cons, firstComment?, firstComment?]
    by_cases hb : b = slash ∧ bs.head? = some star
    · rw [if_pos hb, if_pos (hopen.mpr hb), ← List.map_tail, h.afterClose_map,
        Option.map_map, Option.map_map]
      rfl
    · rw [if_neg hb, if_neg (hopen.not.mpr hb), ih, Option.map_map, Option.map_map]
      rfl

theorem withoutComments_map (h : Recoding p) (bs : Bytes) :
    withoutComments (bs.map p) = (withoutComments bs).map p := by
  induction bs using comment_induction with
  | last bs hnone =>
    rw [withoutComments_of_firstComment?_eq_none hnone, withoutComments_of_firstComment?_eq_none]
    rw [h.firstComment?_map, hnone]
    rfl
  | next bs before after hfound ih =>
    have hmapped : firstComment? (bs.map p) = some (before.map p, after.map p) := by
      rw [h.firstComment?_map, hfound]
      rfl
    rw [withoutComments_of_firstComment? hfound, withoutComments_of_firstComment? hmapped, ih,
      List.map_append]

/-- Where a byte is put in the place of a special one, recoding may come first or last. -/
private theorem exchange_map (h : Recoding p) {old new : UInt8} (hold : old ∈ Style.special)
    (hnew : p new = new) (text : Bytes) :
    (text.map p).map (fun b => if b = old then new else b) =
      (text.map fun b => if b = old then new else b).map p := by
  rw [List.map_map, List.map_map]
  apply List.map_congr_left
  intro b _
  simp only [Function.comp_apply, h.eq_iff hold, apply_ite p, hnew]

private theorem halveSpaces_map (h : Recoding p) (bs : Bytes) :
    halveSpaces (bs.map p) = (halveSpaces bs).map p := by
  fun_induction halveSpaces bs with
  | case1 => rfl
  | case2 => rfl
  | case3 a b bs hpair ih =>
    obtain ⟨rfl, rfl⟩ := hpair
    have hspace : p space = space := h.special space (by decide)
    rw [List.map_cons, List.map_cons, hspace, halveSpaces, if_pos ⟨rfl, rfl⟩, ih, List.map_cons,
      hspace]
  | case4 a b bs hpair ih =>
    have hspaces : ¬ (p a = space ∧ p b = space) := by
      rwa [h.eq_iff (by decide), h.eq_iff (by decide)]
    rw [List.map_cons, List.map_cons, halveSpaces, if_neg hspaces, ← List.map_cons, ih,
      List.map_cons]

private theorem tidied_map (h : Recoding p) (text : Bytes) :
    tidied (text.map p) = (tidied text).map p := by
  have hdetab : detab (text.map p) = (detab text).map p :=
    h.exchange_map (by decide) (h.special space (by decide)) text
  rw [tidied, hdetab, h.halveSpaces_map]
  exact h.exchange_map (by decide) h.singleQuote _

private theorem nonblankLines_map (h : Recoding p) (text : Bytes) :
    nonblankLines (text.map p) = (nonblankLines text).map (List.map p) := by
  have hsep (b : UInt8) : (p b == newline || p b == carriageReturn) =
      (b == newline || b == carriageReturn) := by
    rw [h.beq_eq (by decide), h.beq_eq (by decide)]
  have hblank (line : Bytes) : (line.map p).all isBlank = line.all isBlank := by
    rw [List.all_map, show isBlank ∘ p = isBlank from funext h.isBlank_eq]
  rw [nonblankLines, splitOn_map hsep, List.filter_map, nonblankLines]
  congr 1
  apply List.filter_congr
  intro line _
  rw [Function.comp_apply, hblank]

private theorem enquote_map (h : Recoding p) (line : Bytes) :
    enquote (line.map p) = (enquote line).map p := by
  rw [enquote, enquote, List.map_cons, List.map_append, List.map_singleton,
    h.special doubleQuote (by decide)]

theorem listingLines_map (h : Recoding p) (text : Bytes) :
    listingLines (text.map p) = (listingLines text).map (List.map p) := by
  rw [listingLines_eq_tidied, h.rejoin_map, h.withoutComments_map, h.tidied_map,
    h.nonblankLines_map, listingLines_eq_tidied, List.map_map, List.map_map]
  exact List.map_congr_left fun line _ => h.enquote_map line

end Recoding

/-- A byte where those that are not special are not told apart. -/
def outline (b : UInt8) : UInt8 := if b ∈ special then b else singleQuote

theorem recoding_outline : Recoding outline where
  special := fun _ hb => if_pos hb
  singleQuote := rfl
  other := by
    intro b hb
    rw [outline, if_neg hb]
    decide

/-- A recoded text has the recoded listing. And where two texts have the same special bytes at the
same places, so have their listings, whatever the other bytes are. -/
theorem listingLines_recoding :
    (∀ p, Recoding p → ∀ text, listingLines (text.map p) = (listingLines text).map (List.map p)) ∧
    ∀ a b : Bytes, a.map outline = b.map outline →
      (listingLines a).map (List.map outline) = (listingLines b).map (List.map outline) := by
  constructor
  · intro p h text
    exact h.listingLines_map text
  · intro a b hab
    rw [← recoding_outline.listingLines_map, hab, recoding_outline.listingLines_map]

/-- A letter and a byte that is no character change places, quoted, in a comment and behind it. -/
theorem listingLines_recoding_swap :
    let p : UInt8 → UInt8 := fun b => if b = 0x61 then 0xe9 else if b = 0xe9 then 0x61 else b
    let text := Utf8.encode "\"a\"  /*a*/" ++ [0xe9]
    let other := Utf8.encode "\"x\"  /*y*/z"
    Recoding p ∧ text.map outline = other.map outline ∧
      listingLines (text.map p) =
        [Utf8.encode "\"'" ++ 0xe9 :: Utf8.encode "' a \""] ∧
      (listingLines other).map (List.map outline) = [Utf8.encode "\"''' ' \""] := by
  intro p text other
  have hp : Recoding p := {
    special := by decide +kernel
    singleQuote := by decide
    other := by
      intro b hb
      change (if b = 0x61 then 0xe9 else if b = 0xe9 then 0x61 else b) ∉ special
      split
      · decide
      · split
        · decide
        · exact hb }
  have hlines : listingLines text = [Utf8.encode "\"'a' " ++ 0xe9 :: Utf8.encode " \""] := by
    decide +kernel
  have houtline : text.map outline = other.map outline := by decide +kernel
  refine ⟨hp, houtline, ?_, ?_⟩
  · rw [listingLines_recoding.1 p hp text, hlines]
    decide +kernel
  · rw [← listingLines_recoding.2 text other houtline, hlines]
    decide +kernel

end Style
end ThemeBuilder
