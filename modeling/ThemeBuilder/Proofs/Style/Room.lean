import ThemeBuilder.Proofs.Style.Output
import ThemeBuilder.Text.Utf8

/-! Listings on their way to an output that is full after some bytes. It holds the beginning of
what an unlimited output would hold, and each listing is either in it as a whole or reported as
cut off. -/
namespace ThemeBuilder.Style
open Bytes

/-- A listing with lines has bytes: each line has a line feed. -/
private theorem length_listing_pos {text : Bytes} (h : listingLines text ≠ []) :
    0 < (listing text).length := by
  obtain ⟨line, rest, hlines⟩ := List.exists_cons_of_ne_nil h
  rw [listing, hlines, List.flatMap_cons]
  simp only [List.length_append, List.length_cons]
  omega

/-- Pieces fill the room in order, and all of them are taken if they fit together. -/
theorem deliver_some (room : Nat) (pieces : List Bytes) :
    deliver (some room) pieces = ⟨pieces.flatten.take room, some (room - pieces.flatten.length),
      decide (pieces.flatten.length ≤ room)⟩ := by
  induction pieces generalizing room with
  | nil => simp [deliver]
  | cons piece pieces ih =>
    rw [deliver, List.flatten_cons, List.length_append]
    split
    · rename_i hfits
      have hroom : room - piece.length - pieces.flatten.length =
          room - (piece.length + pieces.flatten.length) := by omega
      have hall : pieces.flatten.length ≤ room - piece.length ↔
          piece.length + pieces.flatten.length ≤ room := by omega
      rw [ih, hroom, List.take_append, List.take_of_length_le hfits]
      simp only [hall]
    · rename_i hfull
      have hnone : room - (piece.length + pieces.flatten.length) = 0 := by omega
      have hcut : ¬piece.length + pieces.flatten.length ≤ room := by omega
      rw [List.take_append_of_le_length (by omega), hnone, decide_eq_false hcut]

private theorem writeListings_some_cons (room : Nat) (text : Bytes) (texts : List Bytes) :
    writeListings (some room) (text :: texts) =
      let rest := writeListings (some (room - (listing text).length)) texts
      ⟨(listing text).take room ++ rest.written,
        (if (listing text).length ≤ room then some (listingLines text).length else none) ::
          rest.results⟩ := by
  rw [writeListings, deliver_some, flatten_listingPieces]
  simp only [decide_eq_true_eq]

theorem written_writeListings_some (room : Nat) (texts : List Bytes) :
    (writeListings (some room) texts).written = (texts.flatMap listing).take room := by
  induction texts generalizing room with
  | nil => rw [writeListings, List.flatMap_nil, List.take_nil]
  | cons text texts ih =>
    rw [writeListings_some_cons]
    dsimp only
    rw [ih, List.flatMap_cons, List.take_append]

private theorem flatMap_take_succ {texts : List Bytes} {i : Nat} {text : Bytes}
    (h : texts[i]? = some text) :
    (texts.take (i + 1)).flatMap listing = (texts.take i).flatMap listing ++ listing text := by
  rw [List.take_add_one, h, Option.toList_some, List.flatMap_append, List.flatMap_singleton]

/-- Up to a text that has lines there are bytes. -/
private theorem length_take_pos {texts : List Bytes} {i : Nat} {text : Bytes}
    (h : texts[i]? = some text) (hlines : listingLines text ≠ []) :
    0 < ((texts.take (i + 1)).flatMap listing).length := by
  have hpos := length_listing_pos hlines
  rw [flatMap_take_succ h, List.length_append]
  omega

/-- A text succeeds if it has no line or if all up to its end has room. -/
theorem getElem?_results_writeListings_some (room : Nat) (texts : List Bytes) (i : Nat) :
    (writeListings (some room) texts).results[i]? = texts[i]?.map fun text =>
      if listingLines text = [] ∨ ((texts.take (i + 1)).flatMap listing).length ≤ room
      then some (listingLines text).length else none := by
  induction texts generalizing room i with
  | nil => rfl
  | cons text texts ih =>
    rw [writeListings_some_cons]
    cases i with
    | zero =>
      have hempty : listingLines text = [] → (listing text).length ≤ room := fun h => by
        simp [listing, h]
      simp only [List.getElem?_cons_zero, Option.map_some, Nat.zero_add, List.take_succ_cons,
        List.take_zero, List.flatMap_singleton, or_iff_right_of_imp hempty]
    | succ i =>
      simp only [List.getElem?_cons_succ, ih, List.take_succ_cons, List.flatMap_cons,
        List.length_append]
      apply Option.map_congr
      intro later hlater
      by_cases hlines : listingLines later = []
      · rw [if_pos (.inl hlines), if_pos (.inl hlines)]
      · have hpos := length_take_pos hlater hlines
        have hroom : ((texts.take (i + 1)).flatMap listing).length ≤ room - (listing text).length ↔
            (listing text).length + ((texts.take (i + 1)).flatMap listing).length ≤ room := by
          omega
        simp only [hlines, false_or, hroom]

/-- What does not fit any more leaves no trace, nor does anything after it. -/
private theorem written_writeListings_take {room i : Nat} {texts : List Bytes}
    (h : room ≤ ((texts.take i).flatMap listing).length) :
    (writeListings (some room) texts).written =
      (writeListings (some room) (texts.take i)).written := by
  have hsplit : texts.flatMap listing =
      (texts.take i).flatMap listing ++ (texts.drop i).flatMap listing := by
    rw [← List.flatMap_append, List.take_append_drop]
  rw [written_writeListings_some, written_writeListings_some, hsplit,
    List.take_append_of_le_length h]

/-- A text that succeeds is written as a whole, after what was written before it. -/
private theorem written_writeListings_take_succ {room i : Nat} {texts : List Bytes} {text : Bytes}
    (htext : texts[i]? = some text)
    (h : listingLines text = [] ∨ ((texts.take (i + 1)).flatMap listing).length ≤ room) :
    (writeListings (some room) (texts.take (i + 1))).written =
      (writeListings (some room) (texts.take i)).written ++ listing text := by
  rw [written_writeListings_some, written_writeListings_some]
  rw [flatMap_take_succ htext] at h ⊢
  obtain hnone | hfits := h
  · have hempty : listing text = [] := by rw [listing, hnone, List.flatMap_nil]
    rw [hempty, List.append_nil, List.append_nil]
  · have hbefore : ((texts.take i).flatMap listing).length ≤ room := by
      rw [List.length_append] at hfits
      omega
    rw [List.take_of_length_le hfits, List.take_of_length_le hbefore]

/-- An output of limited size holds the beginning of what an unlimited one holds. A text is
reported with its number of lines exactly if it has none or if the listings up to its own fit.
After one that was cut off nothing more is written, and one that is reported with its lines was
written as a whole. -/
theorem writeListings_limited (room : Nat) (texts : List Bytes) :
    let out := writeListings (some room) texts
    out.written = (writeListings none texts).written.take room ∧
      (writeListings none texts).written = texts.flatMap listing ∧
      (∀ i : Nat, out.results[i]? = texts[i]?.map fun text =>
        if listingLines text = [] ∨ ((texts.take (i + 1)).flatMap listing).length ≤ room
        then some (listingLines text).length else none) ∧
      (∀ i : Nat, out.results[i]? = some none →
        out.written = (writeListings (some room) (texts.take (i + 1))).written) ∧
      ∀ i lines : Nat, out.results[i]? = some (some lines) → ∃ text, texts[i]? = some text ∧
        lines = (listingLines text).length ∧
        (writeListings (some room) (texts.take (i + 1))).written =
          (writeListings (some room) (texts.take i)).written ++ listing text := by
  intro out
  have hresults := getElem?_results_writeListings_some room texts
  have hall : (writeListings none texts).written = texts.flatMap listing := by
    rw [writeListings_none]
  refine ⟨?_, hall, hresults, fun i hcut => ?_, fun i lines hdone => ?_⟩
  · rw [hall]
    exact written_writeListings_some room texts
  · rw [hresults, Option.map_eq_some_iff] at hcut
    obtain ⟨text, -, hcond⟩ := hcut
    split at hcond
    · cases hcond
    · rename_i hnot
      exact written_writeListings_take (Nat.le_of_not_le (not_or.mp hnot).2)
  · rw [hresults, Option.map_eq_some_iff] at hdone
    obtain ⟨text, htext, hcond⟩ := hdone
    split at hcond
    · rename_i hfits
      exact ⟨text, htext, (Option.some.inj hcond).symm, written_writeListings_take_succ htext hfits⟩
    · cases hcond

/-- Room for the first of four texts and one byte more: the second is cut off after its opening
quote, the third has no line and succeeds on the full output, and the fourth gets no byte. -/
theorem writeListings_limited_full :
    let texts := [Utf8.encode "a", Utf8.encode "bc", Utf8.encode " /* */", Utf8.encode "d"]
    let out := writeListings (some 6) texts
    out.results = [some 1, none, some 0, none] ∧
      out.written = (writeListings (some 6) (texts.take 2)).written ∧
      out.written = Utf8.encode "\"a \"\n\"" := by
  intro texts out
  have hresults : out.results = [some 1, none, some 0, none] := by decide +kernel
  obtain ⟨hwritten, hall, -, hcut, -⟩ := writeListings_limited 6 texts
  refine ⟨hresults, hcut 1 (by rw [hresults]; rfl), ?_⟩
  rw [hwritten, hall]
  decide +kernel

end ThemeBuilder.Style
