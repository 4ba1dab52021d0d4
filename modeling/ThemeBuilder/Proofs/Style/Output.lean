import ThemeBuilder.Style.Output

/-! What arrives at an output: listings one after the other, also where bytes are held back for a
while. -/
namespace ThemeBuilder.Style
open Bytes

@[simp]
theorem flatten_listingPieces (text : Bytes) : (listingPieces text).flatten = listing text := by
  rw [listingPieces, listing]
  induction listingLines text with
  | nil => rfl
  | cons line rest ih =>
    rw [List.flatMap_cons, List.flatten_append, ih, List.flatMap_cons]
    simp

@[simp]
theorem append_buffer (pending piece : Bytes) :
    (buffer pending piece).1 ++ (buffer pending piece).2 = pending ++ piece := by
  unfold buffer
  split
  · rfl
  split
  · rfl
  · exact List.append_nil _

/-- What is written and what is held back then are what came in. -/
@[simp]
theorem append_bufferAll (pending : Bytes) (pieces : List Bytes) :
    (bufferAll pending pieces).1 ++ (bufferAll pending pieces).2 = pending ++ pieces.flatten := by
  induction pieces generalizing pending with
  | nil => rw [bufferAll, List.nil_append, List.flatten_nil, List.append_nil]
  | cons piece pieces ih =>
    rw [bufferAll]
    dsimp only
    rw [List.append_assoc, ih, ← List.append_assoc, append_buffer, List.append_assoc,
      List.flatten_cons]

/-- An output without a bound takes everything. -/
@[simp]
theorem deliver_none (pieces : List Bytes) :
    deliver none pieces = ⟨pieces.flatten, none, true⟩ := by
  induction pieces with
  | nil => rfl
  | cons piece pieces ih =>
    rw [deliver, ih]
    rfl

theorem writeListings_none (texts : List Bytes) : writeListings none texts =
    ⟨texts.flatMap listing, texts.map fun text => some (listingLines text).length⟩ := by
  induction texts with
  | nil => rfl
  | cons text texts ih =>
    rw [writeListings, deliver_none]
    dsimp only
    rw [ih, flatten_listingPieces]
    rfl

end ThemeBuilder.Style
