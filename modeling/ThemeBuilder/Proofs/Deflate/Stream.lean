import ThemeBuilder.Deflate.Stream
import ThemeBuilder.Proofs.Deflate.Code

/-! Compressed data is decompressed to what it was. The copies that the search finds are used only
where they are right, so nothing has to be known of the search. -/
namespace ThemeBuilder.Deflate

@[simp]
theorem expand_literal (out : Array UInt8) (data : Bytes) :
    expand out (data.map .literal) = some (out ++ data.toArray) := by
  induction data generalizing out with
  | nil => rw [List.map_nil, expand, Array.append_empty]
  | cons b data ih =>
    rw [List.map_cons, expand, ih]
    simp

private theorem tokens_cases (data : Bytes) :
    (∀ t ∈ tokens data, t.isCoded = true) ∧ expand #[] (tokens data) = some data.toArray := by
  unfold tokens
  dsimp only
  split
  · rename_i h
    exact ⟨List.all_eq_true.mp h.1, h.2⟩
  · refine ⟨List.forall_mem_map.mpr fun _ _ => rfl, ?_⟩
    rw [expand_literal, Array.empty_append]

private theorem exists_unpack_compress (data : Bytes) : ∃ padding, unpack (compress data) =
    blockHeader ++ ((tokens data).flatMap tokenCode ++ (symbolCode endOfBlock ++ padding)) := by
  obtain ⟨padding, hbits⟩ := exists_unpack_pack
    (blockHeader ++ (tokens data).flatMap tokenCode ++ symbolCode endOfBlock)
  simp only [List.append_assoc] at hbits
  exact ⟨padding, by rw [compress, List.append_assoc, hbits]⟩

@[simp]
theorem decompress?_compress (data : Bytes) : decompress? (compress data) = some data := by
  obtain ⟨hcoded, hexpand⟩ := tokens_cases data
  obtain ⟨padding, hbits⟩ := exists_unpack_compress data
  have hheader : blockHeader.isPrefixOf (unpack (compress data)) = true := by
    rw [hbits]
    exact List.isPrefixOf_iff_prefix.mpr (List.prefix_append _ _)
  -- each token and the end of the block take a bit at least
  have hbound : (tokens data).length < (unpack (compress data)).length := by
    have htokens := length_le_flatMap hcoded
    have hend := length_symbolCode_pos endOfBlock
    rw [hbits]
    simp only [List.length_append]
    omega
  have hread := readTokens_flatMap hcoded hbound padding
  simp only [decompress?, if_pos hheader, Option.bind_eq_bind]
  rw [show (unpack (compress data)).drop blockHeader.length = _ by rw [hbits, List.drop_left],
    hread, Option.bind_some, hexpand]
  rfl

end ThemeBuilder.Deflate
