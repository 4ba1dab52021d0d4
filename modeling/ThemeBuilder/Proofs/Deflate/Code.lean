import Mathlib.Algebra.BigOperators.Group.List.Basic
import Mathlib.Algebra.GroupWithZero.Nat
import ThemeBuilder.Deflate.Code
import ThemeBuilder.Proofs.Deflate.Bits

/-! Reading codes: whatever follows a code, its reader finds what was encoded and leaves what
follows. Codes of symbols differ in length, and the value of the first seven bits tells which length
it is. -/
namespace ThemeBuilder.Deflate

section Symbols
variable {v : Nat} (rest : Bits)

private theorem readSymbol_seven (h : v < 0x18) :
    readSymbol (highFirst 7 v ++ rest) = some (256 + v, rest) := by
  rw [readSymbol, split?_highFirst]
  simp only [Option.bind_eq_bind, Option.bind_some]
  rw [ofHighFirst_highFirst (by omega), if_pos h]

private theorem readSymbol_eight (h : 0x30 ≤ v) (h' : v < 0xC8) :
    readSymbol (highFirst 8 v ++ rest) =
      some (if v < 0xC0 then v - 0x30 else 280 + (v - 0xC0), rest) := by
  obtain ⟨low, hseven⟩ := split?_highFirst_add 7 1 v rest
  rw [readSymbol, hseven, split?_highFirst]
  simp only [Option.bind_eq_bind, Option.bind_some]
  rw [ofHighFirst_highFirst (by omega), if_neg (by omega), ofHighFirst_highFirst (by omega),
    if_pos h']
  split <;> rfl

private theorem readSymbol_nine (h : 0x190 ≤ v) (h' : v < 0x200) :
    readSymbol (highFirst 9 v ++ rest) = some (144 + (v - 0x190), rest) := by
  obtain ⟨low, hseven⟩ := split?_highFirst_add 7 2 v rest
  obtain ⟨low', height⟩ := split?_highFirst_add 8 1 v rest
  rw [readSymbol, hseven, height, split?_highFirst]
  simp only [Option.bind_eq_bind, Option.bind_some]
  rw [ofHighFirst_highFirst (by omega), if_neg (by omega), ofHighFirst_highFirst (by omega),
    if_neg (by omega), if_neg (by omega), ofHighFirst_highFirst (by omega)]

theorem readSymbol_symbolCode {s : Nat} (h : s < 288) :
    readSymbol (symbolCode s ++ rest) = some (s, rest) := by
  unfold symbolCode
  split
  · rw [readSymbol_eight rest (by omega) (by omega), if_pos (by omega), Nat.add_sub_cancel_left]
  split
  · rw [readSymbol_nine rest (by omega) (by omega), Nat.add_sub_cancel_left,
      Nat.add_sub_cancel' (by omega)]
  split
  · rw [readSymbol_seven rest (by omega), Nat.add_sub_cancel' (by omega)]
  · rw [readSymbol_eight rest (by omega) (by omega), if_neg (by omega), Nat.add_sub_cancel_left,
      Nat.add_sub_cancel' (by omega)]

theorem length_symbolCode_pos (s : Nat) : 0 < (symbolCode s).length := by
  unfold symbolCode
  split_ifs <;> simp

end Symbols

section Scales
variable {base v : Nat} {ws : List Nat} {p : Place}

private theorem place?_cons (base w : Nat) (ws : List Nat) (v : Nat) : place? base (w :: ws) v =
    if v < base + 2 ^ w then some ⟨0, v - base, w⟩
    else (place? (base + 2 ^ w) ws v).map fun p => { p with index := p.index + 1 } := rfl

/-- The place of a value on a scale leads back to the value. -/
private theorem step?_of_place? (hbase : base ≤ v) (h : place? base ws v = some p) :
    ∃ first, step? base ws p.index = some (first, p.width) ∧ first + p.offset = v ∧
      p.offset < 2 ^ p.width ∧ p.index < ws.length := by
  induction ws generalizing base p with
  | nil => cases h
  | cons w ws ih =>
    rw [place?_cons] at h
    split at h
    · cases h
      exact ⟨base, rfl, Nat.add_sub_cancel' hbase, Nat.sub_lt_left_of_lt_add hbase ‹_›,
        Nat.succ_pos _⟩
    · obtain ⟨q, hq, rfl⟩ := Option.map_eq_some_iff.mp h
      obtain ⟨first, hstep, hvalue, hoffset, hindex⟩ := ih (by omega) hq
      exact ⟨first, hstep, hvalue, hoffset, Nat.succ_lt_succ hindex⟩

/-- Every value up to the end of a scale has a place. -/
private theorem exists_place? (hbase : base ≤ v) (h : v < base + (ws.map (2 ^ ·)).sum) :
    ∃ p, place? base ws v = some p := by
  induction ws generalizing base with
  | nil => exact absurd h (Nat.not_lt.mpr hbase)
  | cons w ws ih =>
    rw [List.map_cons, List.sum_cons, ← Nat.add_assoc] at h
    rw [place?_cons]
    split
    · exact ⟨_, rfl⟩
    · obtain ⟨p, hp⟩ := ih (Nat.le_of_not_lt ‹_›) h
      exact ⟨_, by rw [hp, Option.map_some]⟩

private theorem readOffset_placeBits (hbase : base ≤ v) (h : place? base ws v = some p)
    (rest : Bits) : readOffset base ws p.index (placeBits p ++ rest) = some (v, rest) := by
  obtain ⟨first, hstep, hvalue, hoffset, -⟩ := step?_of_place? hbase h
  rw [readOffset, hstep, placeBits]
  simp only [Option.bind_eq_bind, Option.bind_some, split?_lowFirst, ofLowFirst_lowFirst hoffset,
    hvalue]

end Scales

section Tokens

/-- The length of the copy that a symbol above 256 begins. -/
def readLength (symbol : Nat) (bits : Bits) : Option (Nat × Bits) :=
  if symbol = greatestLength then some (258, bits)
  else readOffset 3 lengthWidths (symbol - 257) bits

private theorem readCopy_eq (symbol : Nat) (bits : Bits) : readCopy symbol bits =
    (readLength symbol bits).bind fun (length, rest) =>
      (split? 5 rest).bind fun (index, rest) =>
        (readOffset 1 distanceWidths (ofHighFirst index) rest).bind fun (distance, rest) =>
          some (.copy length distance, rest) := by
  unfold readCopy readLength
  split <;> rfl

/-- The code of a length is that of a symbol, which says that a copy begins, and the bits of an
offset. -/
private theorem exists_lengthCode {length : Nat} (h : 3 ≤ length) (h' : length ≤ 258) :
    ∃ symbol bits, lengthCode length = symbolCode symbol ++ bits ∧
      endOfBlock < symbol ∧ symbol < 288 ∧
      ∀ rest, readLength symbol (bits ++ rest) = some (length, rest) := by
  unfold lengthCode
  split
  · rename_i hlength
    refine ⟨greatestLength, [], (List.append_nil _).symm, by decide, by decide, fun rest => ?_⟩
    rw [readLength, if_pos rfl, hlength, List.nil_append]
  · have htotal : 3 + (lengthWidths.map (2 ^ ·)).sum = 259 := by decide
    obtain ⟨p, hp⟩ : ∃ p, place? 3 lengthWidths length = some p := exists_place? h (by omega)
    obtain ⟨first, -, -, -, hindex⟩ := step?_of_place? h hp
    have hlt : p.index < 28 := hindex
    rw [hp]
    refine ⟨257 + p.index, placeBits p, rfl, ?_, by omega, fun rest => ?_⟩
    · unfold endOfBlock
      omega
    · rw [readLength, if_neg (by unfold greatestLength; omega), Nat.add_sub_cancel_left,
        readOffset_placeBits h hp]

private theorem exists_distanceCode {distance : Nat} (h : 1 ≤ distance) (h' : distance ≤ 32768) :
    ∃ index bits, distanceCode distance = highFirst 5 index ++ bits ∧ index < 2 ^ 5 ∧
      ∀ rest, readOffset 1 distanceWidths index (bits ++ rest) = some (distance, rest) := by
  have htotal : 1 + (distanceWidths.map (2 ^ ·)).sum = 32769 := by decide
  obtain ⟨p, hp⟩ : ∃ p, place? 1 distanceWidths distance = some p := exists_place? h (by omega)
  obtain ⟨first, -, -, -, hindex⟩ := step?_of_place? h hp
  have hlt : p.index < 30 := hindex
  rw [distanceCode, hp]
  exact ⟨p.index, placeBits p, rfl, by omega, readOffset_placeBits h hp⟩

/-- The code of a token begins with a symbol that does not end the block. -/
private theorem exists_copyCode {length distance : Nat}
    (h : (Token.copy length distance).isCoded = true) :
    ∃ symbol bits, tokenCode (.copy length distance) = symbolCode symbol ++ bits ∧
      endOfBlock < symbol ∧ symbol < 288 ∧
      ∀ rest, readCopy symbol (bits ++ rest) = some (.copy length distance, rest) := by
  simp only [Token.isCoded, Bool.and_eq_true, decide_eq_true_eq] at h
  obtain ⟨⟨⟨hmin, hmax⟩, hnear⟩, hfar⟩ := h
  obtain ⟨symbol, bits, hlength, hcopy, hsymbol, hread⟩ := exists_lengthCode hmin hmax
  obtain ⟨index, more, hdistance, hindex, hread'⟩ := exists_distanceCode hnear hfar
  refine ⟨symbol, bits ++ (highFirst 5 index ++ more), ?_, hcopy, hsymbol, fun rest => ?_⟩
  · rw [tokenCode, hlength, hdistance, List.append_assoc]
  · simp only [readCopy_eq, List.append_assoc, hread, Option.bind_some, split?_highFirst,
      ofHighFirst_highFirst hindex, hread']

private theorem length_tokenCode_pos {t : Token} (h : t.isCoded = true) :
    0 < (tokenCode t).length := by
  cases t with
  | literal b => exact length_symbolCode_pos b.toNat
  | copy length distance =>
    obtain ⟨symbol, bits, hcode, -⟩ := exists_copyCode h
    have := length_symbolCode_pos symbol
    rw [hcode, List.length_append]
    omega

/-- The tokens of a block are read back, up to the symbol that ends it. -/
theorem readTokens_flatMap {ts : List Token} (h : ∀ t ∈ ts, t.isCoded = true) {bound : Nat}
    (hbound : ts.length < bound) (rest : Bits) :
    readTokens bound (ts.flatMap tokenCode ++ (symbolCode endOfBlock ++ rest)) = some ts := by
  induction ts generalizing bound with
  | nil =>
    obtain ⟨bound, rfl⟩ := Nat.exists_eq_add_one_of_ne_zero (Nat.ne_of_gt hbound)
    rw [List.flatMap_nil, List.nil_append, readTokens,
      readSymbol_symbolCode rest (show endOfBlock < 288 by decide)]
    rfl
  | cons t ts ih =>
    obtain ⟨bound, rfl⟩ := Nat.exists_eq_add_one_of_ne_zero (Nat.ne_zero_of_lt hbound)
    rw [List.forall_mem_cons] at h
    have htail := ih h.2 (Nat.lt_of_succ_lt_succ hbound)
    rw [List.flatMap_cons, List.append_assoc]
    cases t with
    | literal b =>
      have hb := b.toNat_lt
      rw [tokenCode, readTokens, readSymbol_symbolCode _ (by omega)]
      simp only [Option.bind_eq_bind, Option.bind_some]
      rw [if_neg (by unfold endOfBlock; omega), if_pos (by unfold endOfBlock; omega), htail,
        UInt8.ofNat_toNat]
      rfl
    | copy length distance =>
      obtain ⟨symbol, bits, hcode, hcopy, hsymbol, hread⟩ := exists_copyCode h.1
      rw [hcode, List.append_assoc, readTokens, readSymbol_symbolCode _ hsymbol]
      simp only [Option.bind_eq_bind, Option.bind_some]
      rw [if_neg (by omega), if_neg (by omega), hread]
      simp only [Option.bind_some]
      rw [htail]
      rfl

theorem length_le_flatMap {ts : List Token} (h : ∀ t ∈ ts, t.isCoded = true) :
    ts.length ≤ (ts.flatMap tokenCode).length := by
  induction ts with
  | nil => exact Nat.le_refl 0
  | cons t ts ih =>
    rw [List.forall_mem_cons] at h
    have hpos := length_tokenCode_pos h.1
    have hrest := ih h.2
    rw [List.flatMap_cons, List.length_append, List.length_cons]
    omega

end Tokens
end ThemeBuilder.Deflate
