import Mathlib.Algebra.Group.Nat.Defs
import ThemeBuilder.Deflate.Bits

/-! Numbers and bytes as bit strings, and back. Bytes give back the bits that they were made to
hold, with some zeros behind them where the last byte was not full. -/
namespace ThemeBuilder.Deflate

@[simp]
theorem length_lowFirst (w v : Nat) : (lowFirst w v).length = w := by
  induction w generalizing v with
  | zero => rfl
  | succ w ih => rw [lowFirst, List.length_cons, ih]

theorem ofLowFirst_lt (bits : Bits) : ofLowFirst bits < 2 ^ bits.length := by
  induction bits with
  | nil => exact Nat.one_pos
  | cons b bits ih =>
    have hb := Bool.toNat_le b
    rw [ofLowFirst, List.length_cons, Nat.pow_succ]
    omega

theorem ofLowFirst_lowFirst {w v : Nat} (h : v < 2 ^ w) : ofLowFirst (lowFirst w v) = v := by
  induction w generalizing v with
  | zero =>
    rw [Nat.pow_zero] at h
    rw [lowFirst, ofLowFirst]
    omega
  | succ w ih =>
    rw [Nat.pow_succ] at h
    have hbit : (v % 2 == 1).toNat = v % 2 := by
      obtain hv | hv := Nat.mod_two_eq_zero_or_one v <;> rw [hv] <;> rfl
    rw [lowFirst, ofLowFirst, ih (by omega), hbit]
    omega

/-- A number has no bits but those that it was made of. -/
theorem lowFirst_ofLowFirst {w : Nat} {bits : Bits} (h : bits.length ≤ w) :
    lowFirst w (ofLowFirst bits) = bits ++ List.replicate (w - bits.length) false := by
  induction w generalizing bits with
  | zero =>
    rw [List.length_eq_zero_iff.mp (Nat.le_zero.mp h)]
    rfl
  | succ w ih =>
    cases bits with
    | nil =>
      have : lowFirst w (ofLowFirst []) = [] ++ List.replicate (w - 0) false := ih (Nat.zero_le w)
      simpa [ofLowFirst, lowFirst, List.replicate_succ] using this
    | cons b bits =>
      have hb : (b.toNat + 2 * ofLowFirst bits) % 2 = b.toNat := by
        have := Bool.toNat_le b
        omega
      have hrest : (b.toNat + 2 * ofLowFirst bits) / 2 = ofLowFirst bits := by
        have := Bool.toNat_le b
        omega
      rw [List.length_cons, Nat.add_le_add_iff_right] at h
      rw [ofLowFirst, lowFirst, hb, hrest, ih h, List.length_cons, Nat.add_sub_add_right,
        List.cons_append]
      cases b <;> rfl

@[simp]
theorem length_highFirst (w v : Nat) : (highFirst w v).length = w := by
  rw [highFirst, List.length_reverse, length_lowFirst]

theorem ofHighFirst_highFirst {w v : Nat} (h : v < 2 ^ w) : ofHighFirst (highFirst w v) = v := by
  rw [ofHighFirst, highFirst, List.reverse_reverse, ofLowFirst_lowFirst h]

private theorem highFirst_succ (w v : Nat) :
    highFirst (w + 1) v = highFirst w (v / 2) ++ [v % 2 == 1] := by
  rw [highFirst, lowFirst, List.reverse_cons, highFirst]

@[simp]
theorem split?_append (front rest : Bits) :
    split? front.length (front ++ rest) = some (front, rest) := by
  induction front with
  | nil => rfl
  | cons b front ih => rw [List.length_cons, List.cons_append, split?, ih, Option.map_some]

@[simp]
theorem split?_lowFirst (w v : Nat) (rest : Bits) :
    split? w (lowFirst w v ++ rest) = some (lowFirst w v, rest) := by
  have h := split?_append (lowFirst w v) rest
  rwa [length_lowFirst] at h

theorem split?_highFirst (w v : Nat) (rest : Bits) :
    split? w (highFirst w v ++ rest) = some (highFirst w v, rest) := by
  have h := split?_append (highFirst w v) rest
  rwa [length_highFirst] at h

/-- The first bits of a number that begins with its highest one are those of its upper part. -/
theorem split?_highFirst_add (w k v : Nat) (rest : Bits) :
    ∃ low, split? w (highFirst (w + k) v ++ rest) = some (highFirst w (v / 2 ^ k), low) := by
  induction k generalizing v rest with
  | zero => exact ⟨rest, by rw [Nat.add_zero, Nat.pow_zero, Nat.div_one, split?_highFirst]⟩
  | succ k ih =>
    obtain ⟨low, hlow⟩ := ih (v / 2) ((v % 2 == 1) :: rest)
    refine ⟨low, ?_⟩
    rw [← Nat.add_assoc, highFirst_succ, List.append_assoc, List.singleton_append, hlow,
      Nat.div_div_eq_div_mul, ← Nat.pow_succ']

/-- A byte holds up to eight bits, and zeros behind them. -/
private theorem lowFirst_toNat_byte {bits : Bits} (h : bits.length ≤ 8) :
    lowFirst 8 (UInt8.ofNat (ofLowFirst bits)).toNat =
      bits ++ List.replicate (8 - bits.length) false := by
  have hlt := ofLowFirst_lt bits
  have hle := Nat.pow_le_pow_right (show 0 < 2 by decide) h
  have hbyte : (UInt8.ofNat (ofLowFirst bits)).toNat = ofLowFirst bits := by
    rw [UInt8.toNat_ofNat']
    exact Nat.mod_eq_of_lt (Nat.lt_of_lt_of_le hlt hle)
  rw [hbyte, lowFirst_ofLowFirst h]

private theorem unpack_cons (b : UInt8) (bytes : Bytes) :
    unpack (b :: bytes) = lowFirst 8 b.toNat ++ unpack bytes := List.flatMap_cons

/-- Bits are found again in the bytes that hold them. -/
theorem exists_unpack_pack (bits : Bits) : ∃ padding, unpack (pack bits) = bits ++ padding := by
  fun_induction pack bits with
  | case1 => exact ⟨[], rfl⟩
  | case2 b bits ih =>
    obtain ⟨padding, hrest⟩ := ih
    rw [unpack_cons, lowFirst_toNat_byte (List.length_take_le 8 _), hrest, List.length_take,
      ← List.drop_succ_cons (a := b)]
    by_cases hfull : 8 ≤ (b :: bits).length
    · refine ⟨padding, ?_⟩
      rw [Nat.min_eq_left hfull, Nat.sub_self, List.replicate_zero, List.append_nil,
        ← List.append_assoc, List.take_append_drop]
    · have hshort : (b :: bits).length ≤ 8 := Nat.le_of_not_le hfull
      rw [List.take_of_length_le hshort, List.drop_eq_nil_of_le hshort, List.nil_append,
        List.append_assoc]
      exact ⟨_, rfl⟩

end ThemeBuilder.Deflate
