import Mathlib.Data.List.Infix
import ThemeBuilder.Text.Utf8

/-! The pieces of a byte string spell it out again, and each character of a text that was encoded
is a piece of its own, whatever stands before it. So an end of a name, as text, tells the same as
that end of its bytes, unless it holds the replacement character. -/
namespace ThemeBuilder.Utf8

/-- The bytes that go on a sequence but begin none. -/
def isContinuation (b : UInt8) : Bool := 0x80 ≤ b && b ≤ 0xBF

private theorem isContinuation_iff_le {b : UInt8} :
    isContinuation b = true ↔ 0x80 ≤ b ∧ b ≤ 0xBF := by
  rw [isContinuation, Bool.and_eq_true, decide_eq_true_eq, decide_eq_true_eq]

private theorem isContinuation_iff {b : UInt8} :
    isContinuation b = true ↔ 0x80 ≤ b.toNat ∧ b.toNat ≤ 0xBF := by
  rw [isContinuation_iff_le, UInt8.le_iff_toNat_le, UInt8.le_iff_toNat_le]
  exact Iff.rfl

section LeadBytes
variable {b : UInt8}

private theorem lead?_one (h : b.toNat ≤ 0x7F) :
    lead? b = some { high := b.toNat, count := 0 } := by
  rw [lead?, if_pos (UInt8.le_iff_toNat_le.mpr h)]

private theorem lead?_two (h : 0xC2 ≤ b.toNat) (h' : b.toNat ≤ 0xDF) :
    lead? b = some { high := b.toNat - 0xC0, count := 1 } := by
  simp only [lead?, UInt8.le_iff_toNat_le, UInt8.lt_iff_toNat_lt, ← UInt8.toNat_inj]
  simp
  grind

private theorem lead?_three (h : 0xE0 ≤ b.toNat) (h' : b.toNat ≤ 0xEF) :
    lead? b = some ⟨b.toNat - 0xE0, 2, if b.toNat = 0xE0 then 0xA0 else 0x80,
      if b.toNat = 0xED then 0x9F else 0xBF⟩ := by
  simp only [lead?, UInt8.le_iff_toNat_le, UInt8.lt_iff_toNat_lt, ← UInt8.toNat_inj]
  simp
  grind

private theorem lead?_four (h : 0xF0 ≤ b.toNat) (h' : b.toNat ≤ 0xF4) :
    lead? b = some ⟨b.toNat - 0xF0, 3, if b.toNat = 0xF0 then 0x90 else 0x80,
      if b.toNat = 0xF4 then 0x8F else 0xBF⟩ := by
  simp only [lead?, UInt8.le_iff_toNat_le, UInt8.lt_iff_toNat_lt, ← UInt8.toNat_inj]
  simp
  grind

private theorem lead?_none (h : 0x7F < b.toNat ∧ b.toNat < 0xC2 ∨ 0xF4 < b.toNat) :
    lead? b = none := by
  simp only [lead?, UInt8.le_iff_toNat_le, UInt8.lt_iff_toNat_lt, ← UInt8.toNat_inj]
  simp
  grind

private theorem lead?_cases {l : Lead} (h : lead? b = some l) :
    (b.toNat ≤ 0x7F ∧ l = { high := b.toNat, count := 0 }) ∨
    (0xC2 ≤ b.toNat ∧ b.toNat ≤ 0xDF ∧ l = { high := b.toNat - 0xC0, count := 1 }) ∨
    (0xE0 ≤ b.toNat ∧ b.toNat ≤ 0xEF ∧ l = ⟨b.toNat - 0xE0, 2,
      if b.toNat = 0xE0 then 0xA0 else 0x80, if b.toNat = 0xED then 0x9F else 0xBF⟩) ∨
    (0xF0 ≤ b.toNat ∧ b.toNat ≤ 0xF4 ∧ l = ⟨b.toNat - 0xF0, 3,
      if b.toNat = 0xF0 then 0x90 else 0x80, if b.toNat = 0xF4 then 0x8F else 0xBF⟩) := by
  by_cases h1 : b.toNat ≤ 0x7F
  · rw [lead?_one h1] at h
    exact .inl ⟨h1, (Option.some.inj h).symm⟩
  by_cases h2 : 0xC2 ≤ b.toNat ∧ b.toNat ≤ 0xDF
  · rw [lead?_two h2.1 h2.2] at h
    exact .inr (.inl ⟨h2.1, h2.2, (Option.some.inj h).symm⟩)
  by_cases h3 : 0xE0 ≤ b.toNat ∧ b.toNat ≤ 0xEF
  · rw [lead?_three h3.1 h3.2] at h
    exact .inr (.inr (.inl ⟨h3.1, h3.2, (Option.some.inj h).symm⟩))
  by_cases h4 : 0xF0 ≤ b.toNat ∧ b.toNat ≤ 0xF4
  · rw [lead?_four h4.1 h4.2] at h
    exact .inr (.inr (.inr ⟨h4.1, h4.2, (Option.some.inj h).symm⟩))
  · rw [lead?_none (by omega)] at h
    cases h

/-- What may follow a lead byte are continuation bytes. -/
theorem Lead.within {l : Lead} (h : lead? b = some l) : 0x80 ≤ l.least ∧ l.greatest ≤ 0xBF := by
  obtain ⟨-, rfl⟩ | ⟨-, -, rfl⟩ | ⟨-, -, rfl⟩ | ⟨-, -, rfl⟩ := lead?_cases h
  · exact ⟨UInt8.le_refl _, UInt8.le_refl _⟩
  · exact ⟨UInt8.le_refl _, UInt8.le_refl _⟩
  · constructor <;> dsimp only <;> split <;> decide
  · constructor <;> dsimp only <;> split <;> decide

end LeadBytes

/-- The bytes that a lead byte announces, all of them. -/
structure Lead.Completes (l : Lead) (tail : Bytes) : Prop where
  length : tail.length = l.count
  first : ∀ b ∈ tail.head?, l.least ≤ b ∧ b ≤ l.greatest
  others : ∀ b ∈ tail.tail, Utf8.isContinuation b = true

/-- The value that a lead byte and the bytes after it spell. -/
def Lead.value (l : Lead) (tail : Bytes) : Nat :=
  tail.foldl (fun v t => v * 0x40 + (t.toNat - 0x80)) l.high

private theorem Lead.Completes.isContinuation {l : Lead} {tail : Bytes} (h : l.Completes tail)
    {b : UInt8} (hb : lead? b = some l) : ∀ t ∈ tail, isContinuation t = true := by
  obtain ⟨hleast, hgreatest⟩ := Lead.within hb
  cases tail with
  | nil => simp
  | cons t rest =>
    intro u hu
    obtain rfl | hu := List.mem_cons.mp hu
    · obtain ⟨hlo, hhi⟩ := h.first u rfl
      exact isContinuation_iff_le.mpr ⟨UInt8.le_trans hleast hlo, UInt8.le_trans hhi hgreatest⟩
    · exact h.others u hu

section Scanning

@[simp]
private theorem append_continuation (n : Nat) (lo hi : UInt8) (bs : Bytes) :
    (continuation n lo hi bs).1 ++ (continuation n lo hi bs).2 = bs := by
  fun_induction continuation n lo hi bs with
  | case1 n lo hi b bs h taken rest heq ih =>
    rw [heq] at ih
    exact congrArg (b :: ·) ih
  | case2 => rfl
  | case3 => rfl

private theorem isContinuation_of_mem {n : Nat} {bs : Bytes} {b : UInt8}
    (h : b ∈ (continuation n 0x80 0xBF bs).1) : isContinuation b = true := by
  induction n generalizing bs with
  | zero => simp [continuation] at h
  | succ n ih =>
    cases bs with
    | nil => simp [continuation] at h
    | cons c bs =>
      rw [continuation] at h
      split at h
      · rename_i hc
        obtain rfl | h := List.mem_cons.mp h
        · exact isContinuation_iff_le.mpr hc
        · exact ih h
      · cases h

/-- What was read after a lead byte completes it if it is long enough. -/
private theorem completes_continuation {l : Lead} {bs : Bytes}
    (h : (continuation l.count l.least l.greatest bs).1.length = l.count) :
    l.Completes (continuation l.count l.least l.greatest bs).1 := by
  refine ⟨h, ?_, ?_⟩ <;> generalize l.count = n
  · fun_cases continuation n l.least l.greatest bs <;> simp_all
  · intro b hb
    cases n with
    | zero => simp [continuation] at hb
    | succ n =>
      cases bs with
      | nil => simp [continuation] at hb
      | cons c bs =>
        rw [continuation] at hb
        split at hb
        · exact isContinuation_of_mem hb
        · cases hb

private theorem continuation_of_forall {tail : Bytes} (h : ∀ b ∈ tail, isContinuation b = true)
    (rest : Bytes) : continuation tail.length 0x80 0xBF (tail ++ rest) = (tail, rest) := by
  induction tail with
  | nil => cases rest <;> rfl
  | cons b tail ih =>
    rw [List.length_cons, List.cons_append, continuation,
      if_pos (isContinuation_iff_le.mp (h b List.mem_cons_self)),
      ih fun b hb => h b (List.mem_cons_of_mem _ hb)]

theorem Lead.Completes.continuation {l : Lead} {tail : Bytes} (h : l.Completes tail)
    (rest : Bytes) : continuation l.count l.least l.greatest (tail ++ rest) = (tail, rest) := by
  rw [← h.length]
  cases tail with
  | nil => cases rest <;> rfl
  | cons b tail =>
    have hothers : ∀ c ∈ tail, Utf8.isContinuation c = true := h.others
    rw [List.length_cons, List.cons_append, Utf8.continuation, if_pos (h.first b rfl),
      continuation_of_forall hothers]

/-- A sequence that breaks off is not gone on with by what comes after, if that begins with no
continuation byte. -/
private theorem continuation_append {n : Nat} {lo hi : UInt8} (hlo : 0x80 ≤ lo) (hhi : hi ≤ 0xBF)
    {after : Bytes} (h : ∀ b ∈ after.head?, isContinuation b = false) (bs : Bytes) :
    continuation n lo hi (bs ++ after) =
      ((continuation n lo hi bs).1, (continuation n lo hi bs).2 ++ after) := by
  induction n generalizing lo hi bs with
  | zero => cases bs <;> cases after <;> rfl
  | succ n ih =>
    cases bs with
    | cons b bs =>
      rw [List.cons_append, continuation, continuation]
      split
      · rw [ih (by decide) (by decide)]
      · rfl
    | nil =>
      cases after with
      | nil => rfl
      | cons c after =>
        have hc : ¬(lo ≤ c ∧ c ≤ hi) := fun hc =>
          absurd (isContinuation_iff_le.mpr ⟨UInt8.le_trans hlo hc.1, UInt8.le_trans hc.2 hhi⟩)
            (Bool.eq_false_iff.mp (h c rfl))
        rw [List.nil_append, continuation, if_neg hc]
        rfl

end Scanning

private theorem toNat_byte {n : Nat} (h : n < 0x100) : (UInt8.ofNat n).toNat = n := by
  rw [UInt8.toNat_ofNat']
  exact Nat.mod_eq_of_lt h

private theorem byte_eq {n : Nat} {b : UInt8} (h : n = b.toNat) : UInt8.ofNat n = b := by
  rw [h, UInt8.ofNat_toNat]

private theorem toNat_char {n : Nat} (h : n < 0xD800 ∨ 0xDFFF < n ∧ n < 0x110000) :
    (Char.ofNat n).toNat = n := by
  rw [Char.ofNat, dif_pos (show n.isValidChar from h)]
  rfl

section Sequences
variable {b t u w : UInt8}

private theorem encodeChar_one (hb : b.toNat ≤ 0x7F) : encodeChar (Char.ofNat b.toNat) = [b] := by
  simp only [encodeChar, toNat_char (n := b.toNat) (by omega)]
  rw [if_pos (by omega), byte_eq rfl]

private theorem encodeChar_two (hb : 0xC2 ≤ b.toNat ∧ b.toNat ≤ 0xDF)
    (ht : isContinuation t = true) :
    encodeChar (Char.ofNat ((b.toNat - 0xC0) * 0x40 + (t.toNat - 0x80))) = [b, t] := by
  rw [isContinuation_iff] at ht
  generalize hn : (b.toNat - 0xC0) * 0x40 + (t.toNat - 0x80) = n
  simp only [encodeChar, toNat_char (n := n) (by omega)]
  rw [if_neg (by omega), if_pos (by omega), byte_eq (b := b) (by omega),
    byte_eq (b := t) (by omega)]

private theorem encodeChar_three (hb : 0xE0 ≤ b.toNat ∧ b.toNat ≤ 0xEF)
    (ht : isContinuation t = true)
    (hleast : b.toNat = 0xE0 → 0xA0 ≤ t.toNat) (hgreatest : b.toNat = 0xED → t.toNat ≤ 0x9F)
    (hu : isContinuation u = true) :
    encodeChar (Char.ofNat (((b.toNat - 0xE0) * 0x40 + (t.toNat - 0x80)) * 0x40 +
      (u.toNat - 0x80))) = [b, t, u] := by
  rw [isContinuation_iff] at ht hu
  generalize hn : ((b.toNat - 0xE0) * 0x40 + (t.toNat - 0x80)) * 0x40 + (u.toNat - 0x80) = n
  -- the least byte after E0 rules out overlong forms, the greatest after ED surrogates
  simp only [encodeChar, toNat_char (n := n) (by omega)]
  rw [if_neg (by omega), if_neg (by omega), if_pos (by omega), byte_eq (b := b) (by omega),
    byte_eq (b := t) (by omega), byte_eq (b := u) (by omega)]

private theorem encodeChar_four (hb : 0xF0 ≤ b.toNat ∧ b.toNat ≤ 0xF4)
    (ht : isContinuation t = true)
    (hleast : b.toNat = 0xF0 → 0x90 ≤ t.toNat) (hgreatest : b.toNat = 0xF4 → t.toNat ≤ 0x8F)
    (hu : isContinuation u = true) (hw : isContinuation w = true) :
    encodeChar (Char.ofNat ((((b.toNat - 0xF0) * 0x40 + (t.toNat - 0x80)) * 0x40 +
      (u.toNat - 0x80)) * 0x40 + (w.toNat - 0x80))) = [b, t, u, w] := by
  rw [isContinuation_iff] at ht hu hw
  generalize hn : (((b.toNat - 0xF0) * 0x40 + (t.toNat - 0x80)) * 0x40 +
    (u.toNat - 0x80)) * 0x40 + (w.toNat - 0x80) = n
  -- likewise after F0, and after F4 values above U+10FFFF
  simp only [encodeChar, toNat_char (n := n) (by omega)]
  rw [if_neg (by omega), if_neg (by omega), if_neg (by omega), byte_eq (b := b) (by omega),
    byte_eq (b := t) (by omega), byte_eq (b := u) (by omega), byte_eq (b := w) (by omega)]

/-- A lead byte and a tail that completes it are the encoding of the character that they spell. -/
private theorem encodeChar_value {l : Lead} {tail : Bytes} (hb : lead? b = some l)
    (h : l.Completes tail) : encodeChar (Char.ofNat (l.value tail)) = b :: tail := by
  have hall := h.isContinuation hb
  obtain ⟨hle, rfl⟩ | ⟨hge, hle, rfl⟩ | ⟨hge, hle, rfl⟩ | ⟨hge, hle, rfl⟩ := lead?_cases hb
  · obtain rfl := List.length_eq_zero_iff.mp h.length
    exact encodeChar_one hle
  · obtain ⟨t, rfl⟩ := List.length_eq_one_iff.mp h.length
    exact encodeChar_two ⟨hge, hle⟩ (hall t (by simp))
  · obtain ⟨t, u, rfl⟩ := List.length_eq_two.mp h.length
    obtain ⟨hlo, hhi⟩ := h.first t rfl
    refine encodeChar_three ⟨hge, hle⟩ (hall t (by simp)) ?_ ?_ (hall u (by simp))
    · intro he
      rw [if_pos he] at hlo
      exact UInt8.le_iff_toNat_le.mp hlo
    · intro he
      rw [if_pos he] at hhi
      exact UInt8.le_iff_toNat_le.mp hhi
  · obtain ⟨t, u, w, rfl⟩ := List.length_eq_three.mp h.length
    obtain ⟨hlo, hhi⟩ := h.first t rfl
    refine encodeChar_four ⟨hge, hle⟩ (hall t (by simp)) ?_ ?_ (hall u (by simp)) (hall w (by simp))
    · intro he
      rw [if_pos he] at hlo
      exact UInt8.le_iff_toNat_le.mp hlo
    · intro he
      rw [if_pos he] at hhi
      exact UInt8.le_iff_toNat_le.mp hhi

end Sequences

/-- The encoding of a character is a lead byte and a tail that completes it. -/
private theorem exists_encodeChar (c : Char) :
    ∃ b l tail, encodeChar c = b :: tail ∧ lead? b = some l ∧
      l.Completes tail ∧ l.value tail = c.toNat := by
  have hc : c.toNat < 0xD800 ∨ 0xDFFF < c.toNat ∧ c.toNat < 0x110000 := c.valid
  unfold encodeChar
  dsimp only
  generalize c.toNat = v at hc
  split
  · have hb := toNat_byte (n := v) (by omega)
    exact ⟨_, _, _, rfl, lead?_one (by omega), ⟨rfl, by simp, by simp⟩, hb⟩
  split
  · have hb := toNat_byte (n := 0xC0 + v / 0x40) (by omega)
    have ht := toNat_byte (n := 0x80 + v % 0x40) (by omega)
    refine ⟨_, _, _, rfl, lead?_two (by omega) (by omega), ⟨rfl, ?_, by simp⟩, ?_⟩
    · simp [UInt8.le_iff_toNat_le]
      omega
    · simp [Lead.value]
      omega
  split
  · have hb := toNat_byte (n := 0xE0 + v / 0x1000) (by omega)
    have ht := toNat_byte (n := 0x80 + v / 0x40 % 0x40) (by omega)
    have hu := toNat_byte (n := 0x80 + v % 0x40) (by omega)
    refine ⟨_, _, _, rfl, lead?_three (by omega) (by omega), ⟨rfl, ?_, ?_⟩, ?_⟩
    · simp only [List.head?_cons, Option.mem_some_iff, forall_eq', UInt8.le_iff_toNat_le]
      split_ifs <;> simp <;> omega
    · simp [isContinuation_iff]
      omega
    · simp [Lead.value]
      omega
  · have hb := toNat_byte (n := 0xF0 + v / 0x40000) (by omega)
    have ht := toNat_byte (n := 0x80 + v / 0x1000 % 0x40) (by omega)
    have hu := toNat_byte (n := 0x80 + v / 0x40 % 0x40) (by omega)
    have hw := toNat_byte (n := 0x80 + v % 0x40) (by omega)
    refine ⟨_, _, _, rfl, lead?_four (by omega) (by omega), ⟨rfl, ?_, ?_⟩, ?_⟩
    · simp only [List.head?_cons, Option.mem_some_iff, forall_eq', UInt8.le_iff_toNat_le]
      split_ifs <;> simp <;> omega
    · simp [isContinuation_iff]
      omega
    · simp [Lead.value]
      omega

/-- Characters are encoded as in a string. -/
theorem encodeChar_eq_utf8EncodeChar (c : Char) : encodeChar c = String.utf8EncodeChar c := by
  have hc : c.toNat < 0xD800 ∨ 0xDFFF < c.toNat ∧ c.toNat < 0x110000 := c.valid
  unfold encodeChar String.utf8EncodeChar
  rw [show c.val.toNat = c.toNat from rfl]
  dsimp only
  generalize c.toNat = v at hc
  by_cases h1 : v < 0x80
  · rw [if_pos h1, if_pos (by omega)]
  by_cases h2 : v < 0x800
  · rw [if_neg h1, if_pos h2, if_neg (by omega), if_pos (by omega),
      show v / 64 % 0x20 + 0xC0 = 0xC0 + v / 0x40 by omega, Nat.add_comm 0x80]
  by_cases h3 : v < 0x10000
  · rw [if_neg h1, if_neg h2, if_pos h3, if_neg (by omega), if_neg (by omega), if_pos (by omega),
      show v / 4096 % 0x10 + 0xE0 = 0xE0 + v / 0x1000 by omega, Nat.add_comm 0x80,
      Nat.add_comm 0x80]
  · rw [if_neg h1, if_neg h2, if_neg h3, if_neg (by omega), if_neg (by omega), if_neg (by omega),
      show v / 262144 % 0x08 + 0xF0 = 0xF0 + v / 0x40000 by omega, Nat.add_comm 0x80,
      Nat.add_comm 0x80, Nat.add_comm 0x80]

/-- No encoded text begins with a continuation byte. -/
private theorem isContinuation_head?_encodeChars (cs : List Char) :
    ∀ b ∈ (encodeChars cs).head?, isContinuation b = false := by
  cases cs with
  | nil => simp [encodeChars]
  | cons c cs =>
    obtain ⟨b, l, tail, hc, hb, -⟩ := exists_encodeChar c
    rw [encodeChars, List.flatMap_cons, hc]
    rintro _ ⟨⟩
    rw [← Bool.not_eq_true, isContinuation_iff]
    intro hcont
    rw [lead?_none (by omega)] at hb
    cases hb

section Pieces

/-- The bytes that a piece was read from. -/
def Piece.bytes : Piece → Bytes
  | .scalar c => encodeChar c
  | .malformed bytes => bytes

@[simp]
private theorem append_firstPiece (b : UInt8) (bs : Bytes) :
    (firstPiece b bs).1.bytes ++ (firstPiece b bs).2 = b :: bs := by
  unfold firstPiece
  split
  · rfl
  · rename_i l hl
    have happend := append_continuation l.count l.least l.greatest bs
    dsimp only
    split
    · rename_i hlength
      have hchar := encodeChar_value hl (completes_continuation hlength)
      rw [Lead.value] at hchar
      rw [Piece.bytes, hchar, List.cons_append, happend]
    · exact congrArg (b :: ·) happend

private theorem firstPiece_of_completes {b : UInt8} {l : Lead} {tail : Bytes}
    (hb : lead? b = some l) (h : l.Completes tail) (rest : Bytes) :
    firstPiece b (tail ++ rest) = (.scalar (Char.ofNat (l.value tail)), rest) := by
  rw [firstPiece, hb]
  dsimp only
  rw [h.continuation, if_pos h.length]
  rfl

private theorem firstPiece_append (b : UInt8) (bs : Bytes) {after : Bytes}
    (h : ∀ c ∈ after.head?, isContinuation c = false) :
    firstPiece b (bs ++ after) = ((firstPiece b bs).1, (firstPiece b bs).2 ++ after) := by
  unfold firstPiece
  split
  · rfl
  · rename_i l hl
    obtain ⟨hlo, hhi⟩ := Lead.within hl
    rw [continuation_append hlo hhi h]
    dsimp only
    split <;> rfl

/-- Nothing of a byte string is lost between its pieces. -/
@[simp]
theorem flatMap_bytes_pieces (bs : Bytes) : (pieces bs).flatMap Piece.bytes = bs := by
  fun_induction pieces bs with
  | case1 => rfl
  | case2 b bs ih => rw [List.flatMap_cons, ih, append_firstPiece]

/-- No piece reaches over into a text that begins with no continuation byte. -/
private theorem pieces_append (bs : Bytes) {after : Bytes}
    (h : ∀ c ∈ after.head?, isContinuation c = false) :
    pieces (bs ++ after) = pieces bs ++ pieces after := by
  fun_induction pieces bs with
  | case1 => rfl
  | case2 b bs ih => rw [List.cons_append, pieces, firstPiece_append b bs h, ih, List.cons_append]

@[simp]
theorem pieces_encodeChar_append (c : Char) (rest : Bytes) :
    pieces (encodeChar c ++ rest) = .scalar c :: pieces rest := by
  obtain ⟨b, l, tail, hc, hb, htail, hvalue⟩ := exists_encodeChar c
  rw [hc, List.cons_append, pieces, firstPiece_of_completes hb htail, hvalue, Char.ofNat_toNat]

theorem pieces_encodeChars_append (cs : List Char) (rest : Bytes) :
    pieces (encodeChars cs ++ rest) = cs.map .scalar ++ pieces rest := by
  induction cs with
  | nil => rfl
  | cons c cs ih =>
    rw [encodeChars, List.flatMap_cons, List.append_assoc, pieces_encodeChar_append, ← encodeChars,
      ih, List.map_cons, List.cons_append]

@[simp]
theorem pieces_encodeChars (cs : List Char) : pieces (encodeChars cs) = cs.map .scalar := by
  have h := pieces_encodeChars_append cs []
  rwa [List.append_nil, pieces, List.append_nil] at h

@[simp]
theorem flatMap_bytes_scalar (cs : List Char) :
    (cs.map Piece.scalar).flatMap Piece.bytes = encodeChars cs := by
  rw [List.flatMap_map]
  rfl

/-- Nothing is lost where a valid byte string is shown. -/
theorem encodeChars_lossyChars {bs : Bytes} (h : valid bs = true) :
    encodeChars (lossyChars bs) = bs := by
  have hscalar : ∀ p ∈ pieces bs, Piece.scalar p.shown = p := by
    intro p hp
    cases p with
    | scalar c => rfl
    | malformed bytes => cases List.all_eq_true.mp h _ hp
  have hpieces : (lossyChars bs).map Piece.scalar = pieces bs := by
    rw [lossyChars, List.map_map]
    exact (List.map_congr_left hscalar).trans (List.map_id _)
  rw [← flatMap_bytes_scalar, hpieces, flatMap_bytes_pieces]

@[simp]
theorem valid_encodeChars (cs : List Char) : valid (encodeChars cs) = true := by
  rw [valid, pieces_encodeChars, List.all_map]
  exact List.all_eq_true.mpr fun _ _ => rfl

end Pieces

section Shown
variable {cs : List Char} {bs : Bytes}

/-- Only the replacement character is shown for anything but itself. -/
theorem map_shown_eq_iff {ps : List Piece} (hcs : '\uFFFD' ∉ cs) :
    ps.map Piece.shown = cs ↔ ps = cs.map .scalar := by
  induction cs generalizing ps with
  | nil => simp
  | cons c cs ih =>
    obtain ⟨hc, hcs⟩ := not_or.mp (List.mem_cons.not.mp hcs)
    cases ps with
    | nil => simp
    | cons p ps =>
      have hp : p.shown = c ↔ p = .scalar c := by
        cases p with
        | scalar d => simp [Piece.shown]
        | malformed bytes => simp [Piece.shown, hc]
      rw [List.map_cons, List.map_cons, List.cons.injEq, List.cons.injEq, hp, ih hcs]

theorem isPrefix_lossyChars_iff (hcs : '\uFFFD' ∉ cs) :
    cs <+: lossyChars bs ↔ encodeChars cs <+: bs := by
  constructor
  · rintro ⟨back, h⟩
    obtain ⟨ps, qs, hpieces, hps, -⟩ := List.map_eq_append_iff.mp h.symm
    rw [map_shown_eq_iff hcs] at hps
    rw [← flatMap_bytes_pieces bs, hpieces, hps, List.flatMap_append, flatMap_bytes_scalar]
    exact List.prefix_append _ _
  · rintro ⟨back, rfl⟩
    rw [lossyChars, pieces_encodeChars_append, List.map_append, (map_shown_eq_iff hcs).mpr rfl]
    exact List.prefix_append _ _

theorem isSuffix_lossyChars_iff (hcs : '\uFFFD' ∉ cs) :
    cs <:+ lossyChars bs ↔ encodeChars cs <:+ bs := by
  constructor
  · rintro ⟨front, h⟩
    obtain ⟨ps, qs, hpieces, -, hqs⟩ := List.map_eq_append_iff.mp h.symm
    rw [map_shown_eq_iff hcs] at hqs
    rw [← flatMap_bytes_pieces bs, hpieces, hqs, List.flatMap_append, flatMap_bytes_scalar]
    exact List.suffix_append _ _
  · rintro ⟨front, rfl⟩
    rw [lossyChars, pieces_append front (isContinuation_head?_encodeChars cs), pieces_encodeChars,
      List.map_append, (map_shown_eq_iff hcs).mpr rfl]
    exact List.suffix_append _ _

end Shown
end ThemeBuilder.Utf8
