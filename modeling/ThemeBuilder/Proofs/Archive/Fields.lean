import Mathlib.Algebra.Group.Nat.Defs
import ThemeBuilder.Archive.Reader

/-! Reading the fields of an archive: whatever follows a field, its reader finds what was written
and leaves what follows. -/
namespace ThemeBuilder.Archive

@[simp]
theorem length_number (width v : Nat) : (number width v).length = width := by
  induction width generalizing v with
  | zero => rfl
  | succ w ih => rw [number, List.length_cons, ih]

theorem ofNumber_number {width v : Nat} (h : v < 256 ^ width) : ofNumber (number width v) = v := by
  induction width generalizing v with
  | zero =>
    rw [Nat.pow_zero] at h
    rw [number, ofNumber]
    omega
  | succ w ih =>
    have hrest : v / 256 < 256 ^ w := by
      rw [Nat.pow_succ] at h
      exact Nat.div_lt_of_lt_mul (by omega)
    have hbyte : (UInt8.ofNat (v % 256)).toNat = v % 256 := by
      rw [UInt8.toNat_ofNat']
      exact Nat.mod_mod_of_dvd v (by decide)
    rw [number, ofNumber, ih hrest, hbyte]
    omega

@[simp]
theorem take?_append (front rest : Bytes) :
    take? front.length (front ++ rest) = some (front, rest) := by
  induction front with
  | nil => rfl
  | cons b front ih => rw [List.length_cons, List.cons_append, take?, ih, Option.map_some]

theorem number?_number {width v : Nat} (h : v < 256 ^ width) (rest : Bytes) :
    number? width (number width v ++ rest) = some (v, rest) := by
  have := take?_append (number width v) rest
  rw [length_number] at this
  rw [number?, this, Option.map_some]
  exact congrArg (fun n => some (n, rest)) (ofNumber_number h)

theorem number?_two {v : Nat} (h : v < 2 ^ 16) (rest : Bytes) :
    number? 2 (number 2 v ++ rest) = some (v, rest) :=
  number?_number h rest

theorem number?_four {v : Nat} (h : v < 2 ^ 32) (rest : Bytes) :
    number? 4 (number 4 v ++ rest) = some (v, rest) :=
  number?_number h rest

@[simp]
theorem signature?_append (signature rest : Bytes) :
    signature? signature (signature ++ rest) = some rest := by
  have : signature.isPrefixOf (signature ++ rest) = true :=
    List.isPrefixOf_iff_prefix.mpr (List.prefix_append signature rest)
  rw [signature?, if_pos this, List.drop_left]

@[simp]
theorem compression?_methodNumber (c : Compression) : compression? (methodNumber c) = some c := by
  cases c <;> rfl

private theorem versionNeeded_lt (c : Compression) (name : Bytes) :
    versionNeeded c name < 2 ^ 16 := by
  unfold versionNeeded
  split <;> decide

theorem flags_lt (name : Bytes) : flags name < 2 ^ 16 := by
  unfold flags
  split <;> decide

private theorem methodNumber_lt (c : Compression) : methodNumber c < 2 ^ 16 := by
  cases c <;> decide

/-- The numbers of an entry fit their fields. -/
structure Packed.Sized (p : Packed) : Prop where
  name : p.entry.name.length ≤ longestName
  time : p.entry.stamp.time < 2 ^ 16
  date : p.entry.stamp.date < 2 ^ 16
  mode : p.entry.mode < 2 ^ 16
  stored : p.stored.length < 2 ^ 32
  size : p.entry.data.length < 2 ^ 32

/-- The numbers of an entry fit their fields, and its data can be had back. -/
structure Packed.Fits (p : Packed) : Prop extends p.Sized where
  decodes : decodeData? p.compression p.stored = some p.entry.data

/-- The shared fields as a reader finds them. -/
def Packed.header (p : Packed) : Header where
  flags := flags p.entry.name
  compression := p.compression
  stamp := p.entry.stamp
  checksum := (Checksum.crc32 p.entry.data).toNat
  storedSize := p.stored.length
  size := p.entry.data.length
  nameLength := p.entry.name.length

/-- The entry as it is found behind its local header. -/
def Packed.extracted (p : Packed) : Extracted := ⟨p.header, p.entry.name, p.entry.data⟩

/-- The record of the directory for an entry whose local header begins at `offset`. -/
def Packed.listed (p : Packed) (offset : Nat) : Listed :=
  ⟨p.header, p.entry.name, p.entry.mode, offset⟩

private theorem header?_commonFields {p : Packed} (h : p.Sized) (rest : Bytes) :
    header? (commonFields p ++ rest) = some (p.header, rest) := by
  have hname : p.entry.name.length < 2 ^ 16 := Nat.lt_succ_of_le h.name
  have hcrc : (Checksum.crc32 p.entry.data).toNat < 2 ^ 32 := UInt32.toNat_lt _
  simp only [header?, commonFields, List.append_assoc, Option.bind_eq_bind, Option.bind_some,
    number?_two (versionNeeded_lt ..), number?_two (flags_lt _), number?_two (methodNumber_lt _),
    compression?_methodNumber, number?_two h.time, number?_two h.date, number?_four hcrc,
    number?_four h.stored, number?_four h.size, number?_two hname]
  rfl

theorem localEntry?_localRecord {p : Packed} (h : p.Fits) (rest : Bytes) :
    localEntry? (localRecord p ++ rest) = some (p.extracted, rest) := by
  simp only [localRecord, localEntry?, List.append_assoc, Option.bind_eq_bind, Option.bind_some,
    signature?_append, header?_commonFields h.toSized, number?_two (show 0 < 2 ^ 16 by decide)]
  simp only [Packed.header, take?_append, Option.bind_some, take?, h.decodes, and_self, if_true]
  rfl

theorem directoryRecord?_directoryRecord {p : Packed} (h : p.Sized) {offset : Nat}
    (ho : offset < 2 ^ 32) (rest : Bytes) :
    directoryRecord? (directoryRecord p offset ++ rest) = some (p.listed offset, rest) := by
  -- the disk and the internal attributes, of two bytes each, are read as one number
  have hdisk (rest : Bytes) : number? 4 (number 2 0 ++ (number 2 0 ++ rest)) = some (0, rest) :=
    number?_four (v := 0) (by decide) rest
  have hmode : p.entry.mode * 0x10000 < 2 ^ 32 := by
    have := h.mode
    omega
  simp only [directoryRecord?, directoryRecord, List.append_assoc, Option.bind_eq_bind,
    Option.bind_some, signature?_append, number?_two (show madeBy < 2 ^ 16 by decide),
    header?_commonFields h, number?_two (show 0 < 2 ^ 16 by decide), hdisk, number?_four hmode,
    number?_four ho]
  simp only [Packed.header, take?_append, Option.bind_some, take?,
    Nat.mul_div_cancel _ (show 0 < 0x10000 by decide)]
  rfl

end ThemeBuilder.Archive
