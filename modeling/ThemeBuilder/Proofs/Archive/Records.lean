import ThemeBuilder.Proofs.Archive.Compression

/-! What stands at fixed places of an archive's records, read there without walking the archive. The
fields are those that do not grow with the data, so no limit on the archive is needed. -/
namespace ThemeBuilder.Archive

/-- The number in `width` bytes at a place. -/
def numberAt? (width place : Nat) (bs : Bytes) : Option Nat :=
  (number? width (bs.drop place)).map Prod.fst

/-- Where a kind of record has the fields that all records share, and where the name. -/
structure Layout where
  signature : Bytes
  shared : Nat
  name : Nat

def localLayout : Layout := ⟨localSignature, 4, 30⟩

def directoryLayout : Layout := ⟨directorySignature, 6, 46⟩

/-- What every record of an entry tells, whatever the form and the size of the data. -/
structure Title where
  flags : Nat
  stamp : Timestamp
  checksum : Nat
  name : Bytes
  deriving DecidableEq

/-- The title in the record that the bytes begin with. -/
def Layout.title? (l : Layout) (bs : Bytes) : Option Title := do
  let _ ← signature? l.signature bs
  let flags ← numberAt? 2 (l.shared + 2) bs
  let time ← numberAt? 2 (l.shared + 6) bs
  let date ← numberAt? 2 (l.shared + 8) bs
  let checksum ← numberAt? 4 (l.shared + 10) bs
  let nameLength ← numberAt? 2 (l.shared + 22) bs
  let (name, _) ← take? nameLength (bs.drop l.name)
  some ⟨flags, ⟨time, date⟩, checksum, name⟩

def Entry.title (e : Entry) : Title :=
  ⟨flags e.name, e.stamp, (Checksum.crc32 e.data).toNat, e.name⟩

/-- All fields of an entry but its data fit. -/
structure Entry.Titled (e : Entry) : Prop where
  name : e.name.length ≤ longestName
  time : e.stamp.time < 2 ^ 16
  date : e.stamp.date < 2 ^ 16
  mode : e.mode < 2 ^ 16

private theorem numberAt?_of_drop {width place v : Nat} {bs rest : Bytes} (hv : v < 256 ^ width)
    (h : bs.drop place = number width v ++ rest) : numberAt? width place bs = some v := by
  rw [numberAt?, h, number?_number hv, Option.map_some]

/-- The shared fields, and behind them the name, stand where the layout has them. -/
private theorem title?_append (l : Layout) (front : Bytes) {p : Packed} (h : p.entry.Titled)
    (middle : Bytes) (hfront : (l.signature ++ front).length = l.shared)
    (hname : l.shared + (commonFields p ++ middle).length = l.name) (rest : Bytes) :
    l.title? (l.signature ++ front ++ (commonFields p ++ middle ++ (p.entry.name ++ rest))) =
      some p.entry.title := by
  generalize hbs : l.signature ++ front ++ (commonFields p ++ middle ++ (p.entry.name ++ rest)) = bs
  have hdrop (k : Nat) : bs.drop (l.shared + k) =
      (commonFields p ++ (middle ++ (p.entry.name ++ rest))).drop k := by
    rw [← hbs, ← hfront, ← List.drop_drop, List.drop_left, List.append_assoc]
  have hsignature : signature? l.signature bs = some (bs.drop l.signature.length) := by
    rw [← hbs, List.append_assoc, signature?_append, List.drop_left]
  have hflags : numberAt? 2 (l.shared + 2) bs = some (flags p.entry.name) :=
    numberAt?_of_drop (flags_lt _) (hdrop 2)
  have htime : numberAt? 2 (l.shared + 6) bs = some p.entry.stamp.time :=
    numberAt?_of_drop h.time (hdrop 6)
  have hdate : numberAt? 2 (l.shared + 8) bs = some p.entry.stamp.date :=
    numberAt?_of_drop h.date (hdrop 8)
  have hchecksum : numberAt? 4 (l.shared + 10) bs = some (Checksum.crc32 p.entry.data).toNat :=
    numberAt?_of_drop (UInt32.toNat_lt _) (hdrop 10)
  have hlength : numberAt? 2 (l.shared + 22) bs = some p.entry.name.length :=
    numberAt?_of_drop (Nat.lt_succ_of_le h.name) (hdrop 22)
  have htake : take? p.entry.name.length (bs.drop l.name) = some (p.entry.name, rest) := by
    rw [← hname, hdrop, ← List.append_assoc, List.drop_left, take?_append]
  simp only [Layout.title?, hsignature, hflags, htime, hdate, hchecksum, hlength, htake,
    Option.bind_eq_bind, Option.bind_some]
  rfl

private theorem title?_localRecord {p : Packed} (h : p.entry.Titled) (rest : Bytes) :
    localLayout.title? (localRecord p ++ rest) = some p.entry.title := by
  have := title?_append localLayout [] h (number 2 0) rfl
    (by rw [List.length_append, length_commonFields, length_number]; rfl) (p.stored ++ rest)
  simpa only [localRecord, List.append_assoc, List.append_nil, localLayout] using this

private theorem title?_directoryRecord {p : Packed} (h : p.entry.Titled) (offset : Nat)
    (rest : Bytes) :
    directoryLayout.title? (directoryRecord p offset ++ rest) = some p.entry.title := by
  have := title?_append directoryLayout (number 2 madeBy) h (number 2 0 ++ number 2 0 ++
      number 2 0 ++ number 2 0 ++ number 4 (p.entry.mode * 0x10000) ++ number 4 offset) rfl
    (by simp only [List.length_append, length_commonFields, length_number]; rfl) rest
  simpa only [directoryRecord, List.append_assoc, directoryLayout] using this

private theorem mode_directoryRecord {p : Packed} (h : p.entry.Titled) (offset : Nat)
    (rest : Bytes) :
    numberAt? 4 38 (directoryRecord p offset ++ rest) = some (p.entry.mode * 0x10000) := by
  have hmode : p.entry.mode * 0x10000 < 256 ^ 4 := by
    have := h.mode
    omega
  have hdrop : (directoryRecord p offset ++ rest).drop 38 =
      number 4 (p.entry.mode * 0x10000) ++ (number 4 offset ++ p.entry.name ++ rest) := by
    simp only [directoryRecord, List.append_assoc]
    rfl
  exact numberAt?_of_drop hmode hdrop

private theorem offset_directoryRecord (p : Packed) {offset : Nat} (h : offset < 2 ^ 32)
    (rest : Bytes) : numberAt? 4 42 (directoryRecord p offset ++ rest) = some offset := by
  have hdrop : (directoryRecord p offset ++ rest).drop 42 =
      number 4 offset ++ (p.entry.name ++ rest) := by
    simp only [directoryRecord, List.append_assoc]
    rfl
  exact numberAt?_of_drop h hdrop

/-- The data begins behind the name. -/
private theorem drop_localRecord (p : Packed) (rest : Bytes) :
    (localRecord p ++ rest).drop (30 + p.entry.name.length) = p.stored ++ rest := by
  have hfront : (localSignature ++ commonFields p ++ number 2 0 ++ p.entry.name).length =
      30 + p.entry.name.length := by
    simp only [List.length_append, length_commonFields, length_number]
    rfl
  rw [← hfront, localRecord, List.append_assoc _ p.stored, List.drop_left]

/-- The entry stands in an archive with its local header at one place and its record of the
directory at another. Both tell of it. The record has its mode and leads to the header, and behind
the header is its data. -/
structure Entry.Stands (e : Entry) (c : Compression) (archive : Bytes) (header record : Nat) :
    Prop where
  told : localLayout.title? (archive.drop header) = some e.title
  listed : directoryLayout.title? (archive.drop record) = some e.title
  mode : numberAt? 4 38 (archive.drop record) = some (e.mode * 0x10000)
  offset : header < 2 ^ 32 → numberAt? 4 42 (archive.drop record) = some header
  data : ∃ held rest, archive.drop (header + (30 + e.name.length)) = held ++ rest ∧
    decodeData? c held = some e.data

/-- The place of the local header behind those of the entries before it. -/
def headerPlace (c : Compression) (before : List Entry) : Nat :=
  (localRecords (before.map (Entry.pack c))).length

/-- The place of the record of the directory, in an archive of the entries `es`. -/
def recordPlace (c : Compression) (es before : List Entry) : Nat :=
  headerPlace c es + (directory 0 (before.map (Entry.pack c))).length

theorem directory_append (offset : Nat) (ps qs : List Packed) : directory offset (ps ++ qs) =
    directory offset ps ++ directory (offset + (localRecords ps).length) qs := by
  induction ps generalizing offset with
  | nil => rfl
  | cons p ps ih =>
    rw [List.cons_append, directory, directory, ih, localRecords_cons, List.length_append,
      Nat.add_assoc, List.append_assoc]

section
variable (c : Compression) (before : List Entry) (e : Entry) (after : List Entry)

private theorem drop_headerPlace :
    ∃ rest, (encode c (before ++ e :: after)).drop (headerPlace c before) =
      localRecord (e.pack c) ++ rest := by
  refine ⟨localRecords (after.map (Entry.pack c)) ++
    trailer ((before ++ e :: after).map (Entry.pack c)), ?_⟩
  rw [encode_eq_assemble, assemble, localRecords, List.map_append, List.flatMap_append,
    List.append_assoc, headerPlace, localRecords, List.drop_left, List.map_cons, List.flatMap_cons,
    List.append_assoc]
  rfl

private theorem drop_recordPlace : ∃ rest,
    (encode c (before ++ e :: after)).drop (recordPlace c (before ++ e :: after) before) =
      directoryRecord (e.pack c) (headerPlace c before) ++ rest := by
  rw [encode_eq_assemble, assemble, recordPlace, headerPlace, ← List.drop_drop, List.drop_left,
    trailer, List.map_append, directory_append, List.append_assoc, List.drop_left, Nat.zero_add,
    List.map_cons, directory, List.append_assoc]
  exact ⟨_, rfl⟩

/-- Whatever stands before and after it and however much that is, an entry can be read. -/
theorem stands_encode (h : e.Titled) : e.Stands c (encode c (before ++ e :: after))
    (headerPlace c before) (recordPlace c (before ++ e :: after) before) := by
  obtain ⟨behind, hheader⟩ := drop_headerPlace c before e after
  obtain ⟨rest, hrecord⟩ := drop_recordPlace c before e after
  constructor
  · rw [hheader, title?_localRecord (p := e.pack c) h]
    rfl
  · rw [hrecord, title?_directoryRecord (p := e.pack c) h]
    rfl
  · rw [hrecord, mode_directoryRecord (p := e.pack c) h]
    rfl
  · intro hoffset
    rw [hrecord, offset_directoryRecord _ hoffset]
  · refine ⟨encodeData c e.data, behind, ?_, decodeData?_encodeData c e.data⟩
    rw [← List.drop_drop, hheader]
    exact drop_localRecord (e.pack c) behind

end
end ThemeBuilder.Archive
