import ThemeBuilder.Archive.Format

/-! Reading archives, in two ways: through the directory, which the last record leads to, and
from header to header from the start. -/
namespace ThemeBuilder.Archive

/-- The number whose bytes, lowest first, are given. -/
def ofNumber : Bytes → Nat
  | [] => 0
  | b :: bs => b.toNat + 0x100 * ofNumber bs

/-- Splits off exactly `n` bytes. -/
def take? : (n : Nat) → Bytes → Option (Bytes × Bytes)
  | 0, bs => some ([], bs)
  | _ + 1, [] => none
  | n + 1, b :: bs => (take? n bs).map fun (front, rest) => (b :: front, rest)

def number? (width : Nat) (bs : Bytes) : Option (Nat × Bytes) :=
  (take? width bs).map fun (front, rest) => (ofNumber front, rest)

def signature? (signature bs : Bytes) : Option Bytes :=
  if signature.isPrefixOf bs then some (bs.drop signature.length) else none

def compression? (method : Nat) : Option Compression :=
  if method = 0 then some .stored else if method = 8 then some .deflated else none

structure Header where
  flags : Nat
  compression : Compression
  stamp : Timestamp
  checksum : Nat
  storedSize : Nat
  size : Nat
  nameLength : Nat
  deriving DecidableEq

def header? (bs : Bytes) : Option (Header × Bytes) := do
  let (_, bs) ← number? 2 bs
  let (flags, bs) ← number? 2 bs
  let (method, bs) ← number? 2 bs
  let compression ← compression? method
  let (time, bs) ← number? 2 bs
  let (date, bs) ← number? 2 bs
  let (checksum, bs) ← number? 4 bs
  let (storedSize, bs) ← number? 4 bs
  let (size, bs) ← number? 4 bs
  let (nameLength, bs) ← number? 2 bs
  some (⟨flags, compression, ⟨time, date⟩, checksum, storedSize, size, nameLength⟩, bs)

structure Extracted where
  header : Header
  name : Bytes
  data : Bytes
  deriving DecidableEq

def decodeData? : Compression → Bytes → Option Bytes
  | .stored, stored => some stored
  | .deflated, stored => Deflate.decompress? stored

/-- The entry whose local header the bytes begin with, and what follows its data. Its checksum and
its size have to be right. -/
def localEntry? (bs : Bytes) : Option (Extracted × Bytes) := do
  let bs ← signature? localSignature bs
  let (header, bs) ← header? bs
  let (extraLength, bs) ← number? 2 bs
  let (name, bs) ← take? header.nameLength bs
  let (_, bs) ← take? extraLength bs
  let (stored, bs) ← take? header.storedSize bs
  let data ← decodeData? header.compression stored
  if data.length = header.size ∧ (Checksum.crc32 data).toNat = header.checksum then
    some (⟨header, name, data⟩, bs)
  else none

structure Listed where
  header : Header
  name : Bytes
  mode : Nat
  offset : Nat
  deriving DecidableEq

def directoryRecord? (bs : Bytes) : Option (Listed × Bytes) := do
  let bs ← signature? directorySignature bs
  let (_, bs) ← number? 2 bs
  let (header, bs) ← header? bs
  let (extraLength, bs) ← number? 2 bs
  let (commentLength, bs) ← number? 2 bs
  let (_, bs) ← number? 4 bs
  let (attributes, bs) ← number? 4 bs
  let (offset, bs) ← number? 4 bs
  let (name, bs) ← take? header.nameLength bs
  let (_, bs) ← take? extraLength bs
  let (_, bs) ← take? commentLength bs
  some (⟨header, name, attributes / 0x10000, offset⟩, bs)

/-- Exactly `count` records of the directory. -/
def directory? : (count : Nat) → Bytes → Option (List Listed)
  | 0, _ => some []
  | n + 1, bs => do
    let (listed, bs) ← directoryRecord? bs
    return listed :: (← directory? n bs)

/-- Where the directory is, as the last record tells. -/
structure Summary where
  count : Nat
  size : Nat
  offset : Nat
  deriving DecidableEq

/-- The last record, which has 22 bytes as it holds no comment. -/
def summary? (archive : Bytes) : Option Summary := do
  let bs ← signature? endSignature (archive.drop (archive.length - 22))
  let (_, bs) ← number? 4 bs
  let (_, bs) ← number? 2 bs
  let (count, bs) ← number? 2 bs
  let (size, bs) ← number? 4 bs
  let (offset, _) ← number? 4 bs
  some ⟨count, size, offset⟩

/-- The entry that a record of the directory leads to. Both have to agree. -/
def follow? (archive : Bytes) (listed : Listed) : Option Entry := do
  let (found, _) ← localEntry? (archive.drop listed.offset)
  if found.header = listed.header ∧ found.name = listed.name then
    some ⟨found.name, found.data, found.header.stamp, listed.mode⟩
  else none

/-- The entries of an archive in the order of its directory. -/
def read? (archive : Bytes) : Option (List Entry) := do
  let summary ← summary? archive
  let listed ← directory? summary.count (archive.drop summary.offset)
  listed.mapM (follow? archive)

/-- The entries found from header to header, `bound` at most, until no header follows. -/
def scan : (bound : Nat) → Bytes → List Extracted
  | 0, _ => []
  | n + 1, bs =>
    match localEntry? bs with
    | some (found, rest) => found :: scan n rest
    | none => []

/-- The entries of an archive found from its start, up to where its directory begins. -/
def scan? (archive : Bytes) : Option (List Extracted) := do
  let summary ← summary? archive
  some (scan summary.offset (archive.take summary.offset))

end ThemeBuilder.Archive
