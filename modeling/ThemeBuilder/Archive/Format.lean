import ThemeBuilder.Archive.Checksum
import ThemeBuilder.Archive.Timestamp
import ThemeBuilder.Config
import ThemeBuilder.Deflate.Stream

/-! The bytes of a zip archive: for each entry a local header with its name and its data, then a
directory that repeats the headers and tells where they are, and a record that ends it. -/
namespace ThemeBuilder.Archive

/-- A number in `width` bytes, lowest first. -/
def number : (width : Nat) → Nat → Bytes
  | 0, _ => []
  | w + 1, v => UInt8.ofNat (v % 0x100) :: number w (v / 0x100)

structure Entry where
  name : Bytes
  data : Bytes
  stamp : Timestamp
  /-- The file's type and permission bits. -/
  mode : Nat
  deriving DecidableEq

def regularFile : Nat := 0x8000

/-- No name is longer, as its length has two bytes. -/
def longestName : Nat := 65535

def encodeData (compression : Compression) (data : Bytes) : Bytes :=
  match compression with
  | .stored => data
  | .deflated => Deflate.compress data

def methodNumber : Compression → Nat
  | .stored => 0
  | .deflated => 8

/-- An entry with its data in the form in which the archive holds it. -/
structure Packed where
  entry : Entry
  compression : Compression
  stored : Bytes
  deriving DecidableEq

def Entry.pack (compression : Compression) (e : Entry) : Packed :=
  ⟨e, compression, encodeData compression e.data⟩

/-- The version of the format that a reader must know. A name that ends in a slash is one of a
directory, which the first version lacks. -/
def versionNeeded (compression : Compression) (name : Bytes) : Nat :=
  if compression = .deflated ∨ (Utf8.valid name ∧ name.getLast? = some Bytes.slash) then 20
  else 10

/-- Bit 11 says that the name is UTF-8. -/
def flags (name : Bytes) : Nat := if Utf8.valid name then 0x800 else 0

/-- The fields that a local header and a directory record share, up to the name's length. -/
def commonFields (p : Packed) : Bytes :=
  number 2 (versionNeeded p.compression p.entry.name) ++ number 2 (flags p.entry.name) ++
  number 2 (methodNumber p.compression) ++
  number 2 p.entry.stamp.time ++ number 2 p.entry.stamp.date ++
  number 4 (Checksum.crc32 p.entry.data).toNat ++
  number 4 p.stored.length ++ number 4 p.entry.data.length ++ number 2 p.entry.name.length

def localSignature : Bytes := [0x50, 0x4b, 0x03, 0x04]

def directorySignature : Bytes := [0x50, 0x4b, 0x01, 0x02]

def endSignature : Bytes := [0x50, 0x4b, 0x05, 0x06]

def localRecord (p : Packed) : Bytes :=
  localSignature ++ commonFields p ++ number 2 0 ++ p.entry.name ++ p.stored

/-- Made by a system with file modes, to the format's version 6.3. -/
def madeBy : Nat := 0x033f

/-- An entry's record in the directory: no extra field, no comment, disk 0, no internal
attributes, then the mode and where the local header begins. -/
def directoryRecord (p : Packed) (offset : Nat) : Bytes :=
  directorySignature ++ number 2 madeBy ++ commonFields p ++ number 2 0 ++
  number 2 0 ++ number 2 0 ++ number 2 0 ++ number 4 (p.entry.mode * 0x10000) ++
  number 4 offset ++ p.entry.name

def endRecord (count size offset : Nat) : Bytes :=
  endSignature ++ number 2 0 ++ number 2 0 ++ number 2 count ++ number 2 count ++
  number 4 size ++ number 4 offset ++ number 2 0

def localRecords (ps : List Packed) : Bytes := ps.flatMap localRecord

/-- The directory of entries whose local records begin at `offset` and follow one another. -/
def directory (offset : Nat) : List Packed → Bytes
  | [] => []
  | p :: ps => directoryRecord p offset ++ directory (offset + (localRecord p).length) ps

/-- What follows the local records in a complete archive. -/
def trailer (ps : List Packed) : Bytes :=
  let records := directory 0 ps
  records ++ endRecord ps.length records.length (localRecords ps).length

def encode (compression : Compression) (entries : List Entry) : Bytes :=
  let ps := entries.map (Entry.pack compression)
  localRecords ps ++ trailer ps

end ThemeBuilder.Archive
