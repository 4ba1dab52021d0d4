import ThemeBuilder.Proofs.Archive.RoundTrip
import ThemeBuilder.Proofs.Deflate.Stream

/-! Compression shows in how an archive holds the data of its entries, and in the two fields of a
header that tell of it. All else that a reader finds is the same with it and without. -/
namespace ThemeBuilder.Archive
variable {c : Compression} {es : List Entry} {e : Entry}

@[simp]
theorem decodeData?_encodeData (c : Compression) (data : Bytes) :
    decodeData? c (encodeData c data) = some data := by
  cases c with
  | stored => rfl
  | deflated => exact Deflate.decompress?_compress data

theorem Packed.Sized.fits (h : (e.pack c).Sized) : (e.pack c).Fits where
  toSized := h
  decodes := decodeData?_encodeData c e.data

/-- What a header tells, as if the data were stored as it is. -/
def Header.plain (h : Header) : Header := { h with compression := .stored, storedSize := h.size }

/-- The entries are found in an archive in both ways, each with all that its headers tell of it but
how its data is held. -/
structure Readable (archive : Bytes) (es : List Entry) : Prop where
  read : read? archive = some es
  catalogue : (catalogue? archive).map (List.map fun l => (l.header.plain, l.name, l.mode)) =
    some (es.map fun e => (e.header, e.name, e.mode))
  scan : (scan? archive).map (List.map fun x => (x.header.plain, x.name, x.data)) =
    some (es.map fun e => (e.header, e.name, e.data))

theorem readable_encode (h : ∀ e ∈ es, (e.pack c).Sized) (within : Within c es) :
    Readable (encode c es) es where
  read := read?_encode_of_fits (fun e he => (h e he).fits) within.count within.size
  catalogue := map_catalogue?_encode
    (g := fun p => (p.header.plain, p.entry.name, p.entry.mode)) (fun _ _ => rfl) h within.count
    within.size
  scan := by
    rw [scan?_encode_of_fits (fun e he => (h e he).fits) within.count within.size,
      Option.map_some, List.map_map]
    rfl

end ThemeBuilder.Archive
