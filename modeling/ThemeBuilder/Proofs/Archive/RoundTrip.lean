import ThemeBuilder.Proofs.Archive.Fields

/-! Both ways of reading an archive find the entries it was made of. A place in an archive is the
length of what stands before it, so the records of the directory lead to the headers. -/
namespace ThemeBuilder.Archive

@[simp]
theorem length_commonFields (p : Packed) : (commonFields p).length = 24 := by
  simp [commonFields]

@[simp]
theorem length_localRecord (p : Packed) :
    (localRecord p).length = 30 + p.entry.name.length + p.stored.length := by
  simp only [localRecord, localSignature, List.length_append, length_commonFields, length_number,
    List.length_cons, List.length_nil]

@[simp]
theorem length_endRecord (count size offset : Nat) : (endRecord count size offset).length = 22 := by
  simp [endRecord, endSignature]

theorem localRecords_cons (p : Packed) (ps : List Packed) :
    localRecords (p :: ps) = localRecord p ++ localRecords ps := List.flatMap_cons

/-- The records of a directory, the first of which tells of the header at `offset`. -/
def listing (offset : Nat) : List Packed → List Listed
  | [] => []
  | p :: ps => p.listed offset :: listing (offset + (localRecord p).length) ps

private theorem directory?_directory {ps : List Packed} (h : ∀ p ∈ ps, p.Sized) {offset : Nat}
    (ho : offset + (localRecords ps).length < 2 ^ 32) (rest : Bytes) :
    directory? ps.length (directory offset ps ++ rest) = some (listing offset ps) := by
  induction ps generalizing offset with
  | nil => rfl
  | cons p ps ih =>
    rw [List.forall_mem_cons] at h
    rw [localRecords_cons, List.length_append] at ho
    simp only [List.length_cons, directory?, directory, List.append_assoc,
      directoryRecord?_directoryRecord h.1 (show offset < 2 ^ 32 by omega),
      ih h.2 (show offset + (localRecord p).length + _ < 2 ^ 32 by omega), Option.bind_eq_bind,
      Option.bind_some]
    rfl

private theorem follow?_listed {p : Packed} (h : p.Fits) (before after : Bytes) :
    follow? (before ++ (localRecord p ++ after)) (p.listed before.length) = some p.entry := by
  simp only [follow?, Packed.listed, List.drop_left, localEntry?_localRecord h, Option.bind_eq_bind,
    Option.bind_some]
  exact if_pos ⟨rfl, rfl⟩

/-- Each record of a directory leads to its entry, if the headers stand behind what comes before. -/
private theorem mapM_follow?_listing {ps : List Packed} (h : ∀ p ∈ ps, p.Fits)
    (before after : Bytes) :
    (listing before.length ps).mapM (follow? (before ++ (localRecords ps ++ after))) =
      some (ps.map (·.entry)) := by
  induction ps generalizing before with
  | nil => rfl
  | cons p ps ih =>
    rw [List.forall_mem_cons] at h
    have hrest := ih h.2 (before ++ localRecord p)
    rw [List.length_append] at hrest
    rw [listing, localRecords_cons, List.mapM_cons, List.append_assoc, follow?_listed h.1,
      ← List.append_assoc, hrest]
    rfl

/-- The bytes of an archive of entries in the form in which it holds them. -/
def assemble (ps : List Packed) : Bytes := localRecords ps ++ trailer ps

theorem encode_eq_assemble (c : Compression) (es : List Entry) :
    encode c es = assemble (es.map (Entry.pack c)) := rfl

@[simp]
theorem length_assemble (ps : List Packed) :
    (assemble ps).length = (localRecords ps).length + (directory 0 ps).length + 22 := by
  simp only [assemble, trailer, List.length_append, length_endRecord]
  omega

private theorem summary?_assemble {ps : List Packed} (hcount : ps.length < 2 ^ 16)
    (hsize : (assemble ps).length < 2 ^ 32) : summary? (assemble ps) =
      some ⟨ps.length, (directory 0 ps).length, (localRecords ps).length⟩ := by
  have hlen := length_assemble ps
  have hend : (assemble ps).drop ((assemble ps).length - 22) =
      endRecord ps.length (directory 0 ps).length (localRecords ps).length := by
    rw [hlen, Nat.add_sub_cancel, ← List.length_append, assemble, trailer, ← List.append_assoc,
      List.drop_left]
  have hdisk (rest : Bytes) : number? 4 (number 2 0 ++ (number 2 0 ++ rest)) = some (0, rest) :=
    number?_four (v := 0) (by decide) rest
  simp only [summary?, hend, endRecord, List.append_assoc, signature?_append, hdisk,
    number?_two hcount, number?_four (show (directory 0 ps).length < 2 ^ 32 by omega),
    number?_four (show (localRecords ps).length < 2 ^ 32 by omega), Option.bind_eq_bind,
    Option.bind_some]

/-- The records of the directory that the last record leads to. -/
def catalogue? (archive : Bytes) : Option (List Listed) := do
  let summary ← summary? archive
  directory? summary.count (archive.drop summary.offset)

theorem read?_eq_catalogue? (archive : Bytes) :
    read? archive = (catalogue? archive).bind (List.mapM (follow? archive)) := by
  rw [read?, catalogue?]
  exact (Option.bind_assoc ..).symm

section
variable {ps : List Packed} (hcount : ps.length < 2 ^ 16) (hsize : (assemble ps).length < 2 ^ 32)
include hcount hsize

private theorem catalogue?_assemble (h : ∀ p ∈ ps, p.Sized) :
    catalogue? (assemble ps) = some (listing 0 ps) := by
  have hlen := length_assemble ps
  simp only [catalogue?, summary?_assemble hcount hsize, Option.bind_eq_bind, Option.bind_some]
  rw [assemble, List.drop_left, trailer]
  exact directory?_directory h (by omega) _

/-- The directory leads to all entries, in order. -/
private theorem read?_assemble (h : ∀ p ∈ ps, p.Fits) :
    read? (assemble ps) = some (ps.map (·.entry)) := by
  rw [read?_eq_catalogue?, catalogue?_assemble hcount hsize fun p hp => (h p hp).toSized,
    Option.bind_some]
  exact mapM_follow?_listing h [] (trailer ps)

end

private theorem length_le_localRecords (ps : List Packed) :
    ps.length ≤ (localRecords ps).length := by
  induction ps with
  | nil => exact Nat.le_refl 0
  | cons p ps ih =>
    rw [localRecords_cons, List.length_append, length_localRecord, List.length_cons]
    omega

private theorem scan_localRecords {ps : List Packed} (h : ∀ p ∈ ps, p.Fits) {bound : Nat}
    (hbound : ps.length ≤ bound) : scan bound (localRecords ps) = ps.map Packed.extracted := by
  induction ps generalizing bound with
  | nil => cases bound <;> rfl
  | cons p ps ih =>
    rw [List.forall_mem_cons] at h
    obtain ⟨bound, rfl⟩ : ∃ n, bound = n + 1 := ⟨bound - 1, by rw [List.length_cons] at hbound; omega⟩
    rw [localRecords_cons, scan, localEntry?_localRecord h.1]
    exact congrArg (p.extracted :: ·) (ih h.2 (Nat.le_of_succ_le_succ hbound))

/-- The headers from the start up to the directory are those of all entries, in order. -/
private theorem scan?_assemble {ps : List Packed} (h : ∀ p ∈ ps, p.Fits)
    (hcount : ps.length < 2 ^ 16) (hsize : (assemble ps).length < 2 ^ 32) :
    scan? (assemble ps) = some (ps.map Packed.extracted) := by
  simp only [scan?, summary?_assemble hcount hsize, Option.bind_eq_bind, Option.bind_some]
  rw [assemble, List.take_left, scan_localRecords h (length_le_localRecords ps)]

private theorem length_stored_le {ps : List Packed} {p : Packed} (hp : p ∈ ps) :
    p.stored.length ≤ (localRecords ps).length := by
  obtain ⟨before, after, rfl⟩ := List.append_of_mem hp
  simp only [localRecords, List.flatMap_append, List.flatMap_cons, List.length_append,
    length_localRecord]
  omega

private theorem map_listing {α : Type} (f : Listed → α) (g : Packed → α)
    (h : ∀ p offset, f (p.listed offset) = g p) (offset : Nat) (ps : List Packed) :
    (listing offset ps).map f = ps.map g := by
  induction ps generalizing offset with
  | nil => rfl
  | cons p ps ih => rw [listing, List.map_cons, List.map_cons, h, ih]

theorem stored_lt_of_encode {c : Compression} {es : List Entry}
    (hsize : (encode c es).length < 2 ^ 32) {e : Entry} (he : e ∈ es) :
    (encodeData c e.data).length < 2 ^ 32 := by
  have hlen := length_assemble (es.map (Entry.pack c))
  have hstored := length_stored_le (List.mem_map_of_mem (f := Entry.pack c) he)
  rw [encode_eq_assemble] at hsize
  refine Nat.lt_of_le_of_lt hstored ?_
  omega

/-- An archive of the entries is within the limits of the format. -/
structure Within (c : Compression) (es : List Entry) : Prop where
  count : es.length < 2 ^ 16
  size : (encode c es).length < 2 ^ 32
  data : ∀ e ∈ es, e.data.length < 2 ^ 32

/-- The directory lists the entries in their order, whether or not they are compressed. -/
theorem map_catalogue?_encode {α : Type} {f : Listed → α} {g : Packed → α}
    (hfg : ∀ p offset, f (p.listed offset) = g p) {c : Compression} {es : List Entry}
    (h : ∀ e ∈ es, (e.pack c).Sized) (hcount : es.length < 2 ^ 16)
    (hsize : (encode c es).length < 2 ^ 32) :
    (catalogue? (encode c es)).map (List.map f) = some (es.map fun e => g (e.pack c)) := by
  have hsized : ∀ p ∈ es.map (Entry.pack c), p.Sized := List.forall_mem_map.mpr h
  rw [encode_eq_assemble, catalogue?_assemble (by simpa using hcount) hsize hsized,
    Option.map_some, map_listing f g hfg, List.map_map]
  rfl

/-- The shared fields of an entry whose data is stored as it is. -/
def Entry.header (e : Entry) : Header where
  flags := flags e.name
  compression := .stored
  stamp := e.stamp
  checksum := (Checksum.crc32 e.data).toNat
  storedSize := e.data.length
  size := e.data.length
  nameLength := e.name.length

section
variable {c : Compression} {es : List Entry} (h : ∀ e ∈ es, (e.pack c).Fits)
  (hcount : es.length < 2 ^ 16) (hsize : (encode c es).length < 2 ^ 32)
include h hcount hsize

theorem read?_encode_of_fits : read? (encode c es) = some es := by
  have hfits : ∀ p ∈ es.map (Entry.pack c), p.Fits := List.forall_mem_map.mpr h
  rw [encode_eq_assemble, read?_assemble (by simpa using hcount) hsize hfits, List.map_map]
  exact congrArg some (List.map_id es)

theorem scan?_encode_of_fits :
    scan? (encode c es) = some (es.map fun e => (e.pack c).extracted) := by
  have hfits : ∀ p ∈ es.map (Entry.pack c), p.Fits := List.forall_mem_map.mpr h
  rw [encode_eq_assemble, scan?_assemble hfits (by simpa using hcount) hsize, List.map_map]
  rfl

end

section
variable {es : List Entry} (h : ∀ e ∈ es, e.data.length < 2 ^ 32 → (e.pack .stored).Fits)
  (hcount : es.length < 2 ^ 16) (hsize : (encode .stored es).length < 2 ^ 32)
include h hsize

private theorem fits_of_encode : ∀ e ∈ es, (e.pack .stored).Fits :=
  fun e he => h e he (stored_lt_of_encode hsize he)

include hcount

theorem read?_encode : read? (encode .stored es) = some es :=
  read?_encode_of_fits (fits_of_encode h hsize) hcount hsize

theorem catalogue?_encode :
    (catalogue? (encode .stored es)).map (List.map fun l => (l.header, l.name, l.mode)) =
      some (es.map fun e => (e.header, e.name, e.mode)) :=
  map_catalogue?_encode (g := fun p => (p.header, p.entry.name, p.entry.mode)) (fun _ _ => rfl)
    (fun e he => (fits_of_encode h hsize e he).toSized) hcount hsize

theorem scan?_encode :
    scan? (encode .stored es) = some (es.map fun e => ⟨e.header, e.name, e.data⟩) :=
  scan?_encode_of_fits (fits_of_encode h hsize) hcount hsize

end
end ThemeBuilder.Archive
