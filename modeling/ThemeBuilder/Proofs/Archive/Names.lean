import ThemeBuilder.Proofs.Archive.Records
import ThemeBuilder.Proofs.Text.Utf8

/-! Names of entries, which may be any bytes, and the flag of those that are UTF-8. A reader that
decodes the names with the flag, and no others, is never misled. -/
namespace ThemeBuilder.Archive

/-- The flag is set exactly for the encodings of scalar values. -/
theorem testBit_flags (name : Bytes) : (flags name).testBit 11 = true ↔
    ∃ cs : List Char, name = cs.flatMap String.utf8EncodeChar := by
  have hencode (cs : List Char) : cs.flatMap String.utf8EncodeChar = Utf8.encodeChars cs :=
    List.flatMap_congr fun c _ => (Utf8.encodeChar_eq_utf8EncodeChar c).symm
  simp only [hencode]
  have hflag : (flags name).testBit 11 = Utf8.valid name := by
    rw [flags]
    cases Utf8.valid name <;> rfl
  rw [hflag]
  constructor
  · exact fun h => ⟨_, (Utf8.encodeChars_lossyChars h).symm⟩
  · rintro ⟨cs, rfl⟩
    exact Utf8.valid_encodeChars cs

/-- A name as a reader takes it. -/
inductive ReadName where
  | text (s : String)
  | raw (bytes : Bytes)
  deriving DecidableEq

def ReadName.bytes : ReadName → Bytes
  | .text s => s.toUTF8.data.toList
  | .raw bytes => bytes

/-- A name with bit 11 among its flags is decoded as UTF-8, which can fail. Any other is taken as it
is. -/
def readName? (flags : Nat) (name : Bytes) : Option ReadName :=
  if flags.testBit 11 then (String.fromUTF8? name.toByteArray).map .text else some (.raw name)

/-- All names, or none if one cannot be decoded. -/
def readNames? (names : List (Nat × Bytes)) : Option (List ReadName) :=
  names.mapM fun n => readName? n.1 n.2

theorem readName?_flags (name : Bytes) :
    ∃ r, readName? (flags name) name = some r ∧ r.bytes = name := by
  unfold readName?
  split
  · rename_i h
    obtain ⟨cs, hcs⟩ := (testBit_flags name).mp h
    have hvalid : name.toByteArray.IsValidUTF8 := .intro cs (by rw [hcs]; rfl)
    refine ⟨.text (String.fromUTF8 name.toByteArray hvalid), ?_, ?_⟩
    · rw [String.fromUTF8?, dif_pos hvalid, Option.map_some]
    · exact List.toList_data_toByteArray
  · exact ⟨.raw name, rfl, rfl⟩

theorem readNames?_flags (es : List Entry) :
    ∃ ns, readNames? (es.map fun e => (flags e.name, e.name)) = some ns ∧
      ns.map ReadName.bytes = es.map (·.name) := by
  induction es with
  | nil => exact ⟨[], rfl, rfl⟩
  | cons e es ih =>
    obtain ⟨r, hr, hbytes⟩ := readName?_flags e.name
    obtain ⟨ns, hns, hnames⟩ := ih
    unfold readNames? at hns ⊢
    refine ⟨r :: ns, ?_, by rw [List.map_cons, List.map_cons, hbytes, hnames]⟩
    simp only [List.map_cons, List.mapM_cons, hr, hns, Option.bind_eq_bind, Option.bind_some]
    rfl

variable {c : Compression} {es : List Entry}

/-- Both ways of reading find the names with their flags. -/
theorem names_encode (h : ∀ e ∈ es, (e.pack c).Sized) (within : Within c es) :
    (catalogue? (encode c es)).map (List.map fun l => (l.header.flags, l.name)) =
        some (es.map fun e => (flags e.name, e.name)) ∧
      (scan? (encode c es)).map (List.map fun x => (x.header.flags, x.name)) =
        some (es.map fun e => (flags e.name, e.name)) := by
  constructor
  · exact map_catalogue?_encode (g := fun p => (flags p.entry.name, p.entry.name)) (fun _ _ => rfl)
      h within.count within.size
  · rw [scan?_encode_of_fits (fun e he => (h e he).fits) within.count within.size,
      Option.map_some, List.map_map]
    rfl

end ThemeBuilder.Archive
