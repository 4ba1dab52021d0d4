import ThemeBuilder.Proofs.Archive.Names
import ThemeBuilder.Proofs.Theme.Account
import ThemeBuilder.Proofs.Theme.Compression

/-! The names of items in their archive, whatever bytes they are. -/
namespace ThemeBuilder.Packing
variable {out : Location} {c : Compression} {t u : FileTree} {p : Path} {items : List Item}
  {e : Archive.Entry} {es : List Archive.Entry}

private theorem Packs.titled (h : Packs out c t items es u) (he : e ∈ es) : e.Titled := by
  obtain ⟨i, -, f, rfl, hn⟩ := h.mem he
  exact Item.titled_entry hn f

/-- Items stand in their archive under their names, byte for byte. Each has its entry, up to one
that fails if one does, because its file cannot be read or its name is too long. Both records of an
entry have the flag of UTF-8 names exactly if the name is the encoding of some characters. So a
reader that decodes the names with the flag, and takes the others as they are, meets none that it
cannot decode and recovers all of them. -/
theorem writeArchive_names (target : t.target? p = some out) (c : Compression)
    (items : List Item) : ∃ done es stop g,
      (writeArchive p c items t).outcome = .ok ⟨done, stop⟩ ∧
      (done = items ∧ stop = none ∨ ∃ i rest failure, items = done ++ i :: rest ∧
        i.fault? (t.save out []) = some failure ∧ stop = some failure) ∧
      (writeArchive p c items t).tree.read p = .ok g ∧ g.bytes = Archive.encode c es ∧
      es.map (·.name) = done.map (·.entryName) ∧
      (∀ before e after, es = before ++ e :: after → ∃ header record : Archive.Title,
        Archive.localLayout.title? (g.bytes.drop (Archive.headerPlace c before)) = some header ∧
        Archive.directoryLayout.title? (g.bytes.drop (Archive.recordPlace c es before)) =
          some record ∧
        ∀ title ∈ [header, record], title.name = e.name ∧
          (title.flags.testBit 11 = true ↔
            ∃ cs : List Char, e.name = cs.flatMap String.utf8EncodeChar) ∧
          ∃ r, Archive.readName? title.flags title.name = some r ∧ r.bytes = e.name) ∧
      (Archive.Within c es → ∃ names,
        ((Archive.catalogue? g.bytes).map (List.map fun l => (l.header.flags, l.name))).bind
          Archive.readNames? = some names ∧
        ((Archive.scan? g.bytes).map (List.map fun x => (x.header.flags, x.name))).bind
          Archive.readNames? = some names ∧
        names.map Archive.ReadName.bytes = done.map (·.entryName)) := by
  obtain ⟨done, es, u, stop, packs, hwrite, hend⟩ := writeArchive_cases target c items
  obtain ⟨mode, hfile⟩ := FileTree.file?_save (FileTree.writable_of_target? target) []
  obtain ⟨g, hg, hbytes⟩ := FileTree.read_save target (Archive.encode c es)
  rw [hwrite]
  refine ⟨done, es, stop, g, rfl, ?_, hg, hbytes, packs.map_name, ?_, ?_⟩
  · refine hend.imp_right ?_
    rintro ⟨i, rest, failure, hitems, hi, hstop⟩
    exact ⟨i, rest, failure, hitems, (packs.fault? hfile i).symm.trans hi, hstop⟩
  · rintro before e after hes
    have titled : e.Titled := packs.titled (hes ▸ List.mem_append_right _ List.mem_cons_self)
    have stands := Archive.stands_encode c before e after titled
    rw [hbytes, hes]
    refine ⟨e.title, e.title, stands.told, stands.listed, fun title htitle => ?_⟩
    obtain rfl : title = e.title := by simpa using htitle
    exact ⟨rfl, Archive.testBit_flags e.name, Archive.readName?_flags e.name⟩
  · intro within
    obtain ⟨hcatalogue, hscan⟩ := Archive.names_encode (packs.sized within) within
    obtain ⟨names, hnames, hall⟩ := Archive.readNames?_flags es
    refine ⟨names, ?_, ?_, hall.trans packs.map_name⟩
    · rw [hbytes, hcatalogue, Option.bind_some, hnames]
    · rw [hbytes, hscan, Option.bind_some, hnames]

/-- Two names that are UTF-8, an overlong form, a surrogate, a sequence cut off, and a byte that
begins none, all in one archive. -/
theorem writeArchive_names_mixed :
    let f : Name := ⟨[0x66], by decide⟩
    let t : FileTree := ⟨[⟨[f], .file ⟨[1], 0, 0o644⟩, false⟩], 0, by decide⟩
    let names : List Bytes :=
      [[0xc3, 0xa9], [0x61], [0xc0, 0xaf], [0xed, 0xa0, 0x80], [0xe2, 0x82], [0x61, 0xff]]
    let items : List Item := names.map fun n => ⟨[0x2f, 0x66], n, none⟩
    let r := writeArchive [0x2f, 0x7a] .deflated items t
    r.outcome = .ok ⟨items, none⟩ ∧ ∃ (es : List Archive.Entry) (g : File),
      r.tree.read [0x2f, 0x7a] = .ok g ∧ es.map (·.name) = names ∧
      ∀ before e after, es = before ++ e :: after → ∃ header record : Archive.Title,
        Archive.localLayout.title? (g.bytes.drop (Archive.headerPlace .deflated before)) =
          some header ∧
        Archive.directoryLayout.title? (g.bytes.drop (Archive.recordPlace .deflated es before)) =
          some record ∧
        ∀ title ∈ [header, record], title.name = e.name ∧
          (title.flags.testBit 11 = true ↔ e.name ∈ [[0xc3, 0xa9], [0x61]]) := by
  intro f t names items r
  have target : t.target? [0x2f, 0x7a] = some [⟨[0x7a], by decide⟩] := by decide +kernel
  obtain ⟨done, es, stop, g, houtcome, -, hg, -, hnames, hread, -⟩ :=
    writeArchive_names target .deflated items
  have hall : r.outcome = .ok ⟨items, none⟩ := by decide +kernel
  cases houtcome.symm.trans hall
  have hvalid : ∀ n ∈ names,
      ((Archive.flags n).testBit 11 = true ↔ n ∈ [[0xc3, 0xa9], [0x61]]) := by decide +kernel
  refine ⟨hall, es, g, hg, hnames, fun before e after hes => ?_⟩
  obtain ⟨header, record, hheader, hrecord, htitles⟩ := hread before e after hes
  have hname : e.name ∈ names := by
    rw [← show es.map (·.name) = names from hnames, hes]
    exact List.mem_map_of_mem (List.mem_append_right _ List.mem_cons_self)
  refine ⟨header, record, hheader, hrecord, fun title htitle => ?_⟩
  obtain ⟨hsame, hflag, -⟩ := htitles title htitle
  exact ⟨hsame, (hflag.trans (Archive.testBit_flags e.name).symm).trans (hvalid e.name hname)⟩

end ThemeBuilder.Packing
