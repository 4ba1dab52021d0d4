import Mathlib.Data.List.Forall2
import ThemeBuilder.Proofs.Action
import ThemeBuilder.Proofs.Archive.Dates
import ThemeBuilder.Proofs.Archive.RoundTrip
import ThemeBuilder.Proofs.FileTree.Creation
import ThemeBuilder.Theme.Packing

/-! Packing files one after the other: what is in the output afterwards, and that both ways of
reading find it there. -/
namespace ThemeBuilder
open Archive (Packed localRecord localRecords assemble)

/-- What is told of an item that is in the archive. -/
def Item.traces (i : Item) (size : Nat) : List Event :=
  .diagnostic (.entryWritten i.entryName size) :: (i.announcement.map Event.notice).toList

theorem Item.mode_entry_lt (i : Item) (f : File) : (i.entry f).mode < 2 ^ 16 := by
  change Archive.regularFile + f.mode % 0x1000 < 2 ^ 16
  have := Nat.mod_lt f.mode (show 0 < 0x1000 by decide)
  simp only [Archive.regularFile]
  omega

/-- Every number of an entry fits its field, if its name and its data do. -/
theorem Item.sized_entry {i : Item} {f : File} {c : Compression}
    (hn : i.entryName.length ≤ Archive.longestName)
    (hs : (Archive.encodeData c f.bytes).length < 2 ^ 32) (hd : f.bytes.length < 2 ^ 32) :
    ((i.entry f).pack c).Sized where
  name := hn
  time := Timestamp.time_ofSeconds_lt f.modified
  date := Timestamp.date_ofSeconds_lt f.modified
  mode := i.mode_entry_lt f
  stored := hs
  size := hd

theorem Item.sized_of_within {i : Item} {f : File} {c : Compression} {es : List Archive.Entry}
    (hn : i.entryName.length ≤ Archive.longestName) (within : Archive.Within c es)
    (he : i.entry f ∈ es) : ((i.entry f).pack c).Sized :=
  sized_entry hn (Archive.stored_lt_of_encode within.size he) (within.data _ he)

theorem Item.fits_entry {i : Item} {f : File} (hn : i.entryName.length ≤ Archive.longestName)
    (hd : f.bytes.length < 2 ^ 32) : ((i.entry f).pack .stored).Fits where
  toSized := Item.sized_entry hn hd hd
  decodes := rfl

namespace Packing
variable {out : Location} {c : Compression} {t u : FileTree} {i : Item} {is items : List Item}
  {f : File} {es : List Archive.Entry}

/-- Items can be packed one after the other, and that gives the entries and leaves the tree. Each
file is read when its turn comes, from a tree in which the output has grown by those before. -/
inductive Packs (out : Location) (c : Compression) :
    FileTree → List Item → List Archive.Entry → FileTree → Prop
  | nil (t : FileTree) : Packs out c t [] [] t
  | cons {t u : FileTree} {i : Item} {is : List Item} {f : File} {es : List Archive.Entry} :
      t.read i.path = .ok f → i.entryName.length ≤ Archive.longestName →
      Packs out c (t.append out (localRecord ((i.entry f).pack c))) is es u →
      Packs out c t (i :: is) (i.entry f :: es) u

private theorem packItem_of_read {disk : Disk} (out : Location) (c : Compression)
    (free : disk.reading i.path = none) (hf : t.read i.path = .ok f)
    (hn : i.entryName.length ≤ Archive.longestName) :
    packItem disk out c i t = ⟨.ok ((i.entry f).pack c),
      t.append out (localRecord ((i.entry f).pack c)),
      [.diagnostic (.entryWritten i.entryName f.bytes.length)]⟩ := by
  have hread : disk.read i.path t = ⟨.ok f, t, []⟩ := by
    rw [Disk.read, free]
    exact Action.read_of_ok hf
  rw [packItem, Action.bind_of_ok hread, if_neg (Nat.not_lt.mpr hn)]
  rfl

private theorem packItems_cons {disk : Disk} (free : disk.reading i.path = none)
    (hf : t.read i.path = .ok f) (hn : i.entryName.length ≤ Archive.longestName)
    {ps : List Packed} {rest : Packing} {events : List Event}
    (h : packItems disk out c is (t.append out (localRecord ((i.entry f).pack c))) =
      ⟨.ok (ps, rest), u, events⟩) :
    packItems disk out c (i :: is) t =
      ⟨.ok ((i.entry f).pack c :: ps, { rest with added := i :: rest.added }), u,
        i.traces f.bytes.length ++ events⟩ := by
  rw [packItems, Action.attempt_bind, packItem_of_read out c free hf hn]
  cases announced : i.announcement <;> simp [Action.bind_of_ok h, Item.traces, announced]

/-- Items that can be packed are, and then come the others. -/
theorem packItems_append {disk : Disk} (h : Packs out c t items es u)
    (free : ∀ i ∈ items, disk.reading i.path = none) {rest : List Item} {ps : List Packed}
    {packing : Packing} {v : FileTree} {events : List Event}
    (hrest : packItems disk out c rest u = ⟨.ok (ps, packing), v, events⟩) :
    packItems disk out c (items ++ rest) t =
      ⟨.ok (es.map (Archive.Entry.pack c) ++ ps, { packing with added := items ++ packing.added }),
        v, ((items.zip es).flatMap fun (i, e) => i.traces e.data.length) ++ events⟩ := by
  induction h with
  | nil t => exact hrest
  | cons hf hn _ ih =>
    rw [List.forall_mem_cons] at free
    rw [List.cons_append, packItems_cons free.1 hf hn (ih free.2 hrest), List.zip_cons_cons,
      List.flatMap_cons, List.append_assoc]
    rfl

theorem Packs.append (h : Packs out c t items es u) (tail : Bytes) : u.append out tail =
    t.append out (localRecords (es.map (Archive.Entry.pack c)) ++ tail) := by
  induction h with
  | nil t => rfl
  | cons _ _ _ ih =>
    rw [ih, FileTree.append_append, List.map_cons, Archive.localRecords_cons, List.append_assoc]

@[simp]
theorem finish_eq (disk : Disk) (p : Path) (out : Location) (ps : List Packed) (t : FileTree) :
    finish disk p out ps t = ⟨(disk.completion p).outcome p,
      t.append out ((disk.completion p).reaches (Archive.trailer ps)), []⟩ := rfl

section Disk
variable {disk : Disk} {t₀ : FileTree} {p : Path}

theorem writeArchiveOn_of_create_error {e : FileError}
    (he : disk.making p = some e ∨ disk.making p = none ∧ t.create p = .error e) (c : Compression)
    (items : List Item) :
    writeArchiveOn disk p c items t = ⟨.error ⟨[.creatingArchive p], .file e⟩, t, []⟩ := by
  have hcreate : disk.create p t = ⟨.error ⟨[.creatingArchive p], .file e⟩, t, []⟩ := by
    obtain hmaking | ⟨hmaking, he⟩ := he
    · rw [Disk.create, hmaking]
      rfl
    · rw [Disk.create, hmaking]
      exact Action.create_of_error he
  rw [writeArchiveOn, Action.bind_of_error hcreate]

/-- An archive is completed with the entries that there are, whatever became of the others. -/
theorem writeArchiveOn_of_packItems (making : disk.making p = none)
    (hc : t.create p = .ok (out, t₀)) {ps : List Packed} {packing : Packing} {events : List Event}
    (h : packItems disk out c items t₀ = ⟨.ok (ps, packing), u, events⟩) :
    writeArchiveOn disk p c items t = ⟨.ok (packing.and ((disk.completion p).outcome p)),
      u.append out ((disk.completion p).reaches (Archive.trailer ps)), events⟩ := by
  have hcreate : disk.create p t = ⟨.ok out, t₀, []⟩ := by
    rw [Disk.create, making]
    exact Action.create_of_ok hc
  rw [writeArchiveOn, Action.bind_of_ok hcreate, Action.bind_of_ok h]
  simp [finish_eq]

/-- The archive of items that can all be packed is as complete as the disk lets it be, and nothing
else is written. -/
theorem writeArchiveOn_of_packs (making : disk.making p = none)
    (hc : t.create p = .ok (out, t₀)) (h : Packs out c t₀ items es u)
    (free : ∀ i ∈ items, disk.reading i.path = none) :
    writeArchiveOn disk p c items t =
      ⟨.ok ((⟨items, none⟩ : Packing).and ((disk.completion p).outcome p)),
        t₀.append out (localRecords (es.map (Archive.Entry.pack c)) ++
          (disk.completion p).reaches (Archive.trailer (es.map (Archive.Entry.pack c)))),
        (items.zip es).flatMap fun (i, e) => i.traces e.data.length⟩ := by
  have hnil : packItems disk out c [] u = ⟨.ok ([], ⟨[], none⟩), u, []⟩ := rfl
  have hitems := packItems_append h free hnil
  simp only [List.append_nil] at hitems
  rw [writeArchiveOn_of_packItems making hc hitems, h.append]

end Disk

theorem writeArchive_of_create_error {p : Path} {e : FileError} (he : t.create p = .error e)
    (c : Compression) (items : List Item) :
    writeArchive p c items t = ⟨.error ⟨[.creatingArchive p], .file e⟩, t, []⟩ :=
  writeArchiveOn_of_create_error (.inr ⟨rfl, he⟩) c items

/-- The archive of items that can all be packed is complete, and nothing else is written. -/
theorem writeArchive_of_packs {t₀ : FileTree} {p : Path} (hc : t.create p = .ok (out, t₀))
    (h : Packs out c t₀ items es u) :
    writeArchive p c items t = ⟨.ok ⟨items, none⟩, t₀.append out (Archive.encode c es),
      (items.zip es).flatMap fun (i, e) => i.traces e.data.length⟩ :=
  writeArchiveOn_of_packs rfl hc h fun _ _ => rfl

/-- Reading goes on to work while the output grows. -/
theorem exists_packs {g : File} (ho : t.file? out = some g)
    (hr : ∀ i ∈ items, ∃ f, t.read i.path = .ok f)
    (hn : ∀ i ∈ items, i.entryName.length ≤ Archive.longestName) :
    ∃ es u, Packs out c t items es u := by
  induction items generalizing t g with
  | nil => exact ⟨[], t, .nil t⟩
  | cons i is ih =>
    rw [List.forall_mem_cons] at hr hn
    obtain ⟨f, hf⟩ := hr.1
    have hgrown (bytes : Bytes) (i : Item) (hi : i ∈ is) :
        ∃ f, (t.append out bytes).read i.path = .ok f :=
      FileTree.isFile_iff_read.mp
        ((FileTree.saved_append ho bytes).isFile (FileTree.isFile_iff_read.mpr (hr.2 i hi)))
    obtain ⟨es, u, h⟩ := ih (FileTree.file?_append ho _) (hgrown _) hn.2
    exact ⟨_, u, .cons hf hn.1 h⟩

/-- Items are packed under their names, and but for the output itself each file as an earlier tree
`v` has it. -/
theorem Packs.entries {v : FileTree} {g : File} (h : Packs out c t items es u)
    (ho : t.file? out = some g)
    (hv : ∀ i ∈ items, t.locate i.path ≠ .ok out → ∀ f, t.read i.path = .ok f →
      v.read i.path = .ok f) :
    List.Forall₂ (fun i e => e.name = i.entryName ∧
      (t.locate i.path ≠ .ok out → ∃ f, v.read i.path = .ok f ∧ e = i.entry f)) items es := by
  induction h generalizing g with
  | nil => exact .nil
  | @cons t u i is f es hf hn _ ih =>
    rw [List.forall_mem_cons] at hv
    have hsaved := FileTree.saved_append ho (localRecord ((i.entry f).pack c))
    simp only [FileTree.locate_append ho] at ih
    refine .cons ⟨rfl, fun hi => ⟨f, hv.1 hi f hf, rfl⟩⟩ (ih (FileTree.file?_append ho _) ?_)
    intro j hj hne f hf
    refine hv.2 j hj hne f (hsaved.read_back hf ?_)
    rwa [FileTree.locate_append ho]

/-- Files other than the output are packed as an earlier tree `v` has them. -/
theorem Packs.forall₂ {v : FileTree} {g : File} (h : Packs out c t items es u)
    (ho : t.file? out = some g) (hout : ∀ i ∈ items, t.locate i.path ≠ .ok out)
    (hv : ∀ i ∈ items, ∀ f, t.read i.path = .ok f → v.read i.path = .ok f) :
    List.Forall₂ (fun i e => ∃ f, v.read i.path = .ok f ∧ e = i.entry f) items es := by
  obtain ⟨hlength, hentry⟩ := List.forall₂_iff_zip.mp (h.entries ho fun i hi _ => hv i hi)
  exact List.forall₂_iff_zip.mpr ⟨hlength, fun hmem =>
    (hentry hmem).2 (hout _ (List.of_mem_zip hmem).1)⟩

theorem Packs.mem (h : Packs out c t items es u) {e : Archive.Entry} (he : e ∈ es) :
    ∃ i ∈ items, ∃ f, e = i.entry f ∧ i.entryName.length ≤ Archive.longestName := by
  induction h with
  | nil => cases he
  | @cons t u i is f es hf hn _ ih =>
    obtain rfl | he := List.mem_cons.mp he
    · exact ⟨i, List.mem_cons_self, f, rfl, hn⟩
    · obtain ⟨j, hj, hrest⟩ := ih he
      exact ⟨j, List.mem_cons_of_mem i hj, hrest⟩

theorem Packs.sized (h : Packs out c t items es u) (within : Archive.Within c es) :
    ∀ e ∈ es, (e.pack c).Sized := by
  intro e he
  obtain ⟨i, -, f, rfl, hn⟩ := h.mem he
  exact Item.sized_of_within hn within he

theorem Packs.length (h : Packs out c t items es u) : es.length = items.length := by
  induction h with
  | nil => rfl
  | cons _ _ _ ih => rw [List.length_cons, ih, List.length_cons]

/-- Within the limits of the format, an archive of packed items is read back. -/
theorem Packs.read?_encode (h : Packs out .stored t items es u) (count : es.length < 2 ^ 16)
    (size : (Archive.encode .stored es).length < 2 ^ 32) :
    Archive.read? (Archive.encode .stored es) = some es := by
  refine Archive.read?_encode (fun e he hd => ?_) count size
  obtain ⟨i, -, f, rfl, hn⟩ := h.mem he
  exact Item.fits_entry hn hd

/-- The path of an archive leads to its bytes, whatever was there before. -/
theorem read_writeArchive {t₀ : FileTree} {p : Path} (hc : t.create p = .ok (out, t₀))
    (h : Packs out c t₀ items es u) : ∃ g, (writeArchive p c items t).tree.read p = .ok g ∧
      g.bytes = Archive.encode c es := by
  rw [writeArchive_of_packs hc h]
  exact (FileTree.created_of_create hc).read_append _

/-- What both ways of reading find in an archive of stored entries: the files in the order of the
items, each as it was when its turn came. That is how it was from the start unless it is the
archive itself. -/
theorem read?_scan?_writeArchive {t t₀ : FileTree} {p : Path} {out : Location} {items : List Item}
    (created : t.create p = .ok (out, t₀)) (readable : ∀ i ∈ items, ∃ f, t₀.read i.path = .ok f)
    (named : ∀ i ∈ items, i.entryName.length ≤ Archive.longestName)
    (count : items.length ≤ 65535)
    (size : ∀ g, (writeArchive p .stored items t).tree.read p = .ok g → g.bytes.length < 2 ^ 32) :
    ∃ es u g, Packs out .stored t₀ items es u ∧
      ((∀ i ∈ items, t₀.locate i.path ≠ .ok out) →
        List.Forall₂ (fun i e => ∃ f, t.read i.path = .ok f ∧ e = i.entry f) items es) ∧
      (writeArchive p .stored items t).outcome = .ok ⟨items, none⟩ ∧
      (writeArchive p .stored items t).tree.read p = .ok g ∧
      Archive.read? g.bytes = some es ∧
      (Archive.catalogue? g.bytes).map (List.map fun l => (l.header, l.name, l.mode)) =
        some (es.map fun e => (e.header, e.name, e.mode)) ∧
      Archive.scan? g.bytes = some (es.map fun e => ⟨e.header, e.name, e.data⟩) := by
  have hcreated := FileTree.created_of_create created
  obtain ⟨mode, hfile⟩ := hcreated.file
  obtain ⟨es, u, h⟩ := exists_packs (c := .stored) hfile readable named
  obtain ⟨g, hg, hbytes⟩ := read_writeArchive created h
  have hfits : ∀ e ∈ es, e.data.length < 2 ^ 32 → (e.pack .stored).Fits := by
    intro e he hd
    obtain ⟨i, -, f, rfl, hn⟩ := h.mem he
    exact Item.fits_entry hn hd
  have hcount : es.length < 2 ^ 16 := by
    rw [h.length]
    omega
  have hsize : (Archive.encode .stored es).length < 2 ^ 32 := hbytes ▸ size g hg
  refine ⟨es, u, g, h, ?_, by rw [writeArchive_of_packs created h], hg, ?_, ?_, ?_⟩
  · intro hout
    exact h.forall₂ hfile hout fun i hi f hf => hcreated.saved.read_back hf (hout i hi)
  · rw [hbytes, Archive.read?_encode hfits hcount hsize]
  · rw [hbytes, Archive.catalogue?_encode hfits hcount hsize]
  · rw [hbytes, Archive.scan?_encode hfits hcount hsize]

/-- An archive of two files, one of which has the bytes of a local header's signature and the other
one is the archive itself. -/
theorem read?_scan?_writeArchive_itself :
    let a : Name := ⟨[0x61], by decide⟩
    let z : Name := ⟨[0x7a], by decide⟩
    let t : FileTree := ⟨[⟨[a], .file ⟨Archive.localSignature, 0, 0o644⟩, false⟩], 0, by decide⟩
    let items : List Item := [⟨[0x2f, 0x61], [0x61], none⟩, ⟨[0x2f, 0x7a], [0x7a], none⟩]
    t.create [0x2f, 0x7a] = .ok ([z], t.add ⟨[z], .file ⟨[], 0, 0o644⟩, true⟩) ∧
    ∃ es g, (writeArchive [0x2f, 0x7a] .stored items t).tree.read [0x2f, 0x7a] = .ok g ∧
      es.length = 2 ∧ Archive.read? g.bytes = some es ∧
      Archive.scan? g.bytes = some (es.map fun e => ⟨e.header, e.name, e.data⟩) := by
  intro a z t items
  let t₀ := t.add ⟨[z], .file ⟨[], 0, 0o644⟩, true⟩
  have created : t.create [0x2f, 0x7a] = .ok ([z], t₀) := rfl
  have readable : ∀ i ∈ items, ∃ f, t₀.read i.path = .ok f := by
    rintro i hi
    simp only [items, List.mem_cons, List.not_mem_nil, or_false] at hi
    obtain rfl | rfl := hi
    · exact ⟨_, rfl⟩
    · exact ⟨_, rfl⟩
  have named : ∀ i ∈ items, i.entryName.length ≤ Archive.longestName := by decide
  have size : ∀ g, (writeArchive [0x2f, 0x7a] .stored items t).tree.read [0x2f, 0x7a] = .ok g →
      g.bytes.length < 2 ^ 32 := by
    intro g hg
    have hp : Packs [z] .stored t₀ items _ _ :=
      .cons rfl (by decide) (.cons rfl (by decide) (.nil _))
    obtain ⟨g', hg', hb⟩ := read_writeArchive created hp
    rw [hg] at hg'
    cases hg'
    rw [hb]
    decide +kernel
  obtain ⟨es, u, g, hp, -, -, hg, hr, -, hs⟩ :=
    read?_scan?_writeArchive created readable named (by decide) size
  exact ⟨created, es, g, hg, hp.length, hr, hs⟩

end Packing
end ThemeBuilder
