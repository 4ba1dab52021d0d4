import ThemeBuilder.Proofs.Archive.Records
import ThemeBuilder.Proofs.Theme.Interruption

/-! The same items packed with and without compression. What is read for an item other than the
archive does not depend on what the archive holds so far, so both runs pack the same entries, stop
at the same item and tell the same. -/
namespace ThemeBuilder

/-- The item can be packed as the tree is, and the entry is what it becomes. -/
def Item.Gives (t : FileTree) (i : Item) (e : Archive.Entry) : Prop :=
  i.entryName.length ≤ Archive.longestName ∧ ∃ f, t.read i.path = .ok f ∧ e = i.entry f

theorem Item.titled_entry {i : Item} (hn : i.entryName.length ≤ Archive.longestName) (f : File) :
    (i.entry f).Titled where
  name := hn
  time := Timestamp.time_ofSeconds_lt f.modified
  date := Timestamp.date_ofSeconds_lt f.modified
  mode := i.mode_entry_lt f

namespace Packing
variable {out : Location} {c : Compression} {t t₀ u : FileTree} {p : Path} {i : Item}
  {items : List Item} {g : File} {e : Archive.Entry} {es : List Archive.Entry}

/-- Saving the output matters to no item but the one that reads it. -/
private theorem gives_saved (saved : FileTree.Saved t u out)
    (apart : ∀ i ∈ items, u.locate i.path ≠ .ok out) :
    List.Forall₂ (Item.Gives u) items es ↔ List.Forall₂ (Item.Gives t) items es := by
  have hgives {i : Item} {e : Archive.Entry} (hmem : (i, e) ∈ items.zip es) :
      i.Gives u e ↔ i.Gives t e := by
    simp only [Item.Gives, saved.read_iff (apart i (List.of_mem_zip hmem).1)]
  rw [List.forall₂_iff_zip, List.forall₂_iff_zip]
  exact and_congr_right fun _ =>
    ⟨fun h _ _ hmem => (hgives hmem).mp (h hmem), fun h _ _ hmem => (hgives hmem).mpr (h hmem)⟩

private theorem exists_gives (h : List.Forall₂ (Item.Gives t) items es) (he : e ∈ es) :
    ∃ i ∈ items, i.Gives t e := by
  induction h with
  | nil => cases he
  | @cons i e' is es hi _ ih =>
    obtain rfl | he := List.mem_cons.mp he
    · exact ⟨i, List.mem_cons_self, hi⟩
    · obtain ⟨j, hj, hgives⟩ := ih he
      exact ⟨j, List.mem_cons_of_mem i hj, hgives⟩

/-- Whether items other than the output can be packed, and as what, can be told from the tree with
the empty output. So it is the same whatever the compression. -/
private theorem exists_packs_iff (c : Compression) (ho : t.file? out = some g)
    (apart : ∀ i ∈ items, t.locate i.path ≠ .ok out) :
    (∃ u, Packs out c t items es u) ↔ List.Forall₂ (Item.Gives t) items es := by
  induction items generalizing t g es with
  | nil =>
    constructor
    · rintro ⟨u, h⟩
      cases h
      exact .nil
    · rintro ⟨⟩
      exact ⟨t, .nil t⟩
  | cons i is ih =>
    rw [List.forall_mem_cons] at apart
    have hrest (bytes : Bytes) (es : List Archive.Entry) :
        (∃ u, Packs out c (t.append out bytes) is es u) ↔ List.Forall₂ (Item.Gives t) is es := by
      have hapart : ∀ j ∈ is, (t.append out bytes).locate j.path ≠ .ok out := by
        simpa only [FileTree.locate_append ho] using apart.2
      rw [ih (FileTree.file?_append ho bytes) hapart,
        gives_saved (FileTree.saved_append ho bytes) hapart]
    constructor
    · rintro ⟨u, h⟩
      cases h with
      | cons hf hn hpacks => exact .cons ⟨hn, _, hf, rfl⟩ ((hrest _ _).mp ⟨u, hpacks⟩)
    · rintro (_ | ⟨⟨hn, f, hf, rfl⟩, hes⟩)
      obtain ⟨u, hpacks⟩ := (hrest _ _).mpr hes
      exact ⟨u, .cons hf hn hpacks⟩

/-- Both runs pack the same and stop at the same item, if they stop. The archive is what differs. -/
private theorem exists_writeArchive (created : t.create p = .ok (out, t₀))
    (apart : ∀ i ∈ items, t₀.locate i.path ≠ .ok out) :
    ∃ done es stop, List.Forall₂ (Item.Gives t) done es ∧
      (done = items ∧ stop = none ∨ ∃ i rest failure, items = done ++ i :: rest ∧
        i.fault? t₀ = some failure ∧ stop = some failure) ∧
      ∀ c, writeArchive p c items t = ⟨.ok ⟨done, stop⟩, t.save out (Archive.encode c es),
        (done.zip es).flatMap fun (i, e) => i.traces e.data.length⟩ := by
  have hcreated := FileTree.created_of_create created
  obtain ⟨mode, hfile⟩ := hcreated.file
  have target := FileTree.target?_of_create created
  have hsave (bytes : Bytes) : t₀.append out bytes = t.save out bytes := by
    rw [(FileTree.create_eq_ok.mp created).1,
      FileTree.append_save (FileTree.writable_of_target? target), List.nil_append]
  obtain ⟨done, es, u, packs, -, hend⟩ := packs_or_fault .sound out .stored t₀ items
  have hdone : ∀ i ∈ done, t₀.locate i.path ≠ .ok out := by
    obtain rfl | ⟨i, rest, failure, rfl, -⟩ := hend
    · exact apart
    · exact fun j hj => apart j (List.mem_append_left _ hj)
  have hgives := (exists_packs_iff .stored hfile hdone).mp ⟨u, packs⟩
  have hpacks (c : Compression) : ∃ u, Packs out c t₀ done es u :=
    (exists_packs_iff c hfile hdone).mpr hgives
  rw [gives_saved hcreated.saved hdone] at hgives
  obtain rfl | ⟨i, rest, failure, rfl, hi⟩ := hend
  · refine ⟨done, es, none, hgives, .inl ⟨rfl, rfl⟩, fun c => ?_⟩
    obtain ⟨v, hv⟩ := hpacks c
    rw [writeArchive_of_packs created hv, hsave]
  · have hi : i.fault? t₀ = some failure := (packs.disk_fault? .sound hfile i).symm.trans hi
    refine ⟨done, es, some failure, hgives, .inr ⟨i, rest, failure, rfl, hi, rfl⟩, fun c => ?_⟩
    obtain ⟨v, hv⟩ := hpacks c
    rw [writeArchive_of_fault created hv ((hv.fault? hfile i).trans hi), hsave]

private theorem sized_of_gives (h : List.Forall₂ (Item.Gives t) items es)
    (within : Archive.Within c es) : ∀ e ∈ es, (e.pack c).Sized := by
  intro e he
  obtain ⟨i, -, hn, f, -, rfl⟩ := exists_gives h he
  exact Item.sized_of_within hn within he

private theorem stands_of_gives (h : List.Forall₂ (Item.Gives t) items es) (c : Compression)
    {before after : List Archive.Entry} (hes : es = before ++ e :: after) :
    e.Stands c (Archive.encode c es) (Archive.headerPlace c before)
      (Archive.recordPlace c es before) := by
  have he : e ∈ es := hes ▸ List.mem_append_right _ List.mem_cons_self
  obtain ⟨i, -, hn, f, -, rfl⟩ := exists_gives h he
  rw [hes]
  exact Archive.stands_encode c before _ after (Item.titled_entry hn f)

/-- Compression changes nothing but how an archive holds the data. Where no item is the archive
itself, packing with and without it ends alike and tells the same, also where an item fails or the
archive cannot be made. Both archives have the same entries in the same order, those of the files as
they were. Each stands in both with the same name, checksum, time and mode, and its data is had back
from both. Within the limits of the format a reader finds all of them. -/
theorem writeArchive_compression
    (apart : ∀ out t₀, t.create p = .ok (out, t₀) → ∀ i ∈ items, t₀.locate i.path ≠ .ok out) :
    let stored := writeArchive p .stored items t
    let deflated := writeArchive p .deflated items t
    deflated.outcome = stored.outcome ∧ deflated.events = stored.events ∧
      ((writeArchive p .deflated items >>= settle) t).outcome =
        ((writeArchive p .stored items >>= settle) t).outcome ∧
      (∀ e, t.create p = .error e → stored = ⟨.error ⟨[.creatingArchive p], .file e⟩, t, []⟩ ∧
        deflated = stored) ∧
      ∀ out t₀, t.create p = .ok (out, t₀) → ∃ packing es g g',
        stored.outcome = .ok packing ∧
        (packing = ⟨items, none⟩ ∨ ∃ i rest failure, items = packing.added ++ i :: rest ∧
          i.fault? t₀ = some failure ∧ packing.failure = some failure) ∧
        List.Forall₂ (Item.Gives t) packing.added es ∧
        (∀ l, l ≠ out → stored.tree.node? l = t.node? l ∧ deflated.tree.node? l = t.node? l) ∧
        stored.tree.read p = .ok g ∧ g.bytes = Archive.encode .stored es ∧
        deflated.tree.read p = .ok g' ∧ g'.bytes = Archive.encode .deflated es ∧
        (∀ before e after, es = before ++ e :: after →
          e.Stands .stored g.bytes (Archive.headerPlace .stored before)
              (Archive.recordPlace .stored es before) ∧
            e.Stands .deflated g'.bytes (Archive.headerPlace .deflated before)
              (Archive.recordPlace .deflated es before)) ∧
        (Archive.Within .stored es → Archive.Within .deflated es →
          Archive.Readable g.bytes es ∧ Archive.Readable g'.bytes es) := by
  intro stored deflated
  cases created : t.create p with
  | error e =>
    have hwrite (c : Compression) := writeArchive_of_create_error created c items
    have hsettle (c : Compression) := Action.bind_of_error (hwrite c) settle
    have hsame : deflated = stored := (hwrite .deflated).trans (hwrite .stored).symm
    refine ⟨congrArg Report.outcome hsame, congrArg Report.events hsame, ?_, ?_, ?_⟩
    · rw [hsettle, hsettle]
    · rintro _ ⟨⟩
      exact ⟨hwrite .stored, hsame⟩
    · rintro _ _ ⟨⟩
  | ok made =>
    obtain ⟨out, t₀⟩ := made
    obtain ⟨done, es, stop, hgives, hend, hwrite⟩ :=
      exists_writeArchive created (apart out t₀ created)
    have hsettle (c : Compression) := bind_settle (hwrite c)
    have target := FileTree.target?_of_create created
    have saved (bytes : Bytes) := FileTree.saved_save (FileTree.writable_of_target? target) bytes
    have hstored : stored = _ := hwrite .stored
    have hdeflated : deflated = _ := hwrite .deflated
    obtain ⟨g, hg, hbytes⟩ := FileTree.read_save target (Archive.encode .stored es)
    obtain ⟨g', hg', hbytes'⟩ := FileTree.read_save target (Archive.encode .deflated es)
    rw [hsettle, hsettle, hstored, hdeflated]
    refine ⟨rfl, rfl, rfl, ?_, ?_⟩
    · rintro _ ⟨⟩
    rintro _ _ ⟨⟩
    refine ⟨⟨done, stop⟩, es, g, g', rfl, ?_, hgives, ?_, hg, hbytes, hg', hbytes', ?_, ?_⟩
    · obtain ⟨rfl, rfl⟩ | hstop := hend
      · exact .inl rfl
      · exact .inr hstop
    · exact fun l hl => ⟨(saved _).elsewhere hl, (saved _).elsewhere hl⟩
    · intro before e after hes
      rw [hbytes, hbytes']
      exact ⟨stands_of_gives hgives .stored hes, stands_of_gives hgives .deflated hes⟩
    · intro within within'
      rw [hbytes, hbytes']
      exact ⟨Archive.readable_encode (sized_of_gives hgives within) within,
        Archive.readable_encode (sized_of_gives hgives within') within'⟩

/-- A file, an empty file, a missing one and another file. -/
theorem writeArchive_compression_missing :
    let a : Name := ⟨[0x61], by decide⟩
    let b : Name := ⟨[0x62], by decide⟩
    let c : Name := ⟨[0x63], by decide⟩
    let file (bytes : Bytes) : Node := .file ⟨bytes, 951868799, 0o644⟩
    let t : FileTree := ⟨[⟨[a], file [7, 7], false⟩, ⟨[b], file [], false⟩, ⟨[c], file [1], false⟩],
      0, by decide⟩
    let first : Item := ⟨[0x2f, 0x61], [0x61], some (.addingFile "a")⟩
    let empty : Item := ⟨[0x2f, 0x62], [0xff], some (.addingFile "b")⟩
    let missing : Item := ⟨[0x2f, 0x78], [0x78], some (.addingFile "x")⟩
    let last : Item := ⟨[0x2f, 0x63], [0x63], some (.addingFile "c")⟩
    let items := [first, empty, missing, last]
    let failure : Failure := ⟨[.reading [0x2f, 0x78]], .file (.system .notFound)⟩
    let stored := writeArchive [0x2f, 0x7a] .stored items t
    let deflated := writeArchive [0x2f, 0x7a] .deflated items t
    stored.outcome = .ok ⟨[first, empty], some failure⟩ ∧ deflated.outcome = stored.outcome ∧
      deflated.notices = [.addingFile "a", .addingFile "b"] ∧
      ∃ es g g', es = [first.entry ⟨[7, 7], 951868799, 0o644⟩, empty.entry ⟨[], 951868799, 0o644⟩] ∧
        stored.tree.read [0x2f, 0x7a] = .ok g ∧ deflated.tree.read [0x2f, 0x7a] = .ok g' ∧
        g.bytes ≠ g'.bytes ∧ Archive.Readable g.bytes es ∧ Archive.Readable g'.bytes es := by
  intro a b c file t first empty missing last items failure stored deflated
  let z : Name := ⟨[0x7a], by decide⟩
  have created : t.create [0x2f, 0x7a] = .ok ([z], t.add ⟨[z], .file ⟨[], 0, 0o644⟩, true⟩) := rfl
  have apart : ∀ out t₀, t.create [0x2f, 0x7a] = .ok (out, t₀) →
      ∀ i ∈ items, t₀.locate i.path ≠ .ok out := by
    intro out t₀ h
    cases created.symm.trans h
    decide +kernel
  obtain ⟨houtcome, hevents, -, -, hmade⟩ := writeArchive_compression apart
  obtain ⟨packing, es, g, g', hpacking, -, hgives, -, hg, hbytes, hg', hbytes', -, hread⟩ :=
    hmade _ _ created
  have hstored : stored.outcome = .ok ⟨[first, empty], some failure⟩ := by decide +kernel
  cases hpacking.symm.trans hstored
  have hes : es = [first.entry ⟨[7, 7], 951868799, 0o644⟩, empty.entry ⟨[], 951868799, 0o644⟩] := by
    have hfirst : t.read first.path = .ok ⟨[7, 7], 951868799, 0o644⟩ := rfl
    have hempty : t.read empty.path = .ok ⟨[], 951868799, 0o644⟩ := rfl
    obtain _ | ⟨⟨-, f, hf, rfl⟩, _ | ⟨⟨-, f', hf', rfl⟩, ⟨⟩⟩⟩ := hgives
    cases hf.symm.trans hfirst
    cases hf'.symm.trans hempty
    rfl
  subst hes
  have hwithin (c : Compression) : Archive.Within c
      [first.entry ⟨[7, 7], 951868799, 0o644⟩, empty.entry ⟨[], 951868799, 0o644⟩] := by
    refine ⟨by decide +kernel, ?_, by decide +kernel⟩
    cases c <;> decide +kernel
  obtain ⟨hreadable, hreadable'⟩ := hread (hwithin .stored) (hwithin .deflated)
  refine ⟨hstored, houtcome, ?_, _, g, g', rfl, hg, hg', ?_, hreadable, hreadable'⟩
  · rw [Report.notices, hevents]
    decide +kernel
  · rw [hbytes, hbytes']
    decide +kernel

end Packing
end ThemeBuilder
