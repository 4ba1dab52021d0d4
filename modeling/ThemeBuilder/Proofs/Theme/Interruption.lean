import ThemeBuilder.Proofs.FileTree.Saving
import ThemeBuilder.Proofs.Theme.Packing

/-! Packing that stops at an item that cannot be packed: the archive is the one of the items before
it, and the item's failure is not lost, however the completion of the archive goes. -/
namespace ThemeBuilder
open Archive (localRecords)

/-- Why an item cannot be packed, if it cannot. -/
def Item.fault? (t : FileTree) (i : Item) : Option Failure :=
  match t.read i.path with
  | .error e => some ⟨[.reading i.path], .file e⟩
  | .ok _ =>
    if i.entryName.length ≤ Archive.longestName then none
    else some ⟨[.addingEntry i.entryName], .entryNameTooLong⟩

/-- The same on a disk, which may refuse the file. -/
def Disk.fault? (disk : Disk) (t : FileTree) (i : Item) : Option Failure :=
  match disk.reading i.path with
  | some (.contents e) => some ⟨[.reading i.path], .file e⟩
  | some (.metadata e) =>
    match t.read i.path with
    | .error e => some ⟨[.reading i.path], .file e⟩
    | .ok _ => some ⟨[.readingMetadata i.path], .file e⟩
  | none => i.fault? t

namespace Packing
variable {disk : Disk} {out : Location} {c : Compression} {t t₀ u : FileTree} {p : Path} {i : Item}
  {is items done rest : List Item} {f : File} {es : List Archive.Entry} {failure : Failure}

theorem fault?_eq_none : i.fault? t = none ↔
    (∃ f, t.read i.path = .ok f) ∧ i.entryName.length ≤ Archive.longestName := by
  unfold Item.fault?
  cases t.read i.path <;> simp

private theorem disk_fault?_eq_none : disk.fault? t i = none ↔
    disk.reading i.path = none ∧ i.fault? t = none := by
  unfold Disk.fault?
  rcases disk.reading i.path with _ | _ | _
  · simp
  · simp
  · cases t.read i.path <;> simp

/-- An item other than the archive can be packed if it could before the archive was made. -/
private theorem fault?_create (disk : Disk) (created : t.create p = .ok (out, t₀))
    (hi : t₀.locate i.path ≠ .ok out) : disk.fault? t₀ i = none ↔ disk.fault? t i = none := by
  simp only [disk_fault?_eq_none, fault?_eq_none,
    (FileTree.created_of_create created).saved.read_iff hi]

/-- Whether an item fails depends on no more of its file than whether it can be read. -/
private theorem fault?_congr (disk : Disk) (h : t.read i.path = u.read i.path ∨
    ∃ f g, t.read i.path = .ok f ∧ u.read i.path = .ok g) : disk.fault? t i = disk.fault? u i := by
  unfold Disk.fault? Item.fault?
  obtain h | ⟨f, g, hf, hg⟩ := h
  · rw [h]
  · rw [hf, hg]

/-- The output may grow: what can be packed can be packed still, and what cannot fails as before. -/
private theorem fault?_append (disk : Disk) (ho : t.file? out = some f) (bytes : Bytes) (i : Item) :
    disk.fault? (t.append out bytes) i = disk.fault? t i := by
  apply fault?_congr
  cases hi : t.read i.path with
  | error e => exact .inl (FileTree.read_append_of_error ho bytes hi)
  | ok g =>
    obtain ⟨g', hg'⟩ := FileTree.isFile_iff_read.mp
      ((FileTree.saved_append ho bytes).isFile (FileTree.isFile_iff_read.mpr ⟨g, hi⟩))
    exact .inr ⟨g', g, hg', rfl⟩

theorem Packs.disk_fault? (disk : Disk) (h : Packs out c t items es u) (ho : t.file? out = some f)
    (i : Item) : disk.fault? u i = disk.fault? t i := by
  induction h generalizing f with
  | nil => rfl
  | cons _ _ _ ih => rw [ih (FileTree.file?_append ho _), fault?_append disk ho]

theorem Packs.fault? (h : Packs out c t items es u) (ho : t.file? out = some f) (i : Item) :
    i.fault? u = i.fault? t :=
  h.disk_fault? .sound ho i

/-- An item fails when its file is read, or else for its name. -/
private theorem read_of_fault? (h : disk.fault? t i = some failure) :
    disk.read i.path t = ⟨.error failure, t, []⟩ ∨
      (∃ f, disk.read i.path t = ⟨.ok f, t, []⟩) ∧ Archive.longestName < i.entryName.length ∧
        failure = ⟨[.addingEntry i.entryName], .entryNameTooLong⟩ := by
  unfold Disk.fault? at h
  unfold Disk.read
  rcases hreading : disk.reading i.path with _ | e | e
  · rw [hreading] at h
    dsimp only [Item.fault?] at h ⊢
    split at h
    · rename_i e he
      cases h
      exact .inl (Action.read_of_error he)
    · rename_i f hf
      split at h
      · cases h
      · cases h
        exact .inr ⟨⟨f, Action.read_of_ok hf⟩, Nat.not_le.mp ‹_›, rfl⟩
  · rw [hreading] at h
    cases h
    exact .inl rfl
  · rw [hreading] at h
    dsimp only at h ⊢
    split at h
    · rename_i e he
      cases h
      have hread : discard (Action.read i.path) t =
          (⟨.error ⟨[.reading i.path], .file e⟩, t, []⟩ : Report Unit) := by
        rw [Action.discard_eq, Action.read_of_error he]
        rfl
      exact .inl (Action.bind_of_error hread _)
    · rename_i f hf
      cases h
      have hread : discard (Action.read i.path) t = (⟨.ok (), t, []⟩ : Report Unit) := by
        rw [Action.discard_eq, Action.read_of_ok hf]
        rfl
      exact .inl (Action.bind_of_ok hread _)

/-- An item that cannot be packed leaves nothing in the archive. -/
private theorem packItem_of_fault (out : Location) (c : Compression)
    (h : disk.fault? t i = some failure) : packItem disk out c i t = ⟨.error failure, t, []⟩ := by
  obtain hread | ⟨⟨f, hread⟩, hlong, rfl⟩ := read_of_fault? h
  · rw [packItem, Action.bind_of_error hread]
  · rw [packItem, Action.bind_of_ok hread, if_pos hlong]
    rfl

/-- Nor do those behind it. -/
private theorem packItems_of_fault (out : Location) (c : Compression)
    (h : disk.fault? t i = some failure) (rest : List Item) :
    packItems disk out c (i :: rest) t = ⟨.ok ([], ⟨[], some failure⟩), t, []⟩ := by
  rw [packItems, Action.attempt_bind, packItem_of_fault out c h]
  simp

/-- However the completion goes, the failure of an item is not lost. -/
@[simp]
theorem and_of_failure (done : List Item) (failure : Failure) (finished : Except Failure Unit) :
    (⟨done, some failure⟩ : Packing).and finished = ⟨done, some failure⟩ := by
  cases finished <;> rfl

theorem writeArchiveOn_of_fault (making : disk.making p = none) (hc : t.create p = .ok (out, t₀))
    (h : Packs out c t₀ done es u) (free : ∀ j ∈ done, disk.reading j.path = none)
    (hi : disk.fault? u i = some failure) (rest : List Item) :
    writeArchiveOn disk p c (done ++ i :: rest) t = ⟨.ok ⟨done, some failure⟩,
      t₀.append out (localRecords (es.map (Archive.Entry.pack c)) ++
        (disk.completion p).reaches (Archive.trailer (es.map (Archive.Entry.pack c)))),
      (done.zip es).flatMap fun (i, e) => i.traces e.data.length⟩ := by
  have hitems := packItems_append h free (packItems_of_fault out c hi rest)
  simp only [List.append_nil] at hitems
  rw [writeArchiveOn_of_packItems making hc hitems, h.append, and_of_failure]

theorem writeArchive_of_fault (hc : t.create p = .ok (out, t₀)) (h : Packs out c t₀ done es u)
    (hi : i.fault? u = some failure) (rest : List Item) :
    writeArchive p c (done ++ i :: rest) t = ⟨.ok ⟨done, some failure⟩,
      t₀.append out (Archive.encode c es),
      (done.zip es).flatMap fun (i, e) => i.traces e.data.length⟩ := by
  have hi : Disk.fault? .sound u i = some failure := hi
  exact writeArchiveOn_of_fault rfl hc h (fun _ _ => rfl) hi rest

/-- What stops a packing is never that something is no theme. -/
theorem isNoTheme_of_disk_fault? (h : disk.fault? t i = some failure) :
    failure.isNoTheme = false := by
  unfold Disk.fault? Item.fault? at h
  repeat' split at h
  all_goals
    cases h
    try rfl

theorem isNoTheme_of_fault? (h : i.fault? t = some failure) : failure.isNoTheme = false := by
  have h : Disk.fault? .sound t i = some failure := h
  exact isNoTheme_of_disk_fault? h

/-- Items can be packed up to one that cannot be, if there is such a one. -/
theorem packs_or_fault (disk : Disk) (out : Location) (c : Compression) (t : FileTree)
    (items : List Item) :
    ∃ done es u, Packs out c t done es u ∧ (∀ j ∈ done, disk.reading j.path = none) ∧
      (done = items ∨
        ∃ i rest failure, items = done ++ i :: rest ∧ disk.fault? u i = some failure) := by
  induction items generalizing t with
  | nil => exact ⟨[], [], t, .nil t, by simp, .inl rfl⟩
  | cons i is ih =>
    cases hi : disk.fault? t i with
    | some failure => exact ⟨[], [], t, .nil t, by simp, .inr ⟨i, is, failure, rfl, hi⟩⟩
    | none =>
      obtain ⟨hfree, hi⟩ := disk_fault?_eq_none.mp hi
      obtain ⟨⟨f, hf⟩, hn⟩ := fault?_eq_none.mp hi
      obtain ⟨done, es, u, packs, free, hend⟩ :=
        ih (t.append out (Archive.localRecord ((i.entry f).pack c)))
      refine ⟨_, _, u, .cons hf hn packs, List.forall_mem_cons.mpr ⟨hfree, free⟩, ?_⟩
      obtain rfl | ⟨j, rest, failure, rfl, hj⟩ := hend
      · exact .inl rfl
      · exact .inr ⟨j, rest, failure, rfl, hj⟩

/-- An archive that can be made is complete with the items that could be packed. These are all,
unless one stopped the others. -/
theorem writeArchive_cases (target : t.target? p = some out) (c : Compression)
    (items : List Item) : ∃ done es u stop, Packs out c (t.save out []) done es u ∧
      writeArchive p c items t = ⟨.ok ⟨done, stop⟩, t.save out (Archive.encode c es),
        (done.zip es).flatMap fun (i, e) => i.traces e.data.length⟩ ∧
      (done = items ∧ stop = none ∨
        ∃ i rest failure, items = done ++ i :: rest ∧ i.fault? u = some failure ∧
          stop = some failure) := by
  have created := FileTree.target?_eq_some.mp target
  have hsave (bytes : Bytes) : (t.save out []).append out bytes = t.save out bytes :=
    FileTree.append_save (FileTree.writable_of_target? target) [] bytes
  obtain ⟨done, es, u, packs, -, rfl | ⟨i, rest, failure, rfl, hi⟩⟩ :=
    packs_or_fault .sound out c (t.save out []) items
  · refine ⟨done, es, u, none, packs, ?_, .inl ⟨rfl, rfl⟩⟩
    rw [writeArchive_of_packs created packs, hsave]
  · refine ⟨done, es, u, some failure, packs, ?_, .inr ⟨i, rest, failure, rfl, hi, rfl⟩⟩
    rw [writeArchive_of_fault created packs hi, hsave]

/-- Items that can be packed from the tree with the empty archive can be packed one after the
other. -/
private theorem exists_packs_of_create (created : t.create p = .ok (out, t₀))
    (h : ∀ i ∈ items, disk.fault? t₀ i = none) :
    ∃ es u, Packs out c t₀ items es u ∧ ∀ i ∈ items, disk.reading i.path = none := by
  obtain ⟨mode, hfile⟩ := (FileTree.created_of_create created).file
  have hitem (i : Item) (hi : i ∈ items) := disk_fault?_eq_none.mp (h i hi)
  obtain ⟨es, u, packs⟩ := exists_packs (c := c) hfile
    (fun i hi => (fault?_eq_none.mp (hitem i hi).2).1) fun i hi => (fault?_eq_none.mp (hitem i hi).2).2
  exact ⟨es, u, packs, fun i hi => (hitem i hi).1⟩

/-- Each item that is in the archive is announced, and nothing else is. -/
theorem Packs.notices {α : Type} (h : Packs out c t items es u) (outcome : Except Failure α)
    (v : FileTree) :
    (⟨outcome, v, (items.zip es).flatMap fun (i, e) => i.traces e.data.length⟩ :
      Report α).notices = items.filterMap (·.announcement) := by
  unfold Report.notices
  induction h with
  | nil => rfl
  | @cons t u i is f es _ _ _ ih =>
    rw [List.zip_cons_cons, List.flatMap_cons, List.filterMap_append, ih]
    obtain ⟨path, entryName, announcement⟩ := i
    cases announcement <;> rfl

theorem bind_settle {x : Action Packing} {packing : Packing} {events : List Event}
    (h : x t = ⟨.ok packing, u, events⟩) :
    (x >>= settle) t = ⟨packing.failure.elim (.ok ()) .error, u, events⟩ := by
  rw [Action.bind_of_ok h, settle]
  cases packing.failure <;> simp

/-- A packing without a failure ends as its completion does. -/
@[simp]
private theorem elim_and (items : List Item) (finished : Except Failure Unit) :
    ((⟨items, none⟩ : Packing).and finished).failure.elim (.ok ()) .error = finished := by
  rcases finished with e | ⟨⟩ <;> rfl

private theorem notices_of_packs (h : Packs out c t items es u) {x : Action Packing}
    {outcome : Except Failure Packing} {v w : FileTree}
    (hx : x v = ⟨outcome, w, (items.zip es).flatMap fun (i, e) => i.traces e.data.length⟩) :
    (x v).notices = items.filterMap (·.announcement) := by
  rw [hx, h.notices]

/-- What reaches the file of what completes an archive is the beginning of it. -/
private theorem reaches_beginning (completion : Completion) (trailer : Bytes) :
    completion.reaches trailer <+: trailer := by
  cases completion with
  | whole => exact List.prefix_rfl
  | unclosed kept _ => exact List.take_prefix kept trailer
  | unflushed kept _ => exact List.take_prefix kept trailer

/-- Packing ends at the first item that cannot be packed, be it that the disk refuses it, and with
that item's failure, however the completion of the archive goes. Everything but the failure is as if
the list had ended before the item, also where the completion fails, which then is the failure of
the shorter list: the archive holds the items before, and these have been announced in their order.
A completion that succeeds leaves the archive that the shorter list gives where nothing is refused,
and one that fails leaves the beginning of it. If no item fails, all have been announced, and only
the completion may fail. If no archive can be made, nothing is touched at all. -/
theorem writeArchiveOn_interrupted (disk : Disk) (t : FileTree) (p : Path) (c : Compression)
    (items : List Item) :
    (∀ e, disk.making p = some e ∨ disk.making p = none ∧ t.create p = .error e →
      (writeArchiveOn disk p c items >>= settle) t =
        ⟨.error ⟨[.creatingArchive p], .file e⟩, t, []⟩) ∧
    ∀ out t₀, disk.making p = none → t.create p = .ok (out, t₀) →
      (∀ i ∈ items, t₀.locate i.path ≠ .ok out →
        (disk.fault? t₀ i = none ↔ disk.fault? t i = none)) ∧
      (∀ done i rest failure, items = done ++ i :: rest → (∀ j ∈ done, disk.fault? t₀ j = none) →
        disk.fault? t₀ i = some failure →
        ∃ u events g whole,
          writeArchiveOn disk p c items t = ⟨.ok ⟨done, some failure⟩, u, events⟩ ∧
          (writeArchiveOn disk p c items >>= settle) t = ⟨.error failure, u, events⟩ ∧
          (writeArchiveOn disk p c done >>= settle) t =
            ⟨(disk.completion p).outcome p, u, events⟩ ∧
          (writeArchiveOn disk p c items t).notices = done.filterMap (·.announcement) ∧
          u.read p = .ok g ∧ (writeArchive p c done t).tree.read p = .ok whole ∧
          g.bytes <+: whole.bytes ∧
          (disk.completion p = .whole →
            (writeArchive p c done >>= settle) t = ⟨.ok (), u, events⟩)) ∧
      ((∀ i ∈ items, disk.fault? t₀ i = none) →
        ∃ u events,
          (writeArchiveOn disk p c items >>= settle) t =
            ⟨(disk.completion p).outcome p, u, events⟩ ∧
          (writeArchiveOn disk p c items t).notices = items.filterMap (·.announcement) ∧
          (disk.completion p = .whole →
            (writeArchive p c items >>= settle) t = ⟨.ok (), u, events⟩)) := by
  refine ⟨fun e he => ?_, fun out t₀ making created => ⟨fun i _ => fault?_create disk created,
    ?_, ?_⟩⟩
  · exact Action.bind_of_error (writeArchiveOn_of_create_error he c items) settle
  · rintro done i rest failure rfl hdone hi
    have hcreated := FileTree.created_of_create created
    obtain ⟨mode, hfile⟩ := hcreated.file
    obtain ⟨es, u, packs, free⟩ := exists_packs_of_create (c := c) created hdone
    -- the item fails when its turn comes as it would have failed at once
    have hfault : disk.fault? u i = some failure := (packs.disk_fault? disk hfile i).trans hi
    have stopped := writeArchiveOn_of_fault making created packs free hfault rest
    have alone := bind_settle (writeArchiveOn_of_packs making created packs free)
    have sound := writeArchive_of_packs created packs
    rw [elim_and] at alone
    obtain ⟨g, hg, hbytes⟩ := hcreated.read_append _
    obtain ⟨whole, hwhole, hall⟩ := read_writeArchive created packs
    refine ⟨_, _, g, whole, stopped, bind_settle stopped, alone, notices_of_packs packs stopped, hg,
      hwhole, ?_, fun hcompletion => ?_⟩
    · rw [hbytes, hall]
      exact (List.prefix_append_right_inj _).mpr (reaches_beginning _ _)
    · rw [hcompletion]
      exact bind_settle sound
  · intro hitems
    obtain ⟨es, u, packs, free⟩ := exists_packs_of_create (c := c) created hitems
    have alone := writeArchiveOn_of_packs making created packs free
    have hsettle := bind_settle alone
    rw [elim_and] at hsettle
    refine ⟨_, _, hsettle, notices_of_packs packs alone, fun hcompletion => ?_⟩
    rw [hcompletion]
    exact bind_settle (writeArchive_of_packs created packs)

/-- The second of three files may not be read, and there is no space to complete the archive. Where
there is, the archive is that of the first file. -/
theorem writeArchiveOn_interrupted_unreadable :
    let a : Name := ⟨[0x61], by decide⟩
    let b : Name := ⟨[0x62], by decide⟩
    let s : Name := ⟨[0x73], by decide⟩
    let z : Name := ⟨[0x7a], by decide⟩
    let file (bytes : Bytes) (mode : Nat) : Node := .file ⟨bytes, 0, mode⟩
    let t : FileTree := ⟨[⟨[a], file [1] 0o644, false⟩, ⟨[s], file [3] 0o200, false⟩,
      ⟨[b], file [2] 0o644, false⟩], 0, by decide⟩
    let full : Disk :=
      { Disk.guarding t with completion := fun _ => .unclosed 3 (.system .noSpace) }
    let first : Item := ⟨[0x2f, 0x61], [0x61], some (.addingFile "a")⟩
    let secret : Item := ⟨[0x2f, 0x73], [0x73], some (.addingFile "s")⟩
    let last : Item := ⟨[0x2f, 0x62], [0x62], some (.addingFile "b")⟩
    let failure : Failure := ⟨[.reading [0x2f, 0x73]], .file (.system .permissionDenied)⟩
    t.create [0x2f, 0x7a] = .ok ([z], t.add ⟨[z], file [] 0o644, true⟩) ∧
    (∃ u events,
      (writeArchiveOn full [0x2f, 0x7a] .stored [first, secret, last] >>= settle) t =
        ⟨.error failure, u, events⟩ ∧
      (writeArchiveOn full [0x2f, 0x7a] .stored [first] >>= settle) t =
        ⟨.error ⟨[.finalizing [0x2f, 0x7a]], .file (.system .noSpace)⟩, u, events⟩) ∧
    ∃ u events,
      (writeArchiveOn (.guarding t) [0x2f, 0x7a] .stored [first, secret, last] >>= settle) t =
        ⟨.error failure, u, events⟩ ∧
      (writeArchiveOn (.guarding t) [0x2f, 0x7a] .stored [first, secret, last] t).notices =
        [.addingFile "a"] ∧
      (writeArchive [0x2f, 0x7a] .stored [first] >>= settle) t = ⟨.ok (), u, events⟩ := by
  intro a b s z file t full first secret last failure
  have created : t.create [0x2f, 0x7a] = .ok ([z], t.add ⟨[z], file [] 0o644, true⟩) := rfl
  have packable (disk : Disk) (h : disk.reading = (Disk.guarding t).reading) :
      ∀ j ∈ [first], disk.fault? (t.add ⟨[z], file [] 0o644, true⟩) j = none := by
    intro j hj
    rw [List.mem_singleton.mp hj, Disk.fault?, h]
    rfl
  obtain ⟨-, made⟩ := writeArchiveOn_interrupted full t [0x2f, 0x7a] .stored [first, secret, last]
  obtain ⟨-, stopped, -⟩ := made _ _ rfl created
  obtain ⟨u, events, -, -, -, hstopped, halone, -⟩ :=
    stopped [first] secret [last] failure rfl (packable full rfl) rfl
  obtain ⟨-, made⟩ :=
    writeArchiveOn_interrupted (.guarding t) t [0x2f, 0x7a] .stored [first, secret, last]
  obtain ⟨-, stopped, -⟩ := made _ _ rfl created
  obtain ⟨v, more, -, -, -, hended, -, hnotices, -, -, -, hwhole⟩ :=
    stopped [first] secret [last] failure rfl (packable _ rfl) rfl
  exact ⟨created, ⟨u, events, hstopped, halone⟩, v, more, hended, hnotices, hwhole rfl⟩

end Packing
end ThemeBuilder
