import ThemeBuilder.Proofs.Theme.Directory
import ThemeBuilder.Proofs.Theme.Interruption

/-! What the archive of a theme holds: its visible files as they were before, each under its own
name. -/
namespace ThemeBuilder

/-- The entry for a file of a theme. -/
def Config.entryOf (config : Config) (x : Name × File) : Archive.Entry where
  name := config.entryFor x.1.bytes
  data := x.2.bytes
  stamp := Timestamp.ofSeconds x.2.modified
  mode := 0o100000 ||| x.2.mode % 0o10000

theorem Config.entryFor_injective (config : Config) {m n : Name}
    (h : config.entryFor m.bytes = config.entryFor n.bytes) : m = n :=
  Name.bytes_injective (List.append_cancel_left h)

namespace Theme

@[simp]
theorem entry_item (config : Config) (dir : Path) (x : Name × File) :
    (item config dir x.1).entry x.2 = config.entryOf x := by
  have hmode : Archive.regularFile + x.2.mode % 0x1000 = 0o100000 ||| x.2.mode % 0o10000 :=
    Nat.two_pow_add_eq_or_of_lt (i := 12) (Nat.mod_lt _ (by decide)) 8
  rw [Item.entry, hmode]
  rfl

/-- Whether a name is not hidden. -/
def shown (config : Config) (n : Name) : Bool :=
  (Utf8.lossyChars n.bytes).head? != some config.hiddenMark

@[simp]
theorem hides_lossy (config : Config) (n : Name) :
    (!config.hides (Utf8.lossy n.bytes)) = shown config n := by
  rw [Config.hides, Utf8.lossy, String.toList_ofList]
  rfl

/-- The files directly in a directory whose names are not hidden, in its order. -/
def visibleFiles (config : Config) (t : FileTree) (dir : Path) : List (Name × File) :=
  (t.filesIn dir).filter fun x => shown config x.1

/-- The entries for the files directly in a directory whose names are not hidden, in its order. -/
def archived (config : Config) (t : FileTree) (dir : Path) : List Archive.Entry :=
  (visibleFiles config t dir).map config.entryOf

/-- Files made elsewhere do not change the visible ones. -/
theorem visibleFiles_of_later {config : Config} {t u : FileTree} {W : Location → Prop} {dir : Path}
    (h : FileTree.Later t u W) (hd : t.isDirectory dir = true)
    (apart : u.Avoids dir (shown config) W) :
    visibleFiles config u dir = visibleFiles config t dir :=
  h.filter_filesIn hd apart

private theorem files_eq (config : Config) {t : FileTree} {dir : Path}
    (h : t.isDirectory dir = true) : files config dir t =
      ⟨.ok ((visibleFiles config t dir).map Prod.fst), t, skips (visibleFile config) t dir⟩ := by
  have hlist := listKept_eq h fun s => !config.hides s
  simp only [hides_lossy] at hlist
  exact hlist

/-- No two entries have the same name. -/
private theorem nodup_archived (config : Config) (t : FileTree) (dir : Path) :
    ((archived config t dir).map (·.name)).Nodup := by
  have hnames : ((visibleFiles config t dir).map Prod.fst).Nodup :=
    (FileTree.nodup_filesIn t dir).sublist (List.filter_sublist.map Prod.fst)
  have hentries := hnames.map (f := fun n : Name => config.entryFor n.bytes) fun _ _ =>
    config.entryFor_injective
  rw [List.map_map] at hentries
  rw [archived, List.map_map]
  exact hentries

private theorem eq_map_entryOf {config : Config} {dir : Path} {t : FileTree}
    {xs : List (Name × File)} {es : List Archive.Entry}
    (hr : ∀ x ∈ xs, t.read (dir.join x.1.bytes) = .ok x.2)
    (h : List.Forall₂ (fun i e => ∃ f, t.read i.path = .ok f ∧ e = i.entry f)
      ((xs.map Prod.fst).map (item config dir)) es) : es = xs.map config.entryOf := by
  induction xs generalizing es with
  | nil =>
    cases h
    rfl
  | cons x xs ih =>
    rw [List.forall_mem_cons] at hr
    obtain _ | ⟨⟨f, hf, rfl⟩, hrest⟩ := h
    cases hf.symm.trans hr.1
    rw [List.map_cons, entry_item, ih hr.2 hrest]

/-- Files apart from the archive can be packed, as they were before. -/
private theorem packs_archived (config : Config) (c : Compression) {dir p : Path} {t t₀ : FileTree}
    {loc : Location} (created : t.create p = .ok (loc, t₀)) {xs : List (Name × File)}
    (hr : ∀ x ∈ xs, t.read (dir.join x.1.bytes) = .ok x.2)
    (hout : ∀ x ∈ xs, t.locate (dir.join x.1.bytes) ≠ .ok loc)
    (hn : ∀ x ∈ xs, (config.entryFor x.1.bytes).length ≤ Archive.longestName) :
    ∃ u, Packing.Packs loc c t₀ ((xs.map Prod.fst).map (item config dir))
      (xs.map config.entryOf) u := by
  have hcreated := FileTree.created_of_create created
  obtain ⟨mode, hfile⟩ := hcreated.file
  have hitems : ∀ i ∈ (xs.map Prod.fst).map (item config dir), (∃ f, t₀.read i.path = .ok f) ∧
      i.entryName.length ≤ Archive.longestName ∧ t₀.locate i.path ≠ .ok loc := by
    intro i hi
    rw [List.map_map] at hi
    obtain ⟨x, hx, rfl⟩ := List.mem_map.mp hi
    refine ⟨⟨x.2, hcreated.saved.read (hr x hx) (hout x hx)⟩, hn x hx, ?_⟩
    obtain ⟨l, hl, -⟩ := FileTree.read_eq_ok.mp (hr x hx)
    have hne : l ≠ loc := by
      rintro rfl
      exact hout x hx hl
    change t₀.locate (dir.join x.1.bytes) ≠ _
    rw [hcreated.saved.locate hl]
    simpa using hne
  obtain ⟨es, u, h⟩ := Packing.exists_packs (c := c) hfile (fun i hi => (hitems i hi).1)
    fun i hi => (hitems i hi).2.1
  have hes := h.forall₂ hfile (fun i hi => (hitems i hi).2.2) fun i hi f hf =>
    hcreated.saved.read_back hf (hitems i hi).2.2
  exact ⟨u, eq_map_entryOf hr hes ▸ h⟩

/-- Whether the name of an entry is short enough. -/
def admits (config : Config) (x : Name × File) : Bool :=
  (config.entryFor x.1.bytes).length ≤ Archive.longestName

/-- The files before the first one whose entry's name is too long. -/
def packable (config : Config) (xs : List (Name × File)) : List (Name × File) :=
  xs.takeWhile (admits config)

/-- Why not all files are packed, if they are not. -/
def refusal? (config : Config) (xs : List (Name × File)) : Option Failure :=
  (xs.find? fun x => !admits config x).map fun x =>
    ⟨[.addingEntry (config.entryFor x.1.bytes)], .entryNameTooLong⟩

/-- The bytes of an archive of files. -/
def packed (config : Config) (xs : List (Name × File)) : Bytes :=
  Archive.encode config.compression ((packable config xs).map config.entryOf)

/-- What is told of files that are packed. -/
def additions (config : Config) (xs : List (Name × File)) : List Event :=
  xs.flatMap fun x =>
    [.diagnostic (.entryWritten (config.entryFor x.1.bytes) x.2.bytes.length),
      .notice (.addingFile (Utf8.lossy x.1.bytes))]

private theorem refusal?_eq_none {config : Config} {xs : List (Name × File)} :
    refusal? config xs = none ↔ ∀ x ∈ xs, (config.entryFor x.1.bytes).length ≤ Archive.longestName := by
  simp [refusal?, admits]

/-- Files split at the first whose entry's name is too long. -/
private theorem refusal?_cases (config : Config) (xs : List (Name × File)) :
    (packable config xs = xs ∧ refusal? config xs = none) ∨
      ∃ x rest, xs = packable config xs ++ x :: rest ∧
        Archive.longestName < (config.entryFor x.1.bytes).length ∧
        refusal? config xs = some ⟨[.addingEntry (config.entryFor x.1.bytes)], .entryNameTooLong⟩ := by
  induction xs with
  | nil => exact .inl ⟨rfl, rfl⟩
  | cons x xs ih =>
    by_cases hx : admits config x = true
    · have hp : packable config (x :: xs) = x :: packable config xs := List.takeWhile_cons_of_pos hx
      have hr : refusal? config (x :: xs) = refusal? config xs := by
        rw [refusal?, List.find?_cons_of_neg (by simp [hx])]
        rfl
      rw [hp, hr]
      obtain ⟨hxs, hnone⟩ | ⟨y, rest, hxs, hy, hsome⟩ := ih
      · exact .inl ⟨by rw [hxs], hnone⟩
      · exact .inr ⟨y, rest, by rw [List.cons_append, ← hxs], hy, hsome⟩
    · have hp : packable config (x :: xs) = [] := List.takeWhile_cons_of_neg hx
      have hr : refusal? config (x :: xs) =
          some ⟨[.addingEntry (config.entryFor x.1.bytes)], .entryNameTooLong⟩ := by
        rw [refusal?, List.find?_cons_of_pos (by simpa using hx)]
        rfl
      rw [hp, hr]
      exact .inr ⟨x, xs, rfl, by simpa [admits] using hx, rfl⟩

private theorem packable_admitted {config : Config} {xs : List (Name × File)} {x : Name × File}
    (h : x ∈ packable config xs) : (config.entryFor x.1.bytes).length ≤ Archive.longestName := by
  simpa [admits] using List.mem_takeWhile_imp h

private theorem additions_eq (config : Config) (dir : Path) (xs : List (Name × File)) :
    ((((xs.map Prod.fst).map (item config dir)).zip (xs.map config.entryOf)).flatMap
      fun (i, e) => i.traces e.data.length) = additions config xs := by
  induction xs with
  | nil => rfl
  | cons x xs ih =>
    simp only [List.map_cons, List.zip_cons_cons, List.flatMap_cons, ih, additions]
    rfl

/-- Packing the files of a directory, none of which is the archive. -/
private theorem writeArchive_files (config : Config) {dir p : Path} {t : FileTree} {loc : Location}
    (target : t.target? p = some loc) {xs : List (Name × File)}
    (hr : ∀ x ∈ xs, t.read (dir.join x.1.bytes) = .ok x.2)
    (hout : ∀ x ∈ xs, t.locate (dir.join x.1.bytes) ≠ .ok loc) :
    Packing.writeArchive p config.compression ((xs.map Prod.fst).map (item config dir)) t =
      ⟨.ok ⟨((packable config xs).map Prod.fst).map (item config dir), refusal? config xs⟩,
        t.save loc (packed config xs), additions config (packable config xs)⟩ := by
  have created := FileTree.target?_eq_some.mp target
  have hsub : ∀ x ∈ packable config xs, x ∈ xs := fun x hx => (List.takeWhile_sublist _).subset hx
  obtain ⟨u, hpacks⟩ := packs_archived config config.compression created
    (fun x hx => hr x (hsub x hx)) (fun x hx => hout x (hsub x hx)) fun x hx => packable_admitted hx
  rw [← additions_eq config dir]
  have hsave : (t.save loc []).append loc
      (Archive.encode config.compression ((packable config xs).map config.entryOf)) =
        t.save loc (packed config xs) :=
    FileTree.append_save (FileTree.writable_of_target? target) [] _
  rw [← hsave]
  obtain ⟨hxs, hnone⟩ | ⟨x, rest, hxs, hlong, hsome⟩ := refusal?_cases config xs
  · rw [hnone]
    conv_lhs => rw [← hxs]
    exact Packing.writeArchive_of_packs created hpacks
  · have hx : x ∈ xs := by
      rw [hxs]
      exact List.mem_append_right _ List.mem_cons_self
    have hcreated := FileTree.created_of_create created
    obtain ⟨mode, hfile⟩ := hcreated.file
    -- the item fails when its turn comes as it would fail at once
    have hfault : (item config dir x.1).fault? u =
        some ⟨[.addingEntry (config.entryFor x.1.bytes)], .entryNameTooLong⟩ := by
      rw [hpacks.fault? hfile, Item.fault?]
      have hread : (t.save loc []).read (item config dir x.1).path = .ok x.2 :=
        hcreated.saved.read (hr x hx) (hout x hx)
      rw [hread]
      exact if_neg (Nat.not_le.mpr hlong)
    rw [hsome]
    conv_lhs => rw [hxs, List.map_append, List.map_append, List.map_cons, List.map_cons]
    exact Packing.writeArchive_of_fault created hpacks hfault _

/-- What is noted at the end if all files are packed. -/
def completion (config : Config) (base : Path) (name : Bytes) (xs : List (Name × File)) :
    List Event :=
  if refusal? config xs = none then
    [.diagnostic (.archiveWritten (base.join (config.archiveFor name)) xs.length)]
  else []

/-- The files of a theme are listed before its archive is made, and the build is done when that
is. -/
theorem build_of_writeArchive {config : Config} {base : Path} {name : Bytes} {t u : FileTree}
    {packing : Packing} {events : List Event} (named : name ≠ [])
    (present : t.isDirectory (base.join name) = true)
    (h : Packing.writeArchive (base.join (config.archiveFor name)) config.compression
      (((visibleFiles config t (base.join name)).map Prod.fst).map (item config (base.join name)))
      t = ⟨.ok packing, u, events⟩) :
    build config base name t =
      ⟨packing.failure.elim (.ok (base.join (config.archiveFor name))) .error, u,
        skips (visibleFile config) t (base.join name) ++ (.notice (.building (Utf8.lossy name)) ::
          (events ++ packing.failure.elim
            [.diagnostic (.archiveWritten (base.join (config.archiveFor name))
              (visibleFiles config t (base.join name)).length)] fun _ => []))⟩ := by
  rw [Packing.writeArchive] at h
  have hsettle := Packing.bind_settle h
  rw [build, buildOn, Action.look_bind, directory?_eq_some named present]
  dsimp only
  rw [Action.bind_of_ok (files_eq config present), Action.print_bind]
  obtain ⟨added, _ | e⟩ := packing
  · rw [Action.bind_of_ok hsettle, List.length_map]
    rfl
  · rw [Action.bind_of_error hsettle]
    simp only [Option.elim, List.append_nil]

/-- The archive of a theme is made from its visible files as they were, and nothing else is
written. -/
theorem build_eq {config : Config} {base : Path} {name : Bytes} {t : FileTree} {loc : Location}
    (target : t.target? (base.join (config.archiveFor name)) = some loc)
    (named : name ≠ []) (present : t.isDirectory (base.join name) = true)
    (apart : t.Avoids (base.join name) (shown config) (· = loc)) :
    build config base name t =
      ⟨(refusal? config (visibleFiles config t (base.join name))).elim
          (.ok (base.join (config.archiveFor name))) .error,
        t.save loc (packed config (visibleFiles config t (base.join name))),
        skips (visibleFile config) t (base.join name) ++ (.notice (.building (Utf8.lossy name)) ::
          (additions config (packable config (visibleFiles config t (base.join name))) ++
            completion config base name (visibleFiles config t (base.join name))))⟩ := by
  have hxs : ∀ x ∈ visibleFiles config t (base.join name),
      t.read ((base.join name).join x.1.bytes) = .ok x.2 ∧
        t.locate ((base.join name).join x.1.bytes) ≠ .ok loc := by
    intro x hx
    obtain ⟨hx, hkept⟩ := List.mem_filter.mp hx
    exact ⟨FileTree.read_of_mem_filesIn hx, apart x hx hkept loc rfl⟩
  have hwrite := writeArchive_files config target (fun x hx => (hxs x hx).1)
    fun x hx => (hxs x hx).2
  rw [build_of_writeArchive named present hwrite, completion]
  cases hrefusal : refusal? config (visibleFiles config t (base.join name)) <;> rfl

/-- A name that is no theme is reported, and nothing is touched. -/
theorem build_of_missing (config : Config) {base : Path} {name : Bytes} {t : FileTree}
    (missing : directory? t base name = none) :
    build config base name t =
      ⟨.error ⟨[], .theme (.invalidTheme (Utf8.lossy name))⟩, t,
        [.notice (.invalidTheme (Utf8.lossy name))]⟩ := by
  rw [build, buildOn, Action.look_bind, missing]
  rfl

theorem build_of_create_error {config : Config} {base : Path} {name : Bytes} {t : FileTree}
    {e : FileError} (h : t.create (base.join (config.archiveFor name)) = .error e)
    (named : name ≠ []) (present : t.isDirectory (base.join name) = true) :
    build config base name t =
      ⟨.error ⟨[.creatingArchive (base.join (config.archiveFor name))], .file e⟩, t,
        skips (visibleFile config) t (base.join name) ++ [.notice (.building (Utf8.lossy name))]⟩ := by
  have hwrite (items : List Item) :=
    Action.bind_of_error (Packing.writeArchive_of_create_error h config.compression items)
      Packing.settle
  simp only [Packing.writeArchive] at hwrite
  rw [build, buildOn, Action.look_bind, directory?_eq_some named present]
  dsimp only
  rw [Action.bind_of_ok (files_eq config present), Action.print_bind,
    Action.bind_of_error (hwrite _)]

theorem build_ends {config : Config} {base : Path} {name : Bytes} {t t₀ : FileTree} {loc : Location}
    (created : t.create (base.join (config.archiveFor name)) = .ok (loc, t₀))
    (named : name ≠ []) (present : t.isDirectory (base.join name) = true)
    (apart : t.Avoids (base.join name) (shown config) (· = loc))
    (fits : ∀ e ∈ archived config t (base.join name), e.name.length ≤ Archive.longestName) :
    (build config base name).Ends t (base.join (config.archiveFor name))
      (t₀.append loc
        (Archive.encode config.compression (archived config t (base.join name)))) := by
  have target := FileTree.target?_of_create created
  have hnone : refusal? config (visibleFiles config t (base.join name)) = none :=
    refusal?_eq_none.mpr fun x hx => fits _ (List.mem_map_of_mem hx)
  have hpacked : packed config (visibleFiles config t (base.join name)) =
      Archive.encode config.compression (archived config t (base.join name)) := by
    obtain ⟨hxs, -⟩ | ⟨x, rest, -, -, hsome⟩ :=
      refusal?_cases config (visibleFiles config t (base.join name))
    · rw [packed, hxs]
      rfl
    · rw [hnone] at hsome
      cases hsome
  have h := build_eq target named present apart
  obtain ⟨rfl, -⟩ := FileTree.create_eq_ok.mp created
  rw [FileTree.append_save (FileTree.writable_of_target? target), List.nil_append, ← hpacked]
  rw [hnone] at h
  exact ⟨_, h⟩

private theorem fits_archived {config : Config} {t : FileTree} {dir : Path} {e : Archive.Entry}
    (he : e ∈ archived config t dir) (hn : e.name.length ≤ Archive.longestName)
    (hd : e.data.length < 2 ^ 32) : (e.pack .stored).Fits := by
  obtain ⟨x, -, rfl⟩ := List.mem_map.mp he
  rw [← entry_item config dir x] at hn hd ⊢
  exact Item.fits_entry hn hd

/-- Both ways of reading the archive of a theme find the theme's visible files as they were before
the call, in the order of its directory, whatever was at the archive's path. -/
theorem read?_scan?_build {config : Config} {base : Path} {name : Bytes} {t t₀ : FileTree}
    {loc : Location} (stored : config.compression = .stored)
    (created : t.create (base.join (config.archiveFor name)) = .ok (loc, t₀))
    (named : name ≠ []) (present : t.isDirectory (base.join name) = true)
    (apart : t.Avoids (base.join name) (shown config) (· = loc))
    (fits : ∀ e ∈ archived config t (base.join name), e.name.length ≤ Archive.longestName)
    (count : (archived config t (base.join name)).length ≤ 65535)
    (size : (Archive.encode .stored (archived config t (base.join name))).length < 2 ^ 32) :
    (build config base name t).outcome = .ok (base.join (config.archiveFor name)) ∧
      (∃ g, (build config base name t).tree.read (base.join (config.archiveFor name)) = .ok g ∧
        g.bytes = Archive.encode .stored (archived config t (base.join name)) ∧
        Archive.read? g.bytes = some (archived config t (base.join name)) ∧
        (Archive.catalogue? g.bytes).map (List.map fun l => (l.header, l.name, l.mode)) =
          some ((archived config t (base.join name)).map fun e => (e.header, e.name, e.mode)) ∧
        Archive.scan? g.bytes =
          some ((archived config t (base.join name)).map fun e => ⟨e.header, e.name, e.data⟩)) ∧
      ((archived config t (base.join name)).map (·.name)).Nodup ∧
      (config.entryPrefix = "./" → ∀ e ∈ archived config t (base.join name),
        ∃ c, IsName c ∧ e.name = Bytes.dot :: Bytes.slash :: c) := by
  obtain ⟨events, h⟩ := build_ends created named present apart fits
  obtain ⟨g, hg, hbytes⟩ := (FileTree.created_of_create created).read_append
    (Archive.encode .stored (archived config t (base.join name)))
  have hfits := fun e he => fits_archived he (fits e he)
  rw [h, stored]
  refine ⟨rfl, ⟨g, hg, hbytes, ?_, ?_, ?_⟩, nodup_archived .., ?_⟩
  · rw [hbytes, Archive.read?_encode hfits (by omega) size]
  · rw [hbytes, Archive.catalogue?_encode hfits (by omega) size]
  · rw [hbytes, Archive.scan?_encode hfits (by omega) size]
  · intro hdefault e he
    obtain ⟨x, -, rfl⟩ := List.mem_map.mp he
    refine ⟨x.1.bytes, x.1.isName, ?_⟩
    rw [Config.entryOf, Config.entryFor, hdefault]
    rfl

/-- A theme with a file whose name is no UTF-8, a link to that file, a hidden link to the archive,
which is there already, and a directory. -/
theorem read?_scan?_build_links :
    let theme : Name := ⟨[0x74], by decide⟩
    let archive : Name := ⟨Utf8.encode "t.zip", by decide +kernel⟩
    let odd : Name := ⟨[0xff], by decide⟩
    let link : Name := ⟨Utf8.encode "a", by decide +kernel⟩
    let hidden : Name := ⟨Utf8.encode ".t", by decide +kernel⟩
    let folder : Name := ⟨Utf8.encode "b", by decide +kernel⟩
    let t : FileTree :=
      ⟨[⟨[theme], .directory, false⟩,
        ⟨[odd, theme], .file ⟨Archive.endSignature, 0, 0o755⟩, false⟩,
        ⟨[link, theme], .link [0xff], false⟩,
        ⟨[hidden, theme], .link (Utf8.encode "../t.zip"), false⟩,
        ⟨[folder, theme], .directory, false⟩,
        ⟨[archive], .file ⟨Utf8.encode "old", 0, 0o644⟩, false⟩], 0, by decide +kernel⟩
    t.create (Utf8.encode "/t.zip") = .ok ([archive], t.write [archive] []) ∧
      t.isDirectory [0x2f, 0x74] = true ∧
      (build {} [0x2f] [0x74] t).outcome = .ok (Utf8.encode "/t.zip") ∧
      ∃ g, (build {} [0x2f] [0x74] t).tree.read (Utf8.encode "/t.zip") = .ok g ∧
        Archive.read? g.bytes =
          some [⟨[0x2e, 0x2f, 0xff], Archive.endSignature, Timestamp.ofSeconds 0, 0o100755⟩,
            ⟨[0x2e, 0x2f, 0x61], Archive.endSignature, Timestamp.ofSeconds 0, 0o100755⟩] := by
  intro theme archive odd link hidden folder t
  have created : t.create (Path.join [0x2f] (({} : Config).archiveFor [0x74])) =
      .ok ([archive], t.write [archive] []) := rfl
  have present : t.isDirectory (Path.join [0x2f] [0x74]) = true := by decide +kernel
  have apart : t.Avoids (Path.join [0x2f] [0x74]) (shown {}) (· = [archive]) := by
    rw [FileTree.avoids_iff]
    decide +kernel
  have entries : archived {} t (Path.join [0x2f] [0x74]) =
      [⟨[0x2e, 0x2f, 0xff], Archive.endSignature, Timestamp.ofSeconds 0, 0o100755⟩,
        ⟨[0x2e, 0x2f, 0x61], Archive.endSignature, Timestamp.ofSeconds 0, 0o100755⟩] := by
    decide +kernel
  obtain ⟨houtcome, ⟨g, hg, -, hread, -⟩, -⟩ := read?_scan?_build rfl created (by decide) present
    apart (by rw [entries]; decide) (by rw [entries]; decide) (by rw [entries]; decide +kernel)
  exact ⟨created, present, houtcome, g, hg, hread.trans (congrArg some entries)⟩

end Theme
end ThemeBuilder
