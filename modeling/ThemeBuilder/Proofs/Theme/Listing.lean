import ThemeBuilder.Proofs.Action
import ThemeBuilder.Proofs.Style.Output
import ThemeBuilder.Proofs.Text.Suffix
import ThemeBuilder.Proofs.Theme.Directory
import ThemeBuilder.Theme.Listing

/-! What the definition listing of a theme holds: the listings of its style sources as they were
before, one after the other. -/
namespace ThemeBuilder

namespace Theme

/-- Whether a name is that of a style source. -/
def marked (config : Config) (n : Name) : Bool :=
  config.sourceExtension.toList.isSuffixOf (Utf8.lossyChars n.bytes)

@[simp]
theorem isSource_lossy (config : Config) (n : Name) :
    config.isSource (Utf8.lossy n.bytes) = marked config n := by
  rw [Bool.eq_iff_iff, Config.isSource_iff, Utf8.lossy, String.toList_ofList, marked,
    List.isSuffixOf_iff_suffix]

/-- The style sources directly in a directory, in its order. -/
def sources (config : Config) (t : FileTree) (dir : Path) : List (Name × File) :=
  (t.filesIn dir).filter fun x => marked config x.1

/-- The listings of the style sources directly in a directory, in its order. -/
def compiled (config : Config) (t : FileTree) (dir : Path) : Bytes :=
  (sources config t dir).flatMap fun x => Style.listing x.2.bytes

/-- Files made elsewhere do not change the sources. -/
theorem sources_of_later {config : Config} {t u : FileTree} {W : Location → Prop} {dir : Path}
    (h : FileTree.Later t u W) (hd : t.isDirectory dir = true)
    (apart : u.Avoids dir (marked config) W) : sources config u dir = sources config t dir :=
  h.filter_filesIn hd apart

theorem styleSources_eq (config : Config) {t : FileTree} {dir : Path}
    (h : t.isDirectory dir = true) :
    styleSources config dir t =
      ⟨.ok ((sources config t dir).map Prod.fst), t, skips (styleSource config) t dir⟩ := by
  have hlist := listKept_eq h config.isSource
  simp only [isSource_lossy] at hlist
  exact hlist

/-- What is noted of sources that are compiled. -/
def compilations (dir : Path) (xs : List (Name × File)) : List Event :=
  xs.map fun x =>
    .diagnostic (.sourceCompiled (dir.join x.1.bytes) (Style.listingLines x.2.bytes).length)

/-- Sources that are not the output come out as they were, behind what was held back. -/
theorem compileSources_eq {out : Location} {dir : Path} {t : FileTree} {g : File}
    (ho : t.file? out = some g) (pending : Bytes) {xs : List (Name × File)}
    (hr : ∀ x ∈ xs, t.read (dir.join x.1.bytes) = .ok x.2)
    (hout : ∀ x ∈ xs, t.locate (dir.join x.1.bytes) ≠ .ok out) :
    compileSources out pending ((xs.map Prod.fst).map fun n => dir.join n.bytes) t =
      ⟨.ok (), t.append out (pending ++ xs.flatMap fun x => Style.listing x.2.bytes),
        compilations dir xs⟩ := by
  induction xs generalizing t g pending with
  | nil =>
    rw [List.flatMap_nil, List.append_nil]
    rfl
  | cons x xs ih =>
    obtain ⟨n, f⟩ := x
    rw [List.forall_mem_cons] at hr hout
    have hall := Style.append_bufferAll pending (Style.listingPieces f.bytes)
    rw [Style.flatten_listingPieces] at hall
    rcases hb : Style.bufferAll pending (Style.listingPieces f.bytes) with ⟨written, held⟩
    rw [hb] at hall
    -- the other sources are where they were and hold what they held
    have hsaved := FileTree.saved_append ho written
    have hread : ∀ y ∈ xs, (t.append out written).read (dir.join y.1.bytes) = .ok y.2 :=
      fun y hy => hsaved.read (hr.2 y hy) (hout.2 y hy)
    have hapart : ∀ y ∈ xs, (t.append out written).locate (dir.join y.1.bytes) ≠ .ok out := by
      intro y hy
      rw [FileTree.locate_append ho]
      exact hout.2 y hy
    have h := ih (FileTree.file?_append ho written) held hread hapart
    rw [FileTree.append_append, ← List.append_assoc, hall, List.append_assoc] at h
    rw [List.map_cons, List.map_cons, compileSources, Action.attempt_bind, Action.read_of_ok hr.1]
    simp only [hb, Action.change_bind, Action.log_bind, h]
    rfl

/-- A listing that can be written holds what the style sources of the theme gave, and nothing else
is written. -/
theorem buildListing_eq {config : Config} {base : Path} {name : Bytes} {t : FileTree}
    {loc : Location}
    (target : t.target? (base.join (Utf8.encode config.listingFile)) = some loc)
    (named : name ≠ []) (present : t.isDirectory (base.join name) = true)
    (apart : (t.save loc []).Avoids (base.join name) (marked config) (· = loc)) :
    buildListing config base name t =
      ⟨.ok (base.join (Utf8.encode config.listingFile)),
        t.save loc (compiled config t (base.join name)),
        skips (styleSource config) (t.save loc []) (base.join name) ++
          (compilations (base.join name) (sources config t (base.join name)) ++
            [.diagnostic (.listingWritten (base.join (Utf8.encode config.listingFile)))])⟩ := by
  have hwritable := FileTree.writable_of_target? target
  have hlater := FileTree.later_save hwritable []
  obtain ⟨mode, hfile⟩ := FileTree.file?_save hwritable []
  have hpresent := (hlater.isDirectory _).trans present
  have hlist := styleSources_eq config hpresent
  have hsame := sources_of_later hlater present apart
  have hxs : ∀ x ∈ sources config t (base.join name),
      (t.save loc []).read ((base.join name).join x.1.bytes) = .ok x.2 ∧
        (t.save loc []).locate ((base.join name).join x.1.bytes) ≠ .ok loc := by
    intro x hx
    rw [← hsame] at hx
    obtain ⟨hx, hkept⟩ := List.mem_filter.mp hx
    exact ⟨FileTree.read_of_mem_filesIn hx, apart x hx hkept loc rfl⟩
  have hcompile := compileSources_eq hfile [] (fun x hx => (hxs x hx).1) fun x hx => (hxs x hx).2
  rw [List.nil_append, FileTree.append_save hwritable, List.nil_append] at hcompile
  rw [hsame] at hlist
  rw [buildListing, Action.bind_of_ok (Action.create_of_ok (FileTree.target?_eq_some.mp target)),
    Action.look_bind, directory?_eq_some named hpresent]
  dsimp only
  rw [Action.bind_of_ok hlist, Action.bind_of_ok hcompile]
  rfl

/-- Without a theme the listing is empty. -/
theorem buildListing_of_missing {config : Config} {base : Path} {name : Bytes} {t : FileTree}
    {loc : Location}
    (target : t.target? (base.join (Utf8.encode config.listingFile)) = some loc)
    (missing : directory? t base name = none) :
    buildListing config base name t =
      ⟨.error ⟨[], .theme (.missingTheme (base.join name))⟩, t.save loc [],
        [.notice .noListingTheme]⟩ := by
  have hlater := FileTree.later_save (FileTree.writable_of_target? target) []
  have hmissing : directory? (t.save loc []) base name = none := by
    rw [directory?_eq_none] at missing ⊢
    rwa [hlater.isDirectory]
  rw [buildListing, Action.bind_of_ok (Action.create_of_ok (FileTree.target?_eq_some.mp target)),
    Action.look_bind, hmissing]
  rfl

theorem buildListing_of_create_error {config : Config} {base : Path} {t : FileTree} {e : FileError}
    (h : t.create (base.join (Utf8.encode config.listingFile)) = .error e) (name : Bytes) :
    buildListing config base name t =
      ⟨.error ⟨[.creating (base.join (Utf8.encode config.listingFile))], .file e⟩, t, []⟩ := by
  rw [buildListing, Action.bind_of_error (Action.create_of_error h)]

private theorem buildListing_ends {config : Config} {base : Path} {name : Bytes} {t t₁ : FileTree}
    {loc : Location}
    (created : t.create (base.join (Utf8.encode config.listingFile)) = .ok (loc, t₁))
    (named : name ≠ []) (present : t.isDirectory (base.join name) = true)
    (apart : t₁.Avoids (base.join name) (marked config) (· = loc)) :
    (buildListing config base name).Ends t (base.join (Utf8.encode config.listingFile))
      (t₁.append loc (compiled config t (base.join name))) := by
  have target := FileTree.target?_of_create created
  obtain ⟨rfl, -⟩ := FileTree.create_eq_ok.mp created
  rw [FileTree.append_save (FileTree.writable_of_target? target)]
  exact ⟨_, buildListing_eq target named present apart⟩

/-- The path of the definition listing leads to the listings of the theme's style sources, as they
were before the call, whatever was there and whatever else is in the directory. The sources are
looked for once the old listing is gone, and the new one must not be among them. -/
theorem read_buildListing {config : Config} {base : Path} {name : Bytes} {t t₁ : FileTree}
    {loc : Location}
    (created : t.create (base.join (Utf8.encode config.listingFile)) = .ok (loc, t₁))
    (named : name ≠ []) (present : t.isDirectory (base.join name) = true)
    (apart : t₁.Avoids (base.join name) (marked config) (· = loc)) :
    (buildListing config base name t).outcome =
        .ok (base.join (Utf8.encode config.listingFile)) ∧
      ∃ f, (buildListing config base name t).tree.read
          (base.join (Utf8.encode config.listingFile)) = .ok f ∧
        f.bytes = compiled config t (base.join name) := by
  obtain ⟨events, h⟩ := buildListing_ends created named present apart
  rw [h]
  exact ⟨rfl, (FileTree.created_of_create created).read_append _⟩

/-- A theme with a source that leaves a comment open, a link to that source, a directory that is
named like a source, and a link to the listing, which is there already. -/
theorem read_buildListing_links :
    let theme : Name := ⟨[0x74], by decide⟩
    let listing : Name := ⟨Utf8.encode "default.inc", by decide +kernel⟩
    let source : Name := ⟨Utf8.encode "b.stx", by decide +kernel⟩
    let link : Name := ⟨Utf8.encode "a.stx", by decide +kernel⟩
    let folder : Name := ⟨Utf8.encode "c.stx", by decide +kernel⟩
    let t : FileTree :=
      ⟨[⟨[theme], .directory, false⟩,
        ⟨[source, theme], .file ⟨Utf8.encode "x=\"1\" /*", 0, 0o644⟩, false⟩,
        ⟨[link, theme], .link (Utf8.encode "b.stx"), false⟩,
        ⟨[folder, theme], .directory, false⟩,
        ⟨[listing, theme], .link (Utf8.encode "../default.inc"), false⟩,
        ⟨[listing], .file ⟨Utf8.encode "old", 0, 0o644⟩, false⟩], 0, by decide +kernel⟩
    t.create (Utf8.encode "/default.inc") = .ok ([listing], t.write [listing] []) ∧
      t.isDirectory [0x2f, 0x74] = true ∧
      (buildListing {} [0x2f] [0x74] t).outcome = .ok (Utf8.encode "/default.inc") ∧
      ∃ f, (buildListing {} [0x2f] [0x74] t).tree.read (Utf8.encode "/default.inc") = .ok f ∧
        f.bytes = Utf8.encode "\"x='1' /* \"\n\"x='1' /* \"\n" := by
  intro theme listing source link folder t
  have created : t.create (Path.join [0x2f] (Utf8.encode ({} : Config).listingFile)) =
      .ok ([listing], t.write [listing] []) := rfl
  have present : t.isDirectory (Path.join [0x2f] [0x74]) = true := by decide +kernel
  have apart : (t.write [listing] []).Avoids (Path.join [0x2f] [0x74]) (marked {})
      (· = [listing]) := by
    rw [FileTree.avoids_iff]
    decide +kernel
  have compiles : compiled {} t (Path.join [0x2f] [0x74]) =
      Utf8.encode "\"x='1' /* \"\n\"x='1' /* \"\n" := by
    decide +kernel
  obtain ⟨houtcome, f, hread, hbytes⟩ := read_buildListing created (by decide) present apart
  exact ⟨created, present, houtcome, f, hread, hbytes.trans compiles⟩

end Theme
end ThemeBuilder
