import ThemeBuilder.Proofs.Theme.Stability

/-! What a build tells of its archive, held against the archive itself: every entry is announced
and noted when it has been written, so the account agrees also where a file ends the build. What
the theme's directory lists besides the files that are kept is noted as skipped. -/
namespace ThemeBuilder

/-- What is noted for whoever looks into how the program works. -/
def logged (events : List Event) : List Diagnostic :=
  events.filterMap fun
    | .diagnostic d => some d
    | .notice _ => none

theorem Report.diagnostics_eq {α : Type} (r : Report α) : r.diagnostics = logged r.events := rfl

@[simp]
theorem logged_notice_cons (n : Notice) (events : List Event) :
    logged (.notice n :: events) = logged events := rfl

@[simp]
theorem logged_append (xs ys : List Event) : logged (xs ++ ys) = logged xs ++ logged ys :=
  List.filterMap_append

namespace Packing
variable {out : Location} {c : Compression} {t u : FileTree} {items : List Item}
  {es : List Archive.Entry}

theorem Packs.map_name (h : Packs out c t items es u) :
    es.map (·.name) = items.map (·.entryName) := by
  induction h with
  | nil => rfl
  | cons _ _ _ ih =>
    rw [List.map_cons, List.map_cons, ih]
    rfl

/-- Each entry is noted, with the size of its data. -/
private theorem Packs.logged_traces (h : Packs out c t items es u) :
    logged ((items.zip es).flatMap fun (i, e) => i.traces e.data.length) =
      es.map fun e => .entryWritten e.name e.data.length := by
  induction h with
  | nil => rfl
  | @cons t u i is f es _ _ _ ih =>
    rw [List.zip_cons_cons, List.flatMap_cons, logged_append, ih]
    obtain ⟨path, entryName, announcement⟩ := i
    cases announcement <;> rfl

/-- Within the limits of the format, the directory of an archive lists what has been packed,
whether or not it is compressed. -/
theorem Packs.catalogue?_encode (h : Packs out c t items es u) (count : es.length < 2 ^ 16)
    (size : (Archive.encode c es).length < 2 ^ 32) (sizes : ∀ e ∈ es, e.data.length < 2 ^ 32) :
    (Archive.catalogue? (Archive.encode c es)).map (List.map fun l => (l.name, l.header.size)) =
      some (es.map fun e => (e.name, e.data.length)) :=
  Archive.map_catalogue?_encode (g := fun p => (p.entry.name, p.entry.data.length))
    (fun _ _ => rfl) (h.sized ⟨count, size, sizes⟩) count size

end Packing

namespace Theme
variable {config : Config} {base : Path} {name : Bytes} {t : FileTree} {loc : Location}

/-- Whether an entry of a theme's directory is kept for the archive. -/
def keeps (config : Config) (t : FileTree) (dir : Path) (n : Name) : Bool :=
  visibleFile config t (dir.join n.bytes) (Utf8.lossy n.bytes)

private theorem map_fst_visibleFiles {dir : Path} {listed : List Name}
    (h : t.list dir = .ok listed) :
    (visibleFiles config t dir).map Prod.fst = listed.filter (keeps config t dir) := by
  rw [visibleFiles, FileTree.map_fst_filesIn h]
  apply List.filter_congr
  intro n _
  rw [keeps, visibleFile, hides_lossy]

private theorem logged_skips {dir : Path} {listed : List Name} (h : t.list dir = .ok listed) :
    logged (skips (visibleFile config) t dir) =
      (listed.filter (!keeps config t dir ·)).map fun n => .skippingEntry (dir.join n.bytes) := by
  rw [skips, h, logged, List.filterMap_map]
  exact congrFun List.filterMap_eq_map _

/-- The archive of a theme has been filled with the entries `es`, of the first of the names that
were kept. What stopped the others is in `stop`. -/
structure Filled (config : Config) (base : Path) (name : Bytes) (t : FileTree) (loc : Location)
    (kept added : List Name) (es : List Archive.Entry) (stop : Option Failure) : Prop where
  packs : ∃ u, Packing.Packs loc config.compression (t.save loc [])
    (added.map (item config (base.join name))) es u
  report : build config base name t =
    ⟨stop.elim (.ok (archivePath config base name)) .error,
      t.save loc (Archive.encode config.compression es),
      skips (visibleFile config) t (base.join name) ++ (.notice (.building (Utf8.lossy name)) ::
        (((added.map (item config (base.join name))).zip es).flatMap
            (fun (i, e) => i.traces e.data.length) ++
          stop.elim [.diagnostic (.archiveWritten (archivePath config base name) kept.length)]
            fun _ => []))⟩
  stopped : kept = added ∧ stop = none ∨
    ∃ n others e, kept = added ++ n :: others ∧ stop = some e

private theorem exists_filled (target : t.target? (archivePath config base name) = some loc)
    (named : name ≠ []) (present : t.isDirectory (base.join name) = true) {listed : List Name}
    (hlist : t.list (base.join name) = .ok listed) :
    ∃ added es stop, Filled config base name t loc
      (listed.filter (keeps config t (base.join name))) added es stop := by
  obtain ⟨done, es, u, stop, packs, hbuild, hstop⟩ := build_cases target named present
  rw [← List.length_map Prod.fst, map_fst_visibleFiles hlist] at hbuild
  rw [map_fst_visibleFiles hlist] at hstop
  obtain ⟨rfl, rfl⟩ | ⟨i, rest, e, hitems, -, rfl⟩ := hstop
  · exact ⟨_, es, none, ⟨u, packs⟩, hbuild, .inl ⟨rfl, rfl⟩⟩
  · obtain ⟨added, others, hkept, rfl, hothers⟩ := List.map_eq_append_iff.mp hitems
    obtain ⟨n, others, rfl, -, -⟩ := List.map_eq_cons_iff.mp hothers
    exact ⟨added, es, some e, ⟨u, packs⟩, hbuild, .inr ⟨n, others, e, hkept, rfl⟩⟩

namespace Filled
variable {listed kept added : List Name} {es : List Archive.Entry} {stop : Option Failure}

theorem map_name (h : Filled config base name t loc kept added es stop) :
    es.map (·.name) = added.map fun n => config.entryFor n.bytes := by
  obtain ⟨u, packs⟩ := h.packs
  rw [packs.map_name, List.map_map]
  rfl

theorem notices_build (h : Filled config base name t loc kept added es stop) :
    (build config base name t).notices =
      .building (Utf8.lossy name) :: added.map fun n => .addingFile (Utf8.lossy n.bytes) := by
  obtain ⟨u, packs⟩ := h.packs
  have hadded : printed _ = _ := packs.notices (build config base name t).outcome u
  have hlast : printed (stop.elim [.diagnostic
      (.archiveWritten (archivePath config base name) kept.length)] fun _ => []) = [] := by
    cases stop <;> rfl
  rw [h.report]
  simp only [Report.notices_eq, printed_append, printed_skips, printed_notice_cons, hadded, hlast,
    List.nil_append, List.append_nil, List.filterMap_map]
  exact congrArg _ (congrFun List.filterMap_eq_map _)

/-- What the user reads: the theme, and then a line for each file. -/
theorem stdout_build (h : Filled config base name t loc kept added es stop) :
    (build config base name t).stdout = "Building '" ++ Utf8.lossy name ++ "' theme:\n" ++
      String.join (added.map fun n => "    Adding file: " ++ Utf8.lossy n.bytes ++ "\n") := by
  rw [Report.stdout, h.notices_build, List.map_cons, String.join_cons, List.map_map]
  rfl

/-- The number of files that is noted at the end is that of the entries. -/
theorem diagnostics_build (h : Filled config base name t loc kept added es stop)
    (hlist : t.list (base.join name) = .ok listed) : (build config base name t).diagnostics =
      (listed.filter (!keeps config t (base.join name) ·)).map
          (fun n => .skippingEntry ((base.join name).join n.bytes)) ++
        (es.map (fun e => .entryWritten e.name e.data.length) ++
          stop.elim [.archiveWritten (archivePath config base name) es.length] fun _ => []) := by
  obtain ⟨u, packs⟩ := h.packs
  rw [h.report]
  simp only [Report.diagnostics_eq, logged_append, logged_skips hlist, logged_notice_cons,
    packs.logged_traces]
  obtain ⟨rfl, rfl⟩ | ⟨n, others, e, -, rfl⟩ := h.stopped
  · rw [packs.length, List.length_map]
    rfl
  · rfl

end Filled

/-- Whatever becomes of a build that makes its archive, what it tells is what it does. The files
that are announced, each with a line of what is printed, are those behind the entries of the
archive, in their order, and these are noted with their sizes. They are the files that are kept, up
to one that fails if one does. What else the directory lists is noted as skipped. The archive is
noted as written, with the number of its entries, if and only if the build succeeds. -/
theorem build_account (target : t.target? (archivePath config base name) = some loc)
    (named : name ≠ []) (present : t.isDirectory (base.join name) = true) :
    let r := build config base name t
    ∃ listed kept skipped added es g,
      t.list (base.join name) = .ok listed ∧ listed.Nodup ∧
      kept = listed.filter (keeps config t (base.join name)) ∧
      skipped = listed.filter (!keeps config t (base.join name) ·) ∧
      (kept ++ skipped).Perm listed ∧
      r.tree.read (archivePath config base name) = .ok g ∧
      g.bytes = Archive.encode config.compression es ∧
      (es.length < 2 ^ 16 → g.bytes.length < 2 ^ 32 → (∀ e ∈ es, e.data.length < 2 ^ 32) →
        (Archive.catalogue? g.bytes).map (List.map fun l => (l.name, l.header.size)) =
          some (es.map fun e => (e.name, e.data.length))) ∧
      es.map (·.name) = added.map (fun n => config.entryFor n.bytes) ∧
      r.notices = .building (Utf8.lossy name) ::
        added.map (fun n => .addingFile (Utf8.lossy n.bytes)) ∧
      r.stdout = "Building '" ++ Utf8.lossy name ++ "' theme:\n" ++
        String.join (added.map fun n => "    Adding file: " ++ Utf8.lossy n.bytes ++ "\n") ∧
      r.diagnostics = skipped.map (fun n => .skippingEntry ((base.join name).join n.bytes)) ++
        (es.map (fun e => .entryWritten e.name e.data.length) ++
          match r.outcome with
          | .ok out => [.archiveWritten out es.length]
          | .error _ => []) ∧
      (kept = added ∧ r.outcome = .ok (archivePath config base name) ∨
        ∃ n others e, kept = added ++ n :: others ∧ r.outcome = .error e) := by
  intro r
  obtain ⟨d, hdir, hnode⟩ := FileTree.isDirectory_iff.mp present
  have hlist := FileTree.list_of_isDirectory hdir hnode
  obtain ⟨added, es, stop, filled⟩ := exists_filled target named present hlist
  obtain ⟨u, packs⟩ := filled.packs
  have hr : r = _ := filled.report
  obtain ⟨g, hg, hbytes⟩ := FileTree.read_save target (Archive.encode config.compression es)
  refine ⟨_, _, _, added, es, g, hlist, FileTree.nodup_of_list hlist, rfl, rfl,
    List.filter_append_perm .., ?_, hbytes, ?_, filled.map_name,
    filled.notices_build, filled.stdout_build, ?_, ?_⟩
  · rw [hr]
    exact hg
  · rw [hbytes]
    exact packs.catalogue?_encode
  · refine (filled.diagnostics_build hlist).trans ?_
    rw [hr]
    cases stop <;> rfl
  · rw [hr]
    obtain ⟨hall, rfl⟩ | ⟨n, others, e, hsome, rfl⟩ := filled.stopped
    · exact .inl ⟨hall, rfl⟩
    · exact .inr ⟨n, others, e, hsome, rfl⟩

/-- A theme with a hidden file, a file whose name is no UTF-8, a directory, a link to the file and
one that leads nowhere, compressed. -/
theorem build_account_links :
    let theme : Name := ⟨[0x74], by decide⟩
    let hidden : Name := ⟨[0x2e, 0x68], by decide⟩
    let odd : Name := ⟨[0xff], by decide⟩
    let folder : Name := ⟨[0x62], by decide⟩
    let link : Name := ⟨[0x61], by decide⟩
    let dead : Name := ⟨[0x78], by decide⟩
    let file (bytes : Bytes) : Node := .file ⟨bytes, 0, 0o644⟩
    let t : FileTree :=
      ⟨[⟨[theme], .directory, false⟩, ⟨[hidden, theme], file [1], false⟩,
        ⟨[odd, theme], file [2, 2, 2], false⟩, ⟨[folder, theme], .directory, false⟩,
        ⟨[link, theme], .link [0xff], false⟩, ⟨[dead, theme], .link [0x79], false⟩],
        0, by decide +kernel⟩
    let config : Config := { compression := .deflated }
    let r := build config [0x2f] [0x74] t
    r.outcome = .ok (Utf8.encode "/t.zip") ∧
      r.notices = [.building "t", .addingFile "\ufffd", .addingFile "a"] ∧
      r.stdout = "Building 't' theme:\n    Adding file: \ufffd\n    Adding file: a\n" ∧
      ∃ es g, r.tree.read (Utf8.encode "/t.zip") = .ok g ∧
        g.bytes = Archive.encode .deflated es ∧
        es.map (·.name) = [[0x2e, 0x2f, 0xff], [0x2e, 0x2f, 0x61]] ∧
        r.diagnostics = [.skippingEntry (Utf8.encode "/t/.h"), .skippingEntry (Utf8.encode "/t/b"),
          .skippingEntry (Utf8.encode "/t/x")] ++
          (es.map (fun e => .entryWritten e.name e.data.length) ++
            [.archiveWritten (Utf8.encode "/t.zip") 2]) := by
  intro theme hidden odd folder link dead file t config r
  have target : t.target? (archivePath config [0x2f] [0x74]) =
      some [⟨Utf8.encode "t.zip", by decide +kernel⟩] := by decide +kernel
  have present : t.isDirectory (Path.join [0x2f] [0x74]) = true := by decide +kernel
  obtain ⟨listed, kept, skipped, added, es, g, hlist, -, hkept, hskipped, -, hg, hbytes, -, hnames,
    hnotices, hstdout, hdiagnostics, hend⟩ := build_account target (by decide) present
  have hpath : archivePath config [0x2f] [0x74] = Utf8.encode "/t.zip" := by decide +kernel
  rw [hpath] at hg
  have hdir : t.list (Path.join [0x2f] [0x74]) = .ok [hidden, odd, folder, link, dead] := by
    decide +kernel
  have hok : r.outcome = .ok (Utf8.encode "/t.zip") := by decide +kernel
  cases hlist.symm.trans hdir
  have hadded : added = [odd, link] := by
    obtain ⟨rfl, -⟩ | ⟨n, others, e, -, herror⟩ := hend
    · rw [hkept]
      decide +kernel
    · cases hok.symm.trans herror
  have hskipped : skipped = [hidden, folder, dead] := by
    rw [hskipped]
    decide +kernel
  have hlength : es.length = 2 := by
    rw [← List.length_map (·.name), hnames, hadded]
    rfl
  refine ⟨hok, ?_, ?_, es, g, hg, hbytes, ?_, ?_⟩
  · rw [hnotices, hadded]
    decide +kernel
  · rw [hstdout, hadded]
    decide +kernel
  · rw [hnames, hadded]
    decide +kernel
  · rw [hdiagnostics, hok, hskipped, hlength]
    rfl

end Theme
end ThemeBuilder
