import ThemeBuilder.Proofs.Theme.Effect

/-! Where the archive of a theme ends up: unless it is a link, in the directory that the last part
of the theme's name is looked up in, which is not always outside the directory that is packed. -/
namespace ThemeBuilder
open Bytes

/-- A file is made along the path of a name where its directory has or lacks that name. -/
theorem FileTree.target?_join {t : FileTree} {dir : Path} {d loc : Location} {n : Name}
    (h : t.locate dir = .ok d) (hd : t.node? d = some .directory)
    (unlinked : ∀ target, t.node? (n :: d) ≠ some (.link target))
    (target : t.target? (dir.join n.bytes) = some loc) : loc = n :: d := by
  have hstep := fun jump => walkWith_name (t := t) (d := d) (n := n) jump unlinked
  obtain ⟨-, ⟨dir, name, rfl, hs⟩ | ⟨hs, -⟩⟩ := create_eq_ok.mp (target?_eq_some.mp target)
  · have heq := spot_join h hd hstep (spot_use hs)
    split at heq
    · cases heq
      rfl
    · cases heq
  · have heq := spot_join h hd hstep (spot_use hs)
    split at heq
    · cases heq
    · cases heq
      rfl

namespace Theme
variable {config : Config} {base front rest : Path} {name : Bytes} {t : FileTree}
  {b d loc : Location} {z : Name}

/-- The archive goes beside what the last part of the name stands for. -/
private theorem target?_archivePath (spelled : front = [] ∨ front.getLast? = some slash)
    (parent : t.locate (base.join front) = .ok b) (folder : t.node? b = some .directory)
    (archive : z.bytes = config.archiveFor rest)
    (unlinked : ∀ target, t.node? (z :: b) ≠ some (.link target))
    (target : t.target? (archivePath config base (front ++ rest)) = some loc) : loc = z :: b := by
  have hpath : archivePath config base (front ++ rest) = (base.join front).join z.bytes := by
    rw [archivePath, Config.archiveFor, List.append_assoc, ← Config.archiveFor, ← archive,
      Path.join_append base spelled (Path.not_isAbsolute_name z)]
  rw [hpath] at target
  exact FileTree.target?_join parent folder unlinked target

/-- Building a theme leaves its directory alone, unless the path of the archive leads right into it.
Then the archive is put into the directory that is packed. Where the archive is no link, this is so
if and only if the name stands for the very directory that its last part is looked up in: a name
that ends in a slash or in a dot does, and so may a link. -/
theorem build_beside (named : name ≠ []) (theme : t.locate (base.join name) = .ok d)
    (present : t.node? d = some .directory) :
    let r := build config base name t
    ((∀ z, t.target? (archivePath config base name) ≠ some (z :: d)) →
      r.tree.children d = t.children d ∧ ∀ n, r.tree.node? (n :: d) = t.node? (n :: d)) ∧
    (∀ z, t.target? (archivePath config base name) = some (z :: d) →
      z ∈ r.tree.children d ∧ ∃ f, r.tree.node? (z :: d) = some (.file f)) ∧
    ∀ front rest b z, name = front ++ rest → front = [] ∨ front.getLast? = some slash →
      t.locate (base.join front) = .ok b → t.node? b = some .directory →
      z.bytes = config.archiveFor rest → (∀ target, t.node? (z :: b) ≠ some (.link target)) →
      ∀ l, t.target? (archivePath config base name) = some l →
        l = z :: b ∧ ((∃ n, l = n :: d) ↔ d = b) := by
  intro r
  have hlater := later_build config base name t
  refine ⟨fun houtside => ?_, fun z target => ?_, ?_⟩
  · have helsewhere (n : Name) : t.target? (archivePath config base name) ≠ some (n :: d) :=
      houtside n
    refine ⟨?_, fun n => hlater.elsewhere (helsewhere n)⟩
    have hall := hlater.filter_children d (fun _ => true) fun n hn => absurd hn (helsewhere n)
    rwa [List.filter_eq_self.mpr (by simp), List.filter_eq_self.mpr (by simp)] at hall
  · obtain ⟨bytes, htree, -⟩ := build_of_target target named
      (FileTree.isDirectory_iff.mpr ⟨d, theme, present⟩)
    obtain ⟨mode, hfile⟩ := FileTree.file?_save (FileTree.writable_of_target? target) bytes
    rw [FileTree.file?_eq_some, ← htree] at hfile
    exact ⟨FileTree.mem_children.mpr (by rw [hfile]; simp), _, hfile⟩
  · rintro front rest b z rfl spelled parent folder archive unlinked l target
    obtain rfl := target?_archivePath spelled parent folder archive unlinked target
    refine ⟨rfl, fun ⟨n, hn⟩ => (List.cons.inj hn).2.symm, ?_⟩
    rintro rfl
    exact ⟨z, rfl⟩

/-- The same theme with and without a slash behind its name, and with a link for its archive that
leads back into it. -/
theorem build_beside_spellings :
    let m : Name := ⟨[0x6d], by decide⟩
    let a : Name := ⟨[0x61], by decide⟩
    let archive : Name := ⟨Utf8.encode "m.zip", by decide +kernel⟩
    let hidden : Name := ⟨Utf8.encode ".zip", by decide +kernel⟩
    let t : FileTree :=
      ⟨[⟨[m], .directory, false⟩, ⟨[a, m], .file ⟨[1], 0, 0o644⟩, false⟩], 0, by decide +kernel⟩
    let linked : FileTree := t.add ⟨[archive], .link (Utf8.encode "m/.zip"), false⟩
    t.target? (Utf8.encode "/m.zip") = some [archive] ∧
      (build {} [0x2f] [0x6d] t).tree.children [m] = t.children [m] ∧
      t.target? (Utf8.encode "/m/.zip") = some [hidden, m] ∧
      hidden ∈ (build {} [0x2f] [0x6d, 0x2f] t).tree.children [m] ∧
      linked.target? (Utf8.encode "/m.zip") = some [hidden, m] ∧
      hidden ∈ (build {} [0x2f] [0x6d] linked).tree.children [m] := by
  intro m a archive hidden t linked
  have hplain : t.target? (archivePath {} [0x2f] [0x6d]) = some [archive] := by decide +kernel
  have hslash : t.target? (archivePath {} [0x2f] [0x6d, 0x2f]) = some [hidden, m] := by
    decide +kernel
  have hlinked : linked.target? (archivePath {} [0x2f] [0x6d]) = some [hidden, m] := by
    decide +kernel
  have htheme : t.locate (Path.join [0x2f] [0x6d]) = .ok [m] ∧
      t.locate (Path.join [0x2f] [0x6d, 0x2f]) = .ok [m] ∧
      linked.locate (Path.join [0x2f] [0x6d]) = .ok [m] := by
    decide +kernel
  have hfolder : t.node? [m] = some .directory ∧ linked.node? [m] = some .directory := by
    decide +kernel
  obtain ⟨houtside, -⟩ := build_beside (by decide) htheme.1 hfolder.1
  obtain ⟨-, hinside, -⟩ := build_beside (by decide) htheme.2.1 hfolder.1
  obtain ⟨-, hback, -⟩ := build_beside (by decide) htheme.2.2 hfolder.2
  exact ⟨hplain, (houtside (by rw [hplain]; simp)).1, hslash, (hinside hidden hslash).1, hlinked,
    (hback hidden hlinked).1⟩

/-- With a slash behind its name the archive of a theme is made in the theme's directory. -/
theorem children_build_slash :
    let m : Name := ⟨[0x6d], by decide⟩
    let a : Name := ⟨[0x61], by decide⟩
    let hidden : Name := ⟨Utf8.encode ".zip", by decide +kernel⟩
    let t : FileTree :=
      ⟨[⟨[m], .directory, false⟩, ⟨[a, m], .file ⟨[1], 0, 0o644⟩, false⟩], 0, by decide +kernel⟩
    t.locate (Path.join [0x2f] [0x6d, 0x2f]) = .ok [m] ∧
      (build {} [0x2f] [0x6d, 0x2f] t).outcome = .ok (Utf8.encode "/m/.zip") ∧
      t.children [m] = [a] ∧
      (build {} [0x2f] [0x6d, 0x2f] t).tree.children [m] = [a, hidden] := by
  decide +kernel

end Theme
end ThemeBuilder
