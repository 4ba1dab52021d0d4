import ThemeBuilder.Proofs.Text.Suffix
import ThemeBuilder.Proofs.Text.Utf8
import ThemeBuilder.Theme.Directory

/-! Names are looked at as text, in which malformed bytes are not told apart. Which of them are
hidden and which are those of style sources is the same as if their bytes were looked at. -/
namespace ThemeBuilder
namespace Config

/-- A name is hidden if its bytes begin with the mark. -/
private theorem hides_lossy_iff {config : Config} (h : config.hiddenMark ≠ '\uFFFD')
    (name : Bytes) :
    config.hides (Utf8.lossy name) = true ↔ Utf8.encodeChar config.hiddenMark <+: name := by
  have hmark : '\uFFFD' ∉ [config.hiddenMark] := fun hmem => h (List.mem_singleton.mp hmem).symm
  have hhead (cs : List Char) : cs.head? = some config.hiddenMark ↔ [config.hiddenMark] <+: cs := by
    cases cs <;> simp [List.cons_prefix_cons, eq_comm]
  rw [hides, Utf8.lossy, String.toList_ofList, beq_iff_eq, hhead,
    Utf8.isPrefix_lossyChars_iff hmark, Utf8.encodeChars, List.flatMap_singleton]

/-- A name is that of a style source if its bytes end in the extension. -/
private theorem isSource_lossy_iff {config : Config} (h : '\uFFFD' ∉ config.sourceExtension.toList)
    (name : Bytes) :
    config.isSource (Utf8.lossy name) = true ↔ Utf8.encode config.sourceExtension <:+ name := by
  rw [isSource_iff, Utf8.lossy, String.toList_ofList, Utf8.isSuffix_lossyChars_iff h, Utf8.encode]

end Config

namespace Theme

/-- The names in a directory that satisfy a condition, in its order, with the others noted as
skipped. Nothing is turned into text. -/
def listWhere (dir : Path) (good : FileTree → Name → Bool) : Action (List Name) := fun t =>
  match t.list dir with
  | .error e => ⟨.error ⟨[], .theme (.unlistable dir e)⟩, t, []⟩
  | .ok names => ⟨.ok (names.filter (good t)), t,
      (names.filter (!good t ·)).map fun n => .diagnostic (.skippingEntry (dir.join n.bytes))⟩

/-- A filter and a condition that agree on all names keep the same ones and skip the same ones. -/
theorem listKept_eq_listWhere {dir : Path} {keep : Filter} {good : FileTree → Name → Bool}
    (h : ∀ t n, keep t (dir.join n.bytes) (Utf8.lossy n.bytes) = good t n) :
    listKept dir keep = listWhere dir good := by
  funext t
  cases hlist : t.list dir with
  | error e => simp only [listKept, listWhere, hlist]
  | ok names => simp only [listKept, listWhere, hlist, h]

/-- The bytes of a name tell by themselves whether it is hidden, unless the mark is the
replacement character, and whether it is that of a style source, unless the extension holds that
character. The listings of files, themes and style sources are those by bytes, failures and
skipped entries included. -/
theorem selection_by_bytes (config : Config) :
    (config.hiddenMark ≠ '\uFFFD' →
      (∀ name : Bytes, config.hides (Utf8.lossy name) = true ↔
        Utf8.encodeChar config.hiddenMark <+: name) ∧
      ∀ dir : Path,
        files config dir = listWhere dir (fun t n => t.isFile (dir.join n.bytes) &&
          !(Utf8.encodeChar config.hiddenMark).isPrefixOf n.bytes) ∧
        themes config dir = listWhere dir (fun t n => t.isDirectory (dir.join n.bytes) &&
          !(Utf8.encodeChar config.hiddenMark).isPrefixOf n.bytes)) ∧
    ('\uFFFD' ∉ config.sourceExtension.toList →
      (∀ name : Bytes, config.isSource (Utf8.lossy name) = true ↔
        Utf8.encode config.sourceExtension <:+ name) ∧
      ∀ dir : Path,
        styleSources config dir = listWhere dir (fun t n => t.isFile (dir.join n.bytes) &&
          (Utf8.encode config.sourceExtension).isSuffixOf n.bytes)) := by
  constructor
  · intro hmark
    have hides_eq (name : Bytes) : config.hides (Utf8.lossy name) =
        (Utf8.encodeChar config.hiddenMark).isPrefixOf name := by
      rw [Bool.eq_iff_iff, config.hides_lossy_iff hmark, List.isPrefixOf_iff_prefix]
    refine ⟨config.hides_lossy_iff hmark, fun dir => ⟨?_, ?_⟩⟩
    · exact listKept_eq_listWhere fun t n => by rw [visibleFile, hides_eq]
    · exact listKept_eq_listWhere fun t n => by rw [visibleDirectory, hides_eq]
  · intro hext
    have isSource_eq (name : Bytes) : config.isSource (Utf8.lossy name) =
        (Utf8.encode config.sourceExtension).isSuffixOf name := by
      rw [Bool.eq_iff_iff, config.isSource_lossy_iff hext, List.isSuffixOf_iff_suffix]
    refine ⟨config.isSource_lossy_iff hext, fun dir => ?_⟩
    exact listKept_eq_listWhere fun t n => by rw [styleSource, isSource_eq]

/-- A mark of two bytes and an extension that begins with one of them, on a name in which a
character of three bytes breaks off before the extension, and on names with the first byte of the
mark alone. -/
theorem selection_by_bytes_accents :
    let config : Config := { hiddenMark := 'é', sourceExtension := "é.stx" }
    (config.hiddenMark ≠ '\uFFFD' ∧ '\uFFFD' ∉ config.sourceExtension.toList) ∧
      config.isSource (Utf8.lossy ([0xE2, 0x82] ++ Utf8.encode "é.stx")) = true ∧
      config.isSource (Utf8.lossy ([0xA9] ++ Utf8.encode ".stx")) = false ∧
      config.hides (Utf8.lossy [0xC3, 0xA9, 0xA9]) = true ∧
      config.hides (Utf8.lossy [0xC3, 0x2E]) = false := by
  intro config
  have hmark : config.hiddenMark ≠ '\uFFFD' := by decide
  have hext : '\uFFFD' ∉ config.sourceExtension.toList := by decide +kernel
  obtain ⟨hides_iff, -⟩ := (selection_by_bytes config).1 hmark
  obtain ⟨isSource_iff, -⟩ := (selection_by_bytes config).2 hext
  refine ⟨⟨hmark, hext⟩, ?_, ?_, ?_, ?_⟩
  · exact (isSource_iff _).mpr (List.suffix_append _ _)
  · rw [← Bool.not_eq_true, isSource_iff]
    decide +kernel
  · exact (hides_iff _).mpr (by decide +kernel)
  · rw [← Bool.not_eq_true, hides_iff]
    decide +kernel

end Theme
end ThemeBuilder
