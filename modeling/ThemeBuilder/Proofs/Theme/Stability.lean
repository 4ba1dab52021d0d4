import ThemeBuilder.Proofs.Theme.Effect

/-! Making the same archive or listing in two trees, one of which has some files made or written
more. As long as those are not what is packed or compiled, it comes out the same. -/
namespace ThemeBuilder
open FileTree (Later)

/-- What is printed for the user. -/
def printed (events : List Event) : List Notice :=
  events.filterMap fun
    | .notice n => some n
    | .diagnostic _ => none

theorem Report.notices_eq {α : Type} (r : Report α) : r.notices = printed r.events := rfl

@[simp]
theorem printed_notice_cons (n : Notice) (events : List Event) :
    printed (.notice n :: events) = n :: printed events := rfl

@[simp]
theorem printed_diagnostic_cons (d : Diagnostic) (events : List Event) :
    printed (.diagnostic d :: events) = printed events := rfl

@[simp]
theorem printed_append (xs ys : List Event) : printed (xs ++ ys) = printed xs ++ printed ys :=
  List.filterMap_append

/-- What was done on the tree `t` and what was done on the tree `u` differ in nothing but the
diagnostics: the outcome and what is printed are the same, and so are the files that are saved. -/
structure Alike {α : Type} (r s : Report α) (t u : FileTree) (ws : List (Location × Bytes)) :
    Prop where
  outcome : s.outcome = r.outcome
  notices : s.notices = r.notices
  left : r.tree = t.saveAll ws
  right : s.tree = u.saveAll ws

namespace Theme
variable {config : Config} {base : Path} {name : Bytes} {names : List Bytes} {t u : FileTree}
  {W : Location → Prop} {loc : Location}

/-- Nothing is printed of the entries that a filter drops. -/
@[simp]
theorem printed_skips (keep : Filter) (t : FileTree) (dir : Path) :
    printed (skips keep t dir) = [] := by
  unfold skips
  split
  · rfl
  · simp [printed]

/-- A theme whose archive can be made gives the same one after other files were made. -/
theorem alike_build (h : Later t u W) (target : t.target? (archivePath config base name) = some loc)
    (hloc : W loc) (named : name ≠ []) (present : t.isDirectory (base.join name) = true)
    (apart : u.Avoids (base.join name) (shown config) W) :
    ∃ bytes, Alike (build config base name t) (build config base name u) t u [(loc, bytes)] := by
  have hfiles := visibleFiles_of_later h present apart
  have hapart : u.Avoids (base.join name) (shown config) (· = loc) := fun x hx hg l hl =>
    apart x hx hg l (hl ▸ hloc)
  have hbefore := build_eq target named present (h.toGrown.avoids present hapart)
  have hafter := build_eq ((h.target? _).trans target) named ((h.isDirectory _).trans present) hapart
  rw [hfiles] at hafter
  refine ⟨packed config (visibleFiles config t (base.join name)), ?_⟩
  rw [hbefore, hafter]
  exact ⟨rfl, by simp [Report.notices_eq], rfl, rfl⟩

/-- A theme whose archive cannot be made fails for the same reason after other files were made, but
for one whose archive's path goes on behind a file that is new. -/
theorem build_of_target_none (h : Later t u W)
    (target : t.target? (archivePath config base name) = none) (named : name ≠ [])
    (present : t.isDirectory (base.join name) = true) :
    ∃ e e', (build config base name t).outcome =
        .error ⟨[.creatingArchive (archivePath config base name)], .file e⟩ ∧
      (build config base name u).outcome =
        .error ⟨[.creatingArchive (archivePath config base name)], .file e'⟩ ∧
      (build config base name u).tree = u ∧
      (e' = e ∨ e = .system .notFound ∧ e' = .system .notDirectory) := by
  obtain ⟨e, he⟩ := FileTree.target?_eq_none.mp target
  have hpresent := (h.isDirectory _).trans present
  rw [build_of_create_error he named present]
  obtain hsame | ⟨-, hbefore, hafter⟩ := h.create_error he
  · rw [build_of_create_error hsame named hpresent]
    exact ⟨e, e, rfl, rfl, rfl, .inl rfl⟩
  · rw [build_of_create_error hafter named hpresent]
    exact ⟨e, _, rfl, rfl, rfl, .inr ⟨hbefore, rfl⟩⟩

/-- A theme that can be listed gives the same listing after other files were made. -/
theorem alike_buildListing (h : Later t u W)
    (target : t.target? (listingPath config base) = some loc)
    (hloc : W loc) (named : name ≠ []) (present : t.isDirectory (base.join name) = true)
    (apart : (u.save loc []).Avoids (base.join name) (marked config) W) :
    ∃ bytes, Alike (buildListing config base name t) (buildListing config base name u) t u
      [(loc, bytes)] := by
  have hwritable := FileTree.writable_of_target? target
  have hsave := FileTree.later_save (h.toGrown.writable hwritable) []
  have hbefore := h.toGrown.save hloc hwritable [] []
  have hapart : (u.save loc []).Avoids (base.join name) (marked config) (· = loc) :=
    fun x hx hg l hl => apart x hx hg l (hl ▸ hloc)
  have hpresent := (h.isDirectory _).trans present
  have hempty := ((FileTree.later_save hwritable []).isDirectory _).trans present
  have hsources : sources config u (base.join name) = sources config t (base.join name) :=
    sources_of_later h present (hsave.toGrown.avoids hpresent apart)
  have hleft := buildListing_eq target named present (hbefore.avoids hempty hapart)
  have hright := buildListing_eq ((h.target? _).trans target) named hpresent hapart
  rw [compiled, hsources, ← compiled] at hright
  refine ⟨compiled config t (base.join name), ?_⟩
  rw [hleft, hright]
  exact ⟨rfl, by simp [Report.notices_eq], rfl, rfl⟩

end Theme
end ThemeBuilder
