import ThemeBuilder.Proofs.Theme.Effect

/-! Making archives on a disk that may refuse something: it goes as where nothing is refused, or it
fails. No refusal passes for want of a theme, so none is passed over. -/
namespace ThemeBuilder

namespace Action
variable {α β : Type} {x y : Action α}

/-- Whatever the tree, the first operation does what the second one does, or it fails for a reason
other than that something is no theme. -/
def Follows (x y : Action α) : Prop :=
  ∀ t, x t = y t ∨ ∃ e, (x t).outcome = .error e ∧ e.isNoTheme = false

namespace Follows

theorem refl (x : Action α) : x.Follows x := fun _ => .inl rfl

theorem bind {f g : α → Action β} (h : x.Follows y) (hf : ∀ a, (f a).Follows (g a)) :
    (x >>= f).Follows (y >>= g) := by
  intro t
  obtain heq | ⟨e, he, hends⟩ := h t
  · rcases hy : y t with ⟨e | a, u, events⟩
    · left
      rw [bind_of_error (heq.trans hy), bind_of_error hy]
    · rw [bind_of_ok (heq.trans hy), bind_of_ok hy]
      obtain hrest | ⟨e, he, hends⟩ := hf a u
      · rw [hrest]
        exact .inl rfl
      · exact .inr ⟨e, he, hends⟩
  · right
    rcases hx : x t with ⟨outcome, u, events⟩
    rw [hx] at he
    cases he
    exact ⟨e, by rw [bind_of_error hx], hends⟩

/-- What is done with an outcome may look into a failure, as long as it passes on one that is not
for want of a theme. -/
theorem attempt_bind {f g : Except Failure α → Action β} (h : x.Follows y)
    (hf : ∀ r, (f r).Follows (g r))
    (passes : ∀ e, e.isNoTheme = false → ∀ u, (f (.error e) u).outcome = .error e) :
    (x.attempt >>= f).Follows (y.attempt >>= g) := by
  intro t
  obtain heq | ⟨e, he, hends⟩ := h t
  · rcases hy : y t with ⟨outcome, u, events⟩
    rw [Action.attempt_bind, Action.attempt_bind, heq, hy]
    obtain hrest | ⟨e, he, hends⟩ := hf outcome u
    · rw [hrest]
      exact .inl rfl
    · exact .inr ⟨e, he, hends⟩
  · right
    rcases hx : x t with ⟨outcome, u, events⟩
    rw [hx] at he
    cases he
    rw [Action.attempt_bind, hx]
    exact ⟨e, passes e hends u, hends⟩

theorem discard (h : x.Follows y) :
    Follows (Functor.discard x : Action Unit) (Functor.discard y) :=
  h.bind fun _ => .refl _

end Follows
end Action

open ThemeBuilder.Action (Follows)

/-- A packing comes to its end only where nothing has been refused, and then it has done all that it
does where nothing is. -/
theorem Packing.writeArchiveOn_follows (disk : Disk) (p : Path) (c : Compression)
    (items : List Item) :
    Follows (writeArchiveOn disk p c items >>= settle) (writeArchive p c items >>= settle) := by
  intro t
  cases making : disk.making p with
  | some e =>
    rw [Action.bind_of_error (writeArchiveOn_of_create_error (.inl making) c items)]
    exact .inr ⟨_, rfl, rfl⟩
  | none =>
    cases created : t.create p with
    | error e =>
      left
      rw [Action.bind_of_error (writeArchiveOn_of_create_error (.inr ⟨making, created⟩) c items),
        Action.bind_of_error (writeArchive_of_create_error created c items)]
    | ok made =>
      obtain ⟨out, t₀⟩ := made
      obtain ⟨done, es, u, packs, free, rfl | ⟨i, rest, failure, rfl, hi⟩⟩ :=
        packs_or_fault disk out c t₀ items
      · rw [bind_settle (writeArchiveOn_of_packs making created packs free),
          bind_settle (writeArchive_of_packs created packs)]
        cases disk.completion p with
        | whole => exact .inl rfl
        | unclosed kept cause => exact .inr ⟨_, rfl, rfl⟩
        | unflushed kept cause => exact .inr ⟨_, rfl, rfl⟩
      · rw [bind_settle (writeArchiveOn_of_fault making created packs free hi rest)]
        exact .inr ⟨failure, rfl, isNoTheme_of_disk_fault? hi⟩

namespace Theme
variable (disk : Disk) (config : Config) (base : Path)

/-- A name that is no theme is reported on every disk. -/
theorem buildOn_of_missing {name : Bytes} {t : FileTree} (missing : directory? t base name = none) :
    buildOn disk config base name t = build config base name t := by
  rw [build_of_missing config missing, buildOn, Action.look_bind, missing]
  rfl

theorem buildOn_follows (name : Bytes) :
    Follows (buildOn disk config base name) (build config base name) := by
  rw [build, buildOn, buildOn]
  refine .bind (.refl _) fun dir => ?_
  cases dir with
  | none => exact .refl _
  | some dir =>
    exact .bind (.refl _) fun names => .bind (.refl _) fun _ =>
      .bind (Packing.writeArchiveOn_follows disk _ _ _) fun _ => .refl _

theorem buildEachOn_follows (names : List Bytes) :
    Follows (buildEachOn disk config base names) (buildEach config base names) := by
  induction names with
  | nil => exact .refl _
  | cons name names ih =>
    rw [buildEach, buildEachOn, buildEachOn]
    refine .attempt_bind (buildOn_follows disk config base name) ?_ fun e he u => ?_
    · rintro (e | out)
      · dsimp only
        split
        · exact .bind (.refl _) fun _ => ih
        · exact .refl _
      · exact .bind ih fun _ => .refl _
    · dsimp only
      rw [he]
      rfl

theorem buildAllOn_follows : Follows (buildAllOn disk config base) (buildAll config base) :=
  .bind (.refl _) fun names => buildEachOn_follows disk config base (names.map Name.bytes)

end Theme
end ThemeBuilder
