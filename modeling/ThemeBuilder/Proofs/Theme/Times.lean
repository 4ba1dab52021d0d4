import ThemeBuilder.Proofs.Archive.Dates
import ThemeBuilder.Theme.Packing

/-! The times of files as their entries record them: exact to two seconds and in order where the
year fits its seven bits, not recorded before 1980, and recorded as an earlier time after 2107. -/
namespace ThemeBuilder
open Calendar (Shows)

/-- The words that the entry of a file records for a time in 1980 to 2107 fit sixteen bits each.
They spell a date of the calendar and a time of day, which are those of the file's time less an odd
second, and later times have no smaller words. -/
theorem entry_stamp_exact {f : File} {m : Moment} (h : Shows f.modified m)
    (hyear : 1980 ≤ m.year ∧ m.year ≤ 2107) (i : Item) :
    let stamp := (i.entry f).stamp
    (stamp.date < 2 ^ 16 ∧ stamp.time < 2 ^ 16) ∧
      stamp.moment.toDate.Valid ∧
      Shows (f.modified - f.modified % 2) stamp.moment ∧
      ∀ (g : File) (m' : Moment) (j : Item), Shows g.modified m' →
        1980 ≤ m'.year ∧ m'.year ≤ 2107 → f.modified ≤ g.modified →
        stamp.word ≤ (j.entry g).stamp.word := by
  have hstamp {g : File} {m' : Moment} (h' : Shows g.modified m')
      (hyear' : 1980 ≤ m'.year ∧ m'.year ≤ 2107) (j : Item) :
      (j.entry g).stamp = Timestamp.ofMoment m' := by
    rw [Item.entry, Timestamp.ofSeconds_eq h', if_neg (by omega)]
  have hshown := Timestamp.shows_recorded h hyear
  refine ⟨⟨Timestamp.date_ofSeconds_lt _, Timestamp.time_ofSeconds_lt _⟩, ?_⟩
  rw [hstamp h hyear, Timestamp.moment_ofMoment h]
  refine ⟨Timestamp.valid_of_shows hshown, hshown, fun g m' j h' hyear' hle => ?_⟩
  rw [hstamp h' hyear']
  exact Timestamp.word_le_word h hyear h' hyear' hle

/-- The last second of a leap day, and the last second of 2107. -/
theorem entry_stamp_exact_leap :
    let leap : File := ⟨[], 951868799, 0o644⟩
    let last : File := ⟨[], 4354819199, 0o644⟩
    let i : Item := { path := [], entryName := [] }
    Shows leap.modified ⟨⟨2000, 2, 29⟩, 23, 59, 59⟩ ∧
      (i.entry leap).stamp.moment = ⟨⟨2000, 2, 29⟩, 23, 59, 58⟩ ∧
      Shows 951868798 (i.entry leap).stamp.moment ∧
      (i.entry leap).stamp.word ≤ (i.entry last).stamp.word := by
  intro leap last i
  have hleap : Shows leap.modified ⟨⟨2000, 2, 29⟩, 23, 59, 59⟩ :=
    Calendar.shows_iff.mpr (by decide +kernel)
  have hlast : Shows last.modified ⟨⟨2107, 12, 31⟩, 23, 59, 59⟩ :=
    Calendar.shows_iff.mpr (by decide +kernel)
  obtain ⟨-, -, hshown, horder⟩ := entry_stamp_exact hleap (by decide) i
  exact ⟨hleap, by decide +kernel, hshown, horder last _ i hlast (by decide) (by decide)⟩

/-- A time is left out exactly if it is before 1980. Any other is recorded as the moment that is
left when the year loses all above its seven bits, which is another year for each from 2108 on. -/
theorem entry_stamp_wraps {f : File} {m : Moment} (h : Shows f.modified m) (i : Item) :
    ((i.entry f).stamp = Timestamp.unrecorded ↔ m.year < 1980) ∧
      (1980 ≤ m.year → (i.entry f).stamp.moment =
          { m with year := 1980 + (m.year - 1980) % 128, second := m.second / 2 * 2 } ∧
        ((i.entry f).stamp.moment.year = m.year ↔ m.year ≤ 2107)) := by
  rw [Item.entry, Timestamp.ofSeconds_eq h]
  dsimp only
  split
  · rename_i hearly
    exact ⟨iff_of_true rfl hearly, fun hyear => absurd hyear (not_le.mpr hearly)⟩
  · rename_i hyear
    refine ⟨iff_of_false (Timestamp.ofMoment_ne_unrecorded h) hyear, fun _ => ?_⟩
    rw [Timestamp.moment_ofMoment h]
    refine ⟨rfl, ?_⟩
    simp only [Timestamp.recorded]
    omega

/-- The last second of 1979 is left out, and the first of 2108 is recorded as the first of 1980. -/
theorem entry_stamp_wraps_bounds :
    let i : Item := { path := [], entryName := [] }
    (i.entry ⟨[], 315532799, 0o644⟩).stamp = Timestamp.unrecorded ∧
      (i.entry ⟨[], 4354819200, 0o644⟩).stamp.moment = ⟨⟨1980, 1, 1⟩, 0, 0, 0⟩ := by
  intro i
  have hearly : Shows 315532799 ⟨⟨1979, 12, 31⟩, 23, 59, 59⟩ :=
    Calendar.shows_iff.mpr (by decide +kernel)
  have hlate : Shows 4354819200 ⟨⟨2108, 1, 1⟩, 0, 0, 0⟩ :=
    Calendar.shows_iff.mpr (by decide +kernel)
  exact ⟨(entry_stamp_wraps (f := ⟨[], 315532799, 0o644⟩) hearly i).1.mpr (by decide),
    ((entry_stamp_wraps (f := ⟨[], 4354819200, 0o644⟩) hlate i).2 (by decide)).1⟩

/-- Not every time that no timestamp can hold is left out. -/
theorem exists_entry_stamp_beyond : ¬∀ (f : File) (m : Moment) (i : Item), Shows f.modified m →
    m.year < 1980 ∨ 2107 < m.year → (i.entry f).stamp = Timestamp.unrecorded := by
  intro h
  have hlate : Shows 4354819200 ⟨⟨2108, 1, 1⟩, 0, 0, 0⟩ :=
    Calendar.shows_iff.mpr (by decide +kernel)
  have hunrecorded := h ⟨[], 4354819200, 0o644⟩ _ { path := [], entryName := [] } hlate
    (.inr (by decide))
  exact absurd hunrecorded (by decide +kernel)

end ThemeBuilder
