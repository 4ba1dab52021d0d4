import ThemeBuilder.Archive.Timestamp
import ThemeBuilder.Proofs.Archive.Calendar

/-! Timestamps fit their two words, and what the words of a moment spell: its date and time of day
but for an odd second and for the higher bits of a year that does not fit seven. -/
namespace ThemeBuilder
open Calendar (Shows)

namespace Timestamp

theorem time_ofSeconds_lt (seconds : Int) : (ofSeconds seconds).time < 2 ^ 16 := by
  simp only [ofSeconds]
  split
  · exact Nat.two_pow_pos 16
  · simp only [ofMoment, Calendar.ofSeconds]
    omega

theorem date_ofSeconds_lt (seconds : Int) : (ofSeconds seconds).date < 2 ^ 16 := by
  have hvalid := Calendar.valid_ofDays (seconds / 86400)
  have hmonth := hvalid.month_le
  have hday := Calendar.day_le_of_valid hvalid
  simp only [ofSeconds]
  split
  · exact Nat.two_pow_pos 16
  · simp only [ofMoment, Calendar.ofSeconds]
    omega

/-- The two words of a timestamp as one number, the date first. -/
def word (t : Timestamp) : Nat := t.date * 2 ^ 16 + t.time

/-- What is left of a moment in a timestamp: the year within the 128 years from 1980 on, and the
second at or before it that is even. -/
def recorded (m : Moment) : Moment :=
  { m with year := 1980 + (m.year - 1980) % 128, second := m.second / 2 * 2 }

section
variable {seconds : Int} {m : Moment}

theorem ofSeconds_eq (h : Shows seconds m) :
    ofSeconds seconds = if m.year < 1980 then unrecorded else ofMoment m := by
  simp only [ofSeconds, Calendar.shows_iff.mp h]

theorem valid_of_shows (h : Shows seconds m) : m.toDate.Valid := by
  rw [← Calendar.dated_iff.mp h.date]
  exact Calendar.valid_ofDays _

/-- The fields of the words do not overlap. -/
theorem moment_ofMoment (h : Shows seconds m) : (ofMoment m).moment = recorded m := by
  have hmonth := (valid_of_shows h).month_le
  have hday := Calendar.day_le_of_valid (valid_of_shows h)
  obtain ⟨-, hhour, hminute, hsecond, -⟩ := h
  obtain ⟨⟨year, month, day⟩, hour, minute, second⟩ := m
  dsimp only at *
  simp only [moment, ofMoment, recorded, Moment.mk.injEq, Date.mk.injEq]
  refine ⟨⟨?_, ?_, ?_⟩, ?_, ?_, ?_⟩ <;> omega

theorem ofMoment_ne_unrecorded (h : Shows seconds m) : ofMoment m ≠ unrecorded := by
  have hday := (valid_of_shows h).day_pos
  intro heq
  have hdate := congrArg date heq
  simp only [ofMoment, unrecorded] at hdate
  omega

/-- In the years that fit, dropping the odd second is all that is lost. -/
theorem shows_recorded (h : Shows seconds m) (hyear : 1980 ≤ m.year ∧ m.year ≤ 2107) :
    Shows (seconds - seconds % 2) (recorded m) := by
  have hfits : 1980 + (m.year - 1980) % 128 = m.year := by omega
  obtain ⟨hdate, hhour, hminute, hsecond, htime⟩ := h
  refine ⟨?_, hhour, hminute, ?_, ?_⟩
  · have hday : (seconds - seconds % 2) / 86400 = seconds / 86400 := by omega
    rw [hday]
    simp only [recorded, hfits]
    exact hdate
  · simp only [recorded]
    omega
  · simp only [recorded]
    omega

/-- The word of a date is that of its rank. -/
theorem word_ofMoment (hyear : 1980 ≤ m.year ∧ m.year ≤ 2107) :
    ((ofMoment m).word : Int) = (Calendar.rank m.toDate - 1980 * 512) * 2 ^ 16 +
      (m.hour * 2048 + m.minute * 32 + m.second / 2 : Nat) := by
  simp only [word, ofMoment, Calendar.rank]
  omega

theorem word_le_word {later : Int} {m' : Moment} (h : Shows seconds m)
    (hyear : 1980 ≤ m.year ∧ m.year ≤ 2107) (h' : Shows later m')
    (hyear' : 1980 ≤ m'.year ∧ m'.year ≤ 2107) (hle : seconds ≤ later) :
    (ofMoment m).word ≤ (ofMoment m').word := by
  rw [← Int.ofNat_le, word_ofMoment hyear, word_ofMoment hyear']
  obtain ⟨hdate, hhour, hminute, hsecond, htime⟩ := h
  obtain ⟨hdate', hhour', hminute', hsecond', htime'⟩ := h'
  have hdays : seconds / 86400 ≤ later / 86400 := Int.ediv_le_ediv (by decide) hle
  rw [← Calendar.dated_iff.mp hdate, ← Calendar.dated_iff.mp hdate']
  obtain hbefore | hsame := hdays.lt_or_eq
  · have hrank := Calendar.rank_ofDays_lt hbefore
    omega
  · rw [hsame]
    have hclock : m.hour < m'.hour ∨ m.hour = m'.hour ∧
        (m.minute < m'.minute ∨ m.minute = m'.minute ∧ m.second ≤ m'.second) := by omega
    obtain hhours | ⟨hhours, hminutes | ⟨hminutes, hseconds⟩⟩ := hclock <;> omega

end
end Timestamp

end ThemeBuilder
