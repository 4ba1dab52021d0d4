import Mathlib.Algebra.Order.SuccPred
import Mathlib.Tactic.IntervalCases
import ThemeBuilder.Archive.Calendar

/-! The calendar day by day. Dates follow one another by the lengths of months and the leap years,
from 1 January 1970 on and back from it, and what is computed for a number of days is the date that
is reached in that way. Both directions of the computation go by the place of a day in a span of
400 years. -/
namespace ThemeBuilder
namespace Calendar

/-- Every fourth year is a leap year, but of the years that end a century only every fourth. -/
def IsLeap (year : Int) : Prop := year % 4 = 0 ∧ (year % 100 ≠ 0 ∨ year % 400 = 0)

instance (year : Int) : Decidable (IsLeap year) := inferInstanceAs (Decidable (_ ∧ _))

def monthLength (year : Int) : Nat → Nat
  | 2 => if IsLeap year then 29 else 28
  | 4 | 6 | 9 | 11 => 30
  | _ => 31

end Calendar

/-- A date that is on the calendar. -/
structure Date.Valid (d : Date) : Prop where
  month_pos : 1 ≤ d.month
  month_le : d.month ≤ 12
  day_pos : 1 ≤ d.day
  day_le : d.day ≤ Calendar.monthLength d.year d.month

def Date.next (d : Date) : Date :=
  if d.day < Calendar.monthLength d.year d.month then { d with day := d.day + 1 }
  else if d.month < 12 then ⟨d.year, d.month + 1, 1⟩
  else ⟨d.year + 1, 1, 1⟩

namespace Calendar

/-- The date of a day by its number from 1 January 1970, as one finds it day by day. -/
inductive Dated : Int → Date → Prop
  | epoch : Dated 0 ⟨1970, 1, 1⟩
  | after {n : Int} {d : Date} : Dated n d → Dated (n + 1) d.next
  | before {n : Int} {d : Date} : d.Valid → Dated (n + 1) d.next → Dated n d

/-- The moment of a number of seconds from the beginning of 1970: the date of its day and the time
of that day. -/
structure Shows (seconds : Int) (m : Moment) : Prop where
  date : Dated (seconds / 86400) m.toDate
  hour : m.hour < 24
  minute : m.minute < 60
  second : m.second < 60
  time : seconds % 86400 = (m.hour * 3600 + m.minute * 60 + m.second : Nat)

private theorem isLeap_add (span year : Int) : IsLeap (span * 400 + year) ↔ IsLeap year := by
  simp only [IsLeap]
  omega

/-- The calendar is the same in each span of 400 years. -/
private theorem monthLength_add (span year : Int) (month : Nat) :
    monthLength (span * 400 + year) month = monthLength year month := by
  unfold monthLength
  simp only [isLeap_add]

section Years
variable {c q r d : Nat}

/-- The days before a year that is `r` years into a group of four, `q` groups into a century and
`c` centuries into the span. -/
private theorem daysBeforeYear_digits (hc : c < 4) (hq : q < 25) (hr : r < 4) :
    daysBeforeYear (100 * c + 4 * q + r) = 36524 * c + 1461 * q + 365 * r := by
  have hfour : (100 * c + 4 * q + r) / 4 = 25 * c + q := by omega
  have hcentury : (100 * c + 4 * q + r) / 100 = c := by omega
  rw [daysBeforeYear, hfour, hcentury]
  omega

private theorem isLeap_digits (hc : c < 4) (hq : q < 25) (hr : r < 4) :
    IsLeap ((100 * c + 4 * q + r : Nat) + 1) ↔ r = 3 ∧ (q ≠ 24 ∨ c = 3) := by
  simp only [IsLeap]
  omega

private theorem yearOfDay_digits (hc : c < 4) (hq : q < 25) (hr : r < 4)
    (hd : d < 365 ∨ d = 365 ∧ r = 3 ∧ (q ≠ 24 ∨ c = 3)) :
    yearOfDay (36524 * c + 1461 * q + 365 * r + d) = 100 * c + 4 * q + r := by
  have hcentury : min 3 ((36524 * c + 1461 * q + 365 * r + d) / 36524) = c := by omega
  have hin : 36524 * c + 1461 * q + 365 * r + d - 36524 * c = 1461 * q + (365 * r + d) := by omega
  have hfour : (1461 * q + (365 * r + d)) / 1461 = q := by omega
  have hinFour : (1461 * q + (365 * r + d)) % 1461 = 365 * r + d := by omega
  have hone : min 3 ((365 * r + d) / 365) = r := by omega
  simp only [yearOfDay, hcentury, hin, hfour, hinFour, hone]

private theorem yearOfDay_daysBeforeYear {year : Nat} (hyear : year < 400)
    (hd : d < 365 ∨ d = 365 ∧ IsLeap (year + 1)) :
    yearOfDay (daysBeforeYear year + d) = year := by
  have heq : year = 100 * (year / 100) + 4 * (year % 100 / 4) + year % 4 := by omega
  have hc : year / 100 < 4 := by omega
  have hq : year % 100 / 4 < 25 := by omega
  have hr : year % 4 < 4 := by omega
  rw [heq] at hd
  generalize year / 100 = c, year % 100 / 4 = q, year % 4 = r at *
  subst heq
  rw [isLeap_digits hc hq hr] at hd
  rw [daysBeforeYear_digits hc hq hr, yearOfDay_digits hc hq hr hd]

/-- Each day of a span is in one of its years. -/
private theorem exists_year {day : Nat} (h : day < 146097) : ∃ year d : Nat, year < 400 ∧
    (d < 365 ∨ d = 365 ∧ IsLeap (year + 1)) ∧ day = daysBeforeYear year + d := by
  obtain ⟨c, hc⟩ : ∃ c, c = min 3 (day / 36524) := ⟨_, rfl⟩
  obtain ⟨e, he⟩ : ∃ e, e = day - 36524 * c := ⟨_, rfl⟩
  have hlast : e ≤ 36524 ∧ (e = 36524 → c = 3) := by omega
  obtain ⟨f, hf⟩ : ∃ f, f = e % 1461 := ⟨_, rfl⟩
  obtain ⟨r, hr⟩ : ∃ r, r = min 3 (f / 365) := ⟨_, rfl⟩
  have hdigits : c < 4 ∧ e / 1461 < 25 ∧ r < 4 := by omega
  obtain ⟨hc4, hq25, hr4⟩ := hdigits
  refine ⟨100 * c + 4 * (e / 1461) + r, f - 365 * r, by omega, ?_, ?_⟩
  · rw [isLeap_digits hc4 hq25 hr4]
    omega
  · rw [daysBeforeYear_digits hc4 hq25 hr4]
    omega

end Years

/-- The last days of the months from March on, as days of a year that begins on 1 March. -/
private theorem lt_monthLength_iff {year : Int} {month day : Nat} (h : month < 12) :
    day < monthLength (year + if month < 10 then 0 else 1)
        (if month < 10 then month + 3 else month - 9) ↔
      month < 11 ∧ daysBeforeMonth month + day < daysBeforeMonth (month + 1) ∨
      month = 11 ∧ (day < 28 ∨ day = 28 ∧ IsLeap (year + 1)) := by
  interval_cases month <;> simp [monthLength, daysBeforeMonth]
  all_goals try omega
  -- what is left is February
  split
  · simp_all
    omega
  · simp_all

/-- A day by its place in a span of 400 years whose years begin on 1 March: month 0 is March, and
days are counted from 0. -/
structure Place where
  span : Int
  year : Nat
  month : Nat
  day : Nat
  year_lt : year < 400
  month_lt : month < 12
  day_lt : day < monthLength (year + if month < 10 then 0 else 1)
    (if month < 10 then month + 3 else month - 9)

namespace Place

def dayOfYear (p : Place) : Nat := daysBeforeMonth p.month + p.day

def number (p : Place) : Int :=
  p.span * 146097 + (daysBeforeYear p.year + p.dayOfYear : Nat) - epochShift

def date (p : Place) : Date where
  year := p.span * 400 + p.year + if p.month < 10 then 0 else 1
  month := if p.month < 10 then p.month + 3 else p.month - 9
  day := p.day + 1

private theorem dayOfYear_le (p : Place) :
    p.dayOfYear < 365 ∨ p.dayOfYear = 365 ∧ IsLeap (p.year + 1) := by
  have hday := (lt_monthLength_iff p.month_lt).mp p.day_lt
  simp only [dayOfYear, daysBeforeMonth, IsLeap] at *
  omega

private theorem month_dayOfYear (p : Place) : (5 * p.dayOfYear + 2) / 153 = p.month := by
  have hday := (lt_monthLength_iff p.month_lt).mp p.day_lt
  simp only [dayOfYear, daysBeforeMonth] at *
  omega

private theorem number_lt (p : Place) : daysBeforeYear p.year + p.dayOfYear < 146097 := by
  have hyear := p.year_lt
  have hday := p.dayOfYear_le
  simp only [daysBeforeYear, IsLeap] at *
  omega

/-- Each number of days leads to a place. -/
private theorem exists_number (n : Int) : ∃ p : Place, p.number = n := by
  have hday : ((n + epochShift) % 146097).toNat < 146097 := by omega
  obtain ⟨year, d, hyear, hd, heq⟩ := exists_year hday
  have hmonth : (5 * d + 2) / 153 < 12 := by omega
  have hbefore : daysBeforeMonth ((5 * d + 2) / 153) ≤ d := by
    simp only [daysBeforeMonth]
    omega
  refine ⟨⟨(n + epochShift) / 146097, year, (5 * d + 2) / 153,
    d - daysBeforeMonth ((5 * d + 2) / 153), hyear, hmonth, ?_⟩, ?_⟩
  · rw [lt_monthLength_iff hmonth, Nat.add_sub_cancel' hbefore]
    simp only [daysBeforeMonth, IsLeap] at *
    omega
  · simp only [number, dayOfYear, Nat.add_sub_cancel' hbefore, ← heq]
    omega

@[simp]
private theorem ofDays_number (p : Place) : ofDays p.number = p.date := by
  have hlt := p.number_lt
  have hspan : (p.number + epochShift) / 146097 = p.span := by
    simp only [number]
    omega
  have hday : ((p.number + epochShift) % 146097).toNat = daysBeforeYear p.year + p.dayOfYear := by
    simp only [number]
    omega
  simp only [ofDays, hspan, hday, yearOfDay_daysBeforeYear p.year_lt p.dayOfYear_le,
    Nat.add_sub_cancel_left, p.month_dayOfYear]
  simp only [date, dayOfYear, Nat.add_sub_cancel_left]

@[simp]
private theorem toDays_date (p : Place) : toDays p.date = p.number := by
  obtain ⟨span, year, month, day, hyear, hmonth, -⟩ := p
  have hspan : (span * 400 + year) / 400 = span := by omega
  have hin : ((span * 400 + year) % 400).toNat = year := by omega
  simp only [toDays, date, number, dayOfYear]
  by_cases h : month < 10
  · simp only [h, if_true, show ¬month + 3 ≤ 2 by omega, if_false, Int.add_zero, Int.sub_zero,
      hspan, hin, Nat.add_sub_cancel]
    omega
  · simp only [h, if_false, show month - 9 ≤ 2 by omega, if_true, Int.add_sub_cancel,
      hspan, hin, show month - 9 + 9 = month by omega]
    omega

private theorem valid_date (p : Place) : p.date.Valid := by
  have hday := p.day_lt
  have hmonth := p.month_lt
  refine ⟨?_, ?_, Nat.succ_pos _, ?_⟩
  · simp only [date]
    split <;> omega
  · simp only [date]
    split <;> omega
  · simp only [date, Int.add_assoc, monthLength_add]
    exact hday

private theorem exists_date {d : Date} (h : d.Valid) : ∃ p : Place, p.date = d := by
  obtain ⟨year, month, day⟩ := d
  obtain ⟨hpos, hle, hday, hlength⟩ := h
  dsimp only at hpos hle hday hlength
  by_cases hm : month ≤ 2
  · have hyear : year = (year - 1) / 400 * 400 + (((year - 1) % 400).toNat + 1) := by omega
    rw [hyear, monthLength_add] at hlength
    refine ⟨⟨(year - 1) / 400, ((year - 1) % 400).toNat, month + 9, day - 1, by omega, by omega,
      ?_⟩, ?_⟩
    · simp only [show ¬month + 9 < 10 by omega, if_false, show month + 9 - 9 = month by omega]
      exact Nat.lt_of_lt_of_le (Nat.sub_lt hday Nat.one_pos) hlength
    · simp only [date, show ¬month + 9 < 10 by omega, if_false, Date.mk.injEq]
      exact ⟨by omega, by omega, by omega⟩
  · have hyear : year = year / 400 * 400 + (year % 400).toNat := by omega
    rw [hyear, monthLength_add] at hlength
    refine ⟨⟨year / 400, (year % 400).toNat, month - 3, day - 1, by omega, by omega, ?_⟩, ?_⟩
    · simp only [show month - 3 < 10 by omega, if_true, show month - 3 + 3 = month by omega,
        Int.add_zero]
      exact Nat.lt_of_lt_of_le (Nat.sub_lt hday Nat.one_pos) hlength
    · simp only [date, show month - 3 < 10 by omega, if_true, Int.add_zero, Date.mk.injEq]
      exact ⟨by omega, by omega, by omega⟩

end Place

@[simp]
theorem toDays_ofDays (n : Int) : toDays (ofDays n) = n := by
  obtain ⟨p, rfl⟩ := Place.exists_number n
  rw [p.ofDays_number, p.toDays_date]

theorem valid_ofDays (n : Int) : (ofDays n).Valid := by
  obtain ⟨p, rfl⟩ := Place.exists_number n
  rw [p.ofDays_number]
  exact p.valid_date

theorem ofDays_toDays {d : Date} (h : d.Valid) : ofDays (toDays d) = d := by
  obtain ⟨p, rfl⟩ := Place.exists_date h
  rw [p.toDays_date, p.ofDays_number]

/-- Days from 1 March of year 0 to 1 March of a year. -/
def daysToMarch (year : Int) : Int := year / 400 * 146097 + daysBeforeYear (year % 400).toNat

private theorem daysToMarch_eq_add (year : Int) :
    daysToMarch year = daysToMarch (year - 1) + if IsLeap year then 366 else 365 := by
  by_cases h : IsLeap year
  · rw [if_pos h]
    simp only [daysToMarch, daysBeforeYear, IsLeap] at *
    omega
  · rw [if_neg h]
    simp only [daysToMarch, daysBeforeYear, IsLeap] at *
    omega

private theorem toDays_of_le_two {year : Int} {month day : Nat} (h : month ≤ 2) :
    toDays ⟨year, month, day⟩ =
      daysToMarch (year - 1) + daysBeforeMonth (month + 9) + (day - 1) - epochShift := by
  simp only [toDays, daysToMarch, h, if_true]

private theorem toDays_of_two_lt {year : Int} {month day : Nat} (h : 2 < month) :
    toDays ⟨year, month, day⟩ =
      daysToMarch year + daysBeforeMonth (month - 3) + (day - 1) - epochShift := by
  simp only [toDays, daysToMarch, Nat.not_le.mpr h, if_false, Int.sub_zero]

/-- The day after a day of the calendar has the next number. -/
theorem toDays_next {d : Date} (h : d.Valid) : toDays d.next = toDays d + 1 := by
  obtain ⟨year, month, day⟩ := d
  obtain ⟨hpos, hle, -, hlength⟩ := h
  unfold Date.next
  dsimp only at *
  split
  · simp only [toDays]
    omega
  · obtain rfl : day = monthLength year month := by omega
    interval_cases month <;> simp [toDays_of_le_two, toDays_of_two_lt, monthLength, daysBeforeMonth]
    all_goals try omega
    -- from February to March the year that begins on 1 March changes
    rw [daysToMarch_eq_add]
    split <;> omega

theorem monthLength_pos (year : Int) (month : Nat) : 1 ≤ monthLength year month := by
  unfold monthLength
  repeat' split
  all_goals decide

theorem monthLength_le (year : Int) (month : Nat) : monthLength year month ≤ 31 := by
  unfold monthLength
  repeat' split
  all_goals decide

theorem day_le_of_valid {d : Date} (h : d.Valid) : d.day ≤ 31 :=
  h.day_le.trans (monthLength_le _ _)

theorem valid_next {d : Date} (h : d.Valid) : d.next.Valid := by
  obtain ⟨hpos, hle, hday, -⟩ := h
  unfold Date.next
  split
  · rename_i hlength
    exact ⟨hpos, hle, Nat.succ_pos _, hlength⟩
  split
  · rename_i hmonth
    exact ⟨Nat.succ_pos _, hmonth, Nat.le_refl _, monthLength_pos _ _⟩
  · exact ⟨Nat.le_refl _, Nat.le_add_left 1 11, Nat.le_refl _, monthLength_pos _ _⟩

theorem ofDays_succ (n : Int) : ofDays (n + 1) = (ofDays n).next := by
  have hvalid := valid_ofDays n
  rw [← ofDays_toDays (valid_next hvalid), toDays_next hvalid, toDays_ofDays]

/-- What is computed is the calendar: each day has one date, and it is the computed one. -/
theorem dated_iff {n : Int} {d : Date} : Dated n d ↔ ofDays n = d := by
  constructor
  · intro h
    induction h with
    | epoch => decide
    | after _ ih => rw [ofDays_succ, ih]
    | before hvalid _ ih =>
      have hnumber := toDays_next hvalid
      rw [← ih, toDays_ofDays] at hnumber
      have hday := add_right_cancel hnumber
      rw [hday, ofDays_toDays hvalid]
  · rintro rfl
    induction n with
    | zero => exact .epoch
    | succ n ih =>
      rw [ofDays_succ]
      exact ih.after
    | pred n ih =>
      refine .before (valid_ofDays _) ?_
      rwa [← ofDays_succ, Int.sub_add_cancel]

theorem shows_iff {seconds : Int} {m : Moment} : Shows seconds m ↔ ofSeconds seconds = m := by
  constructor
  · rintro ⟨hdate, hhour, hminute, hsecond, htime⟩
    obtain ⟨date, hour, minute, second⟩ := m
    simp only [ofSeconds, dated_iff.mp hdate, Moment.mk.injEq, true_and]
    dsimp only at *
    exact ⟨by omega, by omega, by omega⟩
  · rintro rfl
    refine ⟨dated_iff.mpr rfl, ?_, ?_, ?_, ?_⟩ <;> simp only [ofSeconds] <;> omega

/-- A number by which dates are in the order of their days. -/
def rank (d : Date) : Int := d.year * 512 + d.month * 32 + d.day

private theorem rank_lt_rank_next {d : Date} (h : d.Valid) : rank d < rank d.next := by
  have hmonth := h.month_le
  have hday := day_le_of_valid h
  unfold Date.next
  split
  · simp only [rank]
    omega
  split
  · simp only [rank]
    omega
  · simp only [rank]
    omega

theorem rank_ofDays_lt {m n : Int} (h : m < n) : rank (ofDays m) < rank (ofDays n) := by
  have hstep (k : Int) : rank (ofDays k) < rank (ofDays (k + 1)) := by
    rw [ofDays_succ]
    exact rank_lt_rank_next (valid_ofDays k)
  exact strictMono_int_of_lt_succ hstep h

end Calendar
end ThemeBuilder
