import ThemeBuilder.Archive.Calendar

/-! The two-word timestamps of archive entries: years since 1980 in seven bits, time of day in
steps of two seconds. -/
namespace ThemeBuilder

/-- A timestamp's words, each of sixteen bits. Both are zero where no time is recorded. -/
structure Timestamp where
  time : Nat
  date : Nat
  deriving DecidableEq

namespace Timestamp

def unrecorded : Timestamp := ⟨0, 0⟩

/-- Years that seven bits cannot hold lose their higher bits. -/
def ofMoment (m : Moment) : Timestamp where
  time := m.hour * 2048 + m.minute * 32 + m.second / 2
  date := ((m.year - 1980) % 128).toNat * 512 + m.month * 32 + m.day

/-- The timestamp of a moment given in seconds since 1970. There is none before 1980. -/
def ofSeconds (seconds : Int) : Timestamp :=
  let m := Calendar.ofSeconds seconds
  if m.year < 1980 then unrecorded else ofMoment m

/-- The moment that the words spell, which is no calendar date where they are zero. -/
def moment (t : Timestamp) : Moment where
  year := 1980 + (t.date / 512 : Nat)
  month := t.date / 32 % 16
  day := t.date % 32
  hour := t.time / 2048
  minute := t.time / 32 % 64
  second := t.time % 32 * 2

end Timestamp
end ThemeBuilder
