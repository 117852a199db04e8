/-! # Calendar — seconds since 1970 as a date and a time of day

    Dates are those of the Gregorian calendar, continued in both
    directions.  Years are counted from March, so that a leap day ends its
    year, and in eras of 400 years, which all have the same number of
    days. -/

namespace GuardedHeap.Calendar

/-- A date. -/
structure Date where
  year : Nat
  month : Nat
  day : Nat
  deriving DecidableEq, Repr

/-- The number of days of 400 years. -/
def daysPerEra : Nat := 146097

/-- The number of days from the first of March of the year zero to the first of January 1970. -/
def daysToEpoch : Nat := 719468

/-- The number of seconds of a day. -/
def secondsPerDay : Nat := 86400

/-- The date `days` days after the first of January 1970. -/
def dateOfDays (days : Nat) : Date :=
  let z := days + daysToEpoch
  let era := z / daysPerEra
  let dayOfEra := z % daysPerEra
  let yearOfEra :=
    (dayOfEra - dayOfEra / 1460 + dayOfEra / 36524 - dayOfEra / 146096) / 365
  let dayOfYear := dayOfEra - (365 * yearOfEra + yearOfEra / 4 - yearOfEra / 100)
  let monthFromMarch := (5 * dayOfYear + 2) / 153
  let month := if monthFromMarch < 10 then monthFromMarch + 3 else monthFromMarch - 9
  {
    year := yearOfEra + 400 * era + (if month ≤ 2 then 1 else 0)
    month
    day := dayOfYear - (153 * monthFromMarch + 2) / 5 + 1
  }

/-- The number in at least `width` digits. -/
def padded (width n : Nat) : String :=
  let digits := Nat.toDigits 10 n
  String.ofList (List.replicate (width - digits.length) '0' ++ digits)

/-- The moment `seconds` seconds and `millis` milliseconds after 1970 began. -/
def format (seconds millis : Nat) : String :=
  let date := dateOfDays (seconds / secondsPerDay)
  let rest := seconds % secondsPerDay
  padded 4 date.year ++ "-" ++ padded 2 date.month ++ "-" ++ padded 2 date.day ++ "T" ++
    padded 2 (rest / 3600) ++ ":" ++ padded 2 (rest % 3600 / 60) ++ ":" ++ padded 2 (rest % 60) ++
    "." ++ padded 3 millis ++ "Z"

/-- The number of nanoseconds of a second. -/
abbrev nanosPerSecond : Nat := 1000000000

/-- A moment on the wall clock: seconds since 1970 began, and less than one more. -/
structure Moment where
  seconds : Int := 0
  nanos : Nat := 0
  nanos_lt : nanos < nanosPerSecond := by decide
  deriving DecidableEq, Repr

namespace Moment

/-- The moment that a clock shows, unless it shows a second or more as nanoseconds. -/
def of? (seconds nanos : Int) : Option Moment :=
  if h : 0 ≤ nanos ∧ nanos < nanosPerSecond then
    some ⟨seconds, nanos.toNat, (Int.toNat_lt h.1).mpr h.2⟩
  else none

/-- The text of a moment; one before 1970 reads as the beginning of 1970. -/
def format (m : Moment) : String :=
  if m.seconds < 0 then Calendar.format 0 0
  else Calendar.format m.seconds.toNat (m.nanos / 1000000)

end Moment

end GuardedHeap.Calendar
