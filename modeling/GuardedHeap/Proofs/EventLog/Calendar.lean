import GuardedHeap.EventLog.Calendar
import GuardedHeap.Word
import Mathlib.Data.Nat.ModEq
import Mathlib.Tactic.IntervalCases

/-! # The calendar — every day has a date, and the day after has the next one

    The rule of the calendar is told twice.  `Date.next` tells which date
    follows which, from the lengths of the months and the leap years alone;
    `dateOfDays` computes a date from a number of days.  The route between
    them:

    * a day lies in a month, counted from March, of a year that begins with
      March (`Lies`); one day later lies the next date (`Lies.succ`), so
      that by induction every day lies somewhere (`exists_lies`);
    * what `dateOfDays` computes is where the day lies
      (`Lies.dateOfDays_eq`): the corrections by leap years come out right
      for the parts of an era of 400 years (`yearOfEra_eq`);
    * none of its sums leaves the word, and none of its differences is
      negative (`dateOfDaysInWords_eq`). -/

namespace GuardedHeap.Calendar

/-! ## The rule of the calendar -/

/-- Every fourth year has a leap day, but of the years that end a century only every fourth. -/
def IsLeap (year : Nat) : Prop :=
  4 ∣ year ∧ (100 ∣ year → 400 ∣ year)

instance : DecidablePred IsLeap := fun year => inferInstanceAs (Decidable (4 ∣ year ∧ (100 ∣ year → 400 ∣ year)))

/-- The number of days of a month. -/
def daysInMonth (year month : Nat) : Nat :=
  match month with
  | 2 => if IsLeap year then 29 else 28
  | 4 | 6 | 9 | 11 => 30
  | _ => 31

namespace Date

/-- The date is in the calendar. -/
structure Valid (d : Date) : Prop where
  month_pos : 0 < d.month
  month_le : d.month ≤ 12
  day_pos : 0 < d.day
  day_le : d.day ≤ daysInMonth d.year d.month

/-- The date of the day after. -/
def next (d : Date) : Date :=
  if d.day < daysInMonth d.year d.month then { d with day := d.day + 1 }
  else if d.month < 12 then { d with month := d.month + 1, day := 1 }
  else ⟨d.year + 1, 1, 1⟩

end Date

theorem daysInMonth_pos (year month : Nat) : 0 < daysInMonth year month := by
  unfold daysInMonth
  split
  · split <;> decide
  all_goals decide

/-- No month has more than 31 days. -/
theorem daysInMonth_le (year month : Nat) : daysInMonth year month ≤ 31 := by
  unfold daysInMonth
  split
  · split <;> decide
  all_goals decide

/-! ## Years that begin with March -/

/-- The date in the month that comes `m` months after March of `year`, `d` days after its first. -/
def fromMarch (year m d : Nat) : Date :=
  ⟨year + m / 10, (m + 2) % 12 + 1, d + 1⟩

/-- The number of days of the month that comes `m` months after March of `year`. -/
def monthLength (year m : Nat) : Nat :=
  daysInMonth (year + m / 10) ((m + 2) % 12 + 1)

/-- The number of days of a year that begins with March: the leap day is that of the year behind it. -/
def yearLength (year : Nat) : Nat :=
  if IsLeap (year + 1) then 366 else 365

/-- The number of days from the beginning of a year to the month that comes `m` months after its March. -/
def daysToMonth (m : Nat) : Nat :=
  (153 * m + 2) / 5

/-- The number of days from March of the year zero to March of `year`. -/
def daysToMarch (year : Nat) : Nat :=
  365 * year + year / 4 - year / 100 + year / 400

theorem daysToMonth_succ {m : Nat} (year : Nat) (h : m < 11) :
    daysToMonth (m + 1) = daysToMonth m + monthLength year m := by
  interval_cases m <;> rfl

/-- The last month, February, ends with the year. -/
theorem daysToMonth_last (year : Nat) : daysToMonth 11 + monthLength year 11 = yearLength year := by
  change 337 + (if IsLeap (year + 1) then 29 else 28) = if IsLeap (year + 1) then 366 else 365
  split <;> rfl

/-- A year takes as many days as it has. -/
theorem daysToMarch_succ (year : Nat) : daysToMarch (year + 1) = daysToMarch year + yearLength year := by
  have hcentury : year / 100 ≤ year / 4 := by omega
  have h100 : 100 ∣ year + 1 → 4 ∣ year + 1 := Nat.dvd_trans (by decide)
  have h400 : 400 ∣ year + 1 → 100 ∣ year + 1 := Nat.dvd_trans (by decide)
  simp only [daysToMarch, yearLength, IsLeap, Nat.succ_div]
  -- Each quotient grows by one exactly where its divisor divides, and the divisors divide one another.
  by_cases hfour : 4 ∣ year + 1
  · by_cases hhundred : 100 ∣ year + 1
    · by_cases hera : 400 ∣ year + 1
      · simp only [hfour, hhundred, hera, if_true, and_self, imp_self]
        omega
      · simp only [hfour, hhundred, hera, if_true, if_false, true_and, forall_const]
        omega
    · have hera : ¬ 400 ∣ year + 1 := fun h => hhundred (h400 h)
      simp only [hfour, hhundred, hera, if_true, if_false, true_and, false_imp_iff]
      omega
  · have hhundred : ¬ 100 ∣ year + 1 := fun h => hfour (h100 h)
    have hera : ¬ 400 ∣ year + 1 := fun h => hhundred (h400 h)
    simp only [hfour, hhundred, hera, if_false, false_and]
    omega

theorem next_fromMarch_of_lt {year m d : Nat} (h : d + 1 < monthLength year m) :
    (fromMarch year m d).next = fromMarch year m (d + 1) :=
  if_pos h

/-- The last day of a month is followed by the first of the next one, be it in the same year or not. -/
theorem next_fromMarch_of_last {year m d : Nat} (hm : m < 12) (hlast : ¬ d + 1 < monthLength year m) :
    (fromMarch year m d).next = fromMarch (year + (m + 1) / 12) ((m + 1) % 12) 0 := by
  have hnext : (fromMarch year m d).next = if (m + 2) % 12 + 1 < 12
      then ⟨year + m / 10, (m + 2) % 12 + 1 + 1, 1⟩ else ⟨year + m / 10 + 1, 1, 1⟩ := if_neg hlast
  rw [hnext]
  interval_cases m <;> rfl

/-! ## Where a day lies -/

/-- Where the day lies that comes `n` days after the first of March of the year zero. -/
structure Lies (n year m d : Nat) : Prop where
  sum : n = daysToMarch year + daysToMonth m + d
  month_lt : m < 12
  day_lt : d < monthLength year m

namespace Lies

variable {n year m d : Nat}

/-- What lies in a month is a day of the calendar. -/
theorem valid (h : Lies n year m d) : (fromMarch year m d).Valid where
  month_pos := Nat.succ_pos _
  month_le := Nat.mod_lt _ (by decide)
  day_pos := Nat.succ_pos _
  day_le := h.day_lt

/-- One day later lies the next date. -/
theorem succ (h : Lies n year m d) :
    ∃ year' m' d', Lies (n + 1) year' m' d' ∧ (fromMarch year m d).next = fromMarch year' m' d' := by
  obtain ⟨hsum, hm, hd⟩ := h
  by_cases hday : d + 1 < monthLength year m
  · exact ⟨year, m, d + 1, ⟨by omega, hm, hday⟩, next_fromMarch_of_lt hday⟩
  · refine ⟨year + (m + 1) / 12, (m + 1) % 12, 0, ?_, next_fromMarch_of_last hm hday⟩
    have hlast : d + 1 = monthLength year m := by omega
    -- The month ends: behind February a new year begins, behind any other month only a month.
    rcases Nat.lt_or_ge m 11 with hmonth | hmonth
    · have hsucc := daysToMonth_succ year hmonth
      have hsame : (m + 1) / 12 = 0 ∧ (m + 1) % 12 = m + 1 := by omega
      rw [hsame.1, hsame.2]
      refine ⟨?_, by omega, daysInMonth_pos _ _⟩
      change n + 1 = daysToMarch year + daysToMonth (m + 1) + 0
      omega
    · obtain rfl : m = 11 := by omega
      have hsucc := daysToMarch_succ year
      have hyear := daysToMonth_last year
      refine ⟨?_, by decide, daysInMonth_pos _ _⟩
      change n + 1 = daysToMarch (year + 1) + 0 + 0
      omega

/-- A month ends within its year. -/
theorem lt_yearLength (h : Lies n year m d) : daysToMonth m + d < yearLength year := by
  have hd := h.day_lt
  have hm := h.month_lt
  have hlast := daysToMonth_last year
  rcases Nat.lt_or_ge m 11 with hmonth | hmonth
  · have hsucc := daysToMonth_succ year hmonth
    have hle : daysToMonth (m + 1) ≤ daysToMonth 11 := by
      unfold daysToMonth
      omega
    omega
  · obtain rfl : m = 11 := by omega
    omega

end Lies

/-- Every day lies in some month. -/
theorem exists_lies (n : Nat) : ∃ year m d, Lies n year m d := by
  induction n with
  | zero => exact ⟨0, 0, 0, ⟨rfl, by decide, by decide⟩⟩
  | succ n ih =>
      obtain ⟨year, m, d, h⟩ := ih
      obtain ⟨year', m', d', h', -⟩ := h.succ
      exact ⟨year', m', d', h'⟩

/-! ## Eras -/

/-- All eras of 400 years are alike. -/
theorem yearLength_mod (year : Nat) : yearLength (year % 400) = yearLength year := by
  have hleap : IsLeap (year % 400 + 1) ↔ IsLeap (year + 1) := by
    unfold IsLeap
    omega
  unfold yearLength
  simp only [hleap]

/-- Every era takes the same number of days. -/
theorem daysToMarch_era (year : Nat) :
    daysToMarch year = daysPerEra * (year / 400) + daysToMarch (year % 400) := by
  unfold daysToMarch daysPerEra
  omega

section Era

variable {year t : Nat}

theorem yearLength_cases (ht : t < yearLength year) : t ≤ 365 ∧ (t = 365 → IsLeap (year + 1)) := by
  unfold yearLength at ht
  by_cases hleap : IsLeap (year + 1)
  · rw [if_pos hleap] at ht
    exact ⟨by omega, fun _ => hleap⟩
  · rw [if_neg hleap] at ht
    exact ⟨by omega, by omega⟩

/-- A day of an era lies in it. -/
theorem era_lt (hyear : year < 400) (ht : t < yearLength year) : daysToMarch year + t < daysPerEra := by
  have hle := (yearLength_cases ht).1
  unfold daysToMarch daysPerEra
  omega

/-- The days before a year of an era, by its century, the four years in that, and the year among these. -/
theorem daysToMarch_parts {c k j : Nat} (hc : c ≤ 3) (hk : k ≤ 24) (hj : j ≤ 3) :
    daysToMarch (100 * c + 4 * k + j) = 36524 * c + 1461 * k + 365 * j := by
  have hfour : (100 * c + 4 * k + j) / 4 = 25 * c + k := by omega
  have hhundred : (100 * c + 4 * k + j) / 100 = c := by omega
  have hera : (100 * c + 4 * k + j) / 400 = 0 := by omega
  rw [daysToMarch, hfour, hhundred, hera]
  omega

/-- A leap day is the last one of four years, and only the last century ends with one. -/
theorem parts_of_isLeap {c k j : Nat} (hc : c ≤ 3) (hk : k ≤ 24) (hj : j ≤ 3)
    (h : IsLeap (100 * c + 4 * k + j + 1)) : j = 3 ∧ (k = 24 → c = 3) := by
  obtain ⟨hfour, hhundred⟩ := h
  have hthree : j = 3 := by omega
  subst hthree
  refine ⟨rfl, fun hend => ?_⟩
  subst hend
  have hera := hhundred ⟨c + 1, by omega⟩
  omega

/-- The corrections by leap years leave as many whole years of 365 days as there are. -/
theorem yearOfEra_parts {c k j dayOfEra : Nat} (hc : c ≤ 3) (hk : k ≤ 24) (hj : j ≤ 3) (ht : t ≤ 365)
    (hlast : t = 365 → j = 3 ∧ (k = 24 → c = 3)) (hday : dayOfEra = 36524 * c + 1461 * k + 365 * j + t) :
    (dayOfEra - dayOfEra / 1460 + dayOfEra / 36524 - dayOfEra / 146096) / 365 = 100 * c + 4 * k + j := by
  -- A century is a day short of 36525, but for the last one: the day 146096 is the leap day of the era.
  have hcentury : dayOfEra / 36524 = c + dayOfEra / 146096 := by
    by_cases hend : t = 365 ∧ k = 24
    · omega
    · have hwithin : 1461 * k + 365 * j + t < 36524 := by omega
      have hshort : dayOfEra / 146096 = 0 := by omega
      omega
  have hfour : dayOfEra / 1460 = 25 * c + k + (24 * c + k + 365 * j + t) / 1460 := by omega
  omega

/-- The year of an era from a day of the era. -/
theorem yearOfEra_eq (hyear : year < 400) (ht : t < yearLength year) {dayOfEra : Nat}
    (hday : dayOfEra = daysToMarch year + t) :
    (dayOfEra - dayOfEra / 1460 + dayOfEra / 36524 - dayOfEra / 146096) / 365 = year := by
  obtain ⟨hle, hleap⟩ := yearLength_cases ht
  obtain ⟨c, k, j, rfl, hc, hk, hj⟩ : ∃ c k j, year = 100 * c + 4 * k + j ∧ c ≤ 3 ∧ k ≤ 24 ∧ j ≤ 3 :=
    ⟨year / 100, year % 100 / 4, year % 4, by omega, by omega, by omega, by omega⟩
  rw [daysToMarch_parts hc hk hj] at hday
  exact yearOfEra_parts hc hk hj hle (fun heq => parts_of_isLeap hc hk hj (hleap heq)) hday

end Era

/-! ## Dates of days -/

/-- The parts that a date is computed from. -/
structure Computed (z year m t : Nat) : Prop where
  era : z / daysPerEra = year / 400
  dayOfEra : z % daysPerEra = daysToMarch (year % 400) + t
  yearOfEra : (z % daysPerEra - z % daysPerEra / 1460 + z % daysPerEra / 36524 - z % daysPerEra / 146096) / 365
    = year % 400
  dayOfYear : z % daysPerEra
    - (365 * (year % 400) + year % 400 / 4 - year % 400 / 100) = t
  month : (5 * t + 2) / 153 = m

namespace Lies

variable {n days year m d : Nat}

/-- The parts of a day are those of where it lies. -/
theorem computed (h : Lies n year m d) : Computed n year m (daysToMonth m + d) := by
  have ht := h.lt_yearLength
  have hyear : year % 400 < 400 := Nat.mod_lt _ (by decide)
  rw [← yearLength_mod] at ht
  have hera := daysToMarch_era year
  have hsum := h.sum
  have hlt := era_lt hyear ht
  have hn : n = daysToMarch (year % 400) + (daysToMonth m + d) + daysPerEra * (year / 400) := by omega
  have hday : n % daysPerEra = daysToMarch (year % 400) + (daysToMonth m + d) := by
    rw [hn, Nat.add_mul_mod_self_left, Nat.mod_eq_of_lt hlt]
  constructor
  case era => rw [hn, Nat.add_mul_div_left _ _ (by decide), Nat.div_eq_of_lt hlt, Nat.zero_add]
  case dayOfEra => exact hday
  case yearOfEra => exact yearOfEra_eq hyear ht hday
  case dayOfYear =>
    rw [hday, daysToMarch, Nat.div_eq_of_lt hyear]
    omega
  case month =>
    have hm := h.month_lt
    have hd := Nat.lt_of_lt_of_le h.day_lt (daysInMonth_le _ _)
    -- A month ends before the next one begins, and the last one before the day 367.
    have hend : m < 11 → daysToMonth m + d < daysToMonth (m + 1) := fun hmonth => by
      rw [daysToMonth_succ year hmonth]
      exact Nat.add_lt_add_left h.day_lt _
    have hlast := (yearLength_cases ht).1
    unfold daysToMonth at *
    omega

/-- The date of a day is that of the month where it lies. -/
theorem dateOfDays_eq (h : Lies (days + daysToEpoch) year m d) : dateOfDays days = fromMarch year m d := by
  obtain ⟨hera, -, hyear, hday, hmonth⟩ := h.computed
  have hm := h.month_lt
  have hstart : (153 * m + 2) / 5 = daysToMonth m := rfl
  simp only [dateOfDays, fromMarch, hera, hyear, hday, hmonth, hstart, Date.mk.injEq]
  refine ⟨?_, ?_, by omega⟩
  · by_cases hten : m < 10
    · rw [if_pos hten, if_neg (by omega)]
      omega
    · rw [if_neg hten, if_pos (by omega)]
      omega
  · by_cases hten : m < 10
    · rw [if_pos hten]
      omega
    · rw [if_neg hten]
      omega

end Lies

theorem dateOfDays_zero : dateOfDays 0 = ⟨1970, 1, 1⟩ := rfl

/-- Every number of days is a day of the calendar. -/
theorem valid_dateOfDays (days : Nat) : (dateOfDays days).Valid := by
  obtain ⟨year, m, d, h⟩ := exists_lies (days + daysToEpoch)
  rw [h.dateOfDays_eq]
  exact h.valid

/-- The day after has the next date. -/
theorem dateOfDays_succ (days : Nat) : dateOfDays (days + 1) = (dateOfDays days).next := by
  obtain ⟨year, m, d, h⟩ := exists_lies (days + daysToEpoch)
  obtain ⟨year', m', d', h', hnext⟩ := h.succ
  rw [h.dateOfDays_eq, hnext]
  refine Lies.dateOfDays_eq ?_
  rwa [Nat.add_right_comm]

/-! ## In words -/

/-- The year of an era from the day of the era, in words. -/
def yearOfEraInWords (dayOfEra : Nat) : Checked Nat := do
  let whole ← Word.sub dayOfEra (dayOfEra / 1460)
  let whole ← Word.add whole (dayOfEra / 36524)
  let whole ← Word.sub whole (dayOfEra / 146096)
  return whole / 365

/-- The day of a year from the day of the era, in words. -/
def dayOfYearInWords (dayOfEra yearOfEra : Nat) : Checked Nat := do
  let days ← Word.mul 365 yearOfEra
  let days ← Word.add days (yearOfEra / 4)
  let days ← Word.sub days (yearOfEra / 100)
  Word.sub dayOfEra days

/-- The month, counted from March, and the day of the month from the day of the year, in words. -/
def monthAndDayInWords (dayOfYear : Nat) : Checked (Nat × Nat) := do
  let month := (← Word.add (← Word.mul 5 dayOfYear) 2) / 153
  let start := (← Word.add (← Word.mul 153 month) 2) / 5
  return (month, ← Word.add (← Word.sub dayOfYear start) 1)

/-- The year and the month, for a year of an era and a month counted from March, in words. -/
def yearAndMonthInWords (era yearOfEra monthFromMarch : Nat) : Checked (Nat × Nat) := do
  let month ← if monthFromMarch < 10 then Word.add monthFromMarch 3 else Word.sub monthFromMarch 9
  let year ← Word.add yearOfEra (← Word.mul era 400)
  return (← Word.add year (if month ≤ 2 then 1 else 0), month)

/-- `dateOfDays` in words. -/
def dateOfDaysInWords (days : Nat) : Checked Date := do
  let z ← Word.add days daysToEpoch
  let yearOfEra ← yearOfEraInWords (z % daysPerEra)
  let dayOfYear ← dayOfYearInWords (z % daysPerEra) yearOfEra
  let (monthFromMarch, day) ← monthAndDayInWords dayOfYear
  let (year, month) ← yearAndMonthInWords (z / daysPerEra) yearOfEra monthFromMarch
  return { year, month, day }

section InWords

/-- A computation that did not overrun is passed over. -/
@[simp]
theorem ok_bind {α β : Type} (a : α) (next : α → Checked β) : (Except.ok a >>= next) = next a := rfl

variable {dayOfEra year t m d : Nat}

/-- The year of an era is found in words. -/
theorem yearOfEraInWords_eq (h : dayOfEra < daysPerEra) : yearOfEraInWords dayOfEra =
    .ok ((dayOfEra - dayOfEra / 1460 + dayOfEra / 36524 - dayOfEra / 146096) / 365) := by
  have hlimit : daysPerEra + daysPerEra < Word.limit := by decide
  have hfour : dayOfEra / 1460 ≤ dayOfEra := Nat.div_le_self _ _
  have hcentury : dayOfEra / 36524 ≤ dayOfEra := Nat.div_le_self _ _
  have hera : dayOfEra / 146096 ≤ dayOfEra / 36524 := Nat.div_le_div_left (by decide) (by decide)
  have hless : Word.sub dayOfEra (dayOfEra / 1460) = .ok (dayOfEra - dayOfEra / 1460) :=
    Word.sub_eq_ok.mpr ⟨hfour, rfl⟩
  have hmore : Word.add (dayOfEra - dayOfEra / 1460) (dayOfEra / 36524) =
      .ok (dayOfEra - dayOfEra / 1460 + dayOfEra / 36524) := Word.add_eq_ok.mpr ⟨by omega, rfl⟩
  have hlast : Word.sub (dayOfEra - dayOfEra / 1460 + dayOfEra / 36524) (dayOfEra / 146096) =
      .ok (dayOfEra - dayOfEra / 1460 + dayOfEra / 36524 - dayOfEra / 146096) :=
    Word.sub_eq_ok.mpr ⟨by omega, rfl⟩
  simp only [yearOfEraInWords, ok_bind, hless, hmore, hlast]
  rfl

/-- So is the day of the year. -/
theorem dayOfYearInWords_eq (hyear : year < 400) (hday : dayOfEra = daysToMarch year + t) :
    dayOfYearInWords dayOfEra year = .ok t := by
  have hlimit : 1000000 < Word.limit := by decide
  have hstart : daysToMarch year = 365 * year + year / 4 - year / 100 := by
    rw [daysToMarch, Nat.div_eq_of_lt hyear, Nat.add_zero]
  have hfour : year / 4 ≤ year := Nat.div_le_self _ _
  have hhundred : year / 100 ≤ year / 4 := Nat.div_le_div_left (by decide) (by decide)
  have hwhole : Word.mul 365 year = .ok (365 * year) := Word.mul_eq_ok.mpr ⟨by omega, rfl⟩
  have hmore : Word.add (365 * year) (year / 4) = .ok (365 * year + year / 4) :=
    Word.add_eq_ok.mpr ⟨by omega, rfl⟩
  have hless : Word.sub (365 * year + year / 4) (year / 100) = .ok (daysToMarch year) :=
    Word.sub_eq_ok.mpr ⟨by omega, hstart⟩
  have hlast : Word.sub dayOfEra (daysToMarch year) = .ok t := Word.sub_eq_ok.mpr ⟨by omega, by omega⟩
  simp only [dayOfYearInWords, ok_bind, hwhole, hmore, hless, hlast]

/-- So are the month and the day. -/
theorem monthAndDayInWords_eq (hm : m < 12) (hd : d < 31) (hmonth : (5 * (daysToMonth m + d) + 2) / 153 = m) :
    monthAndDayInWords (daysToMonth m + d) = .ok (m, d + 1) := by
  have hlimit : 1000000 < Word.limit := by decide
  have hstart : (153 * m + 2) / 5 = daysToMonth m := rfl
  have hle : daysToMonth m ≤ 337 := by
    unfold daysToMonth
    omega
  have hfive : Word.mul 5 (daysToMonth m + d) = .ok (5 * (daysToMonth m + d)) := Word.mul_eq_ok.mpr ⟨by omega, rfl⟩
  have htwo : Word.add (5 * (daysToMonth m + d)) 2 = .ok (5 * (daysToMonth m + d) + 2) :=
    Word.add_eq_ok.mpr ⟨by omega, rfl⟩
  have hmonths : Word.mul 153 m = .ok (153 * m) := Word.mul_eq_ok.mpr ⟨by omega, rfl⟩
  have hmonths' : Word.add (153 * m) 2 = .ok (153 * m + 2) := Word.add_eq_ok.mpr ⟨by omega, rfl⟩
  have hrest : Word.sub (daysToMonth m + d) (daysToMonth m) = .ok d := Word.sub_eq_ok.mpr ⟨by omega, by omega⟩
  have hone : Word.add d 1 = .ok (d + 1) := Word.add_eq_ok.mpr ⟨by omega, rfl⟩
  simp only [monthAndDayInWords, ok_bind, hfive, htwo, hmonth, hmonths, hmonths', hstart, hrest, hone]
  rfl

/-- The years of so many eras are words. -/
theorem year_lt {z : Nat} (heras : year / 400 * daysPerEra ≤ z) (h : z < Word.limit) : year + 1 < Word.limit := by
  have hlimit : 1000000 < Word.limit := by decide
  simp only [daysPerEra] at heras
  omega

/-- So are the year and the month that begin in January. -/
theorem yearAndMonthInWords_eq (hm : m < 12) (hyear : year + 1 < Word.limit) :
    yearAndMonthInWords (year / 400) (year % 400) m = .ok (year + m / 10, (m + 2) % 12 + 1) := by
  have hlimit : 1000000 < Word.limit := by decide
  have hmul : Word.mul (year / 400) 400 = .ok (year / 400 * 400) := Word.mul_eq_ok.mpr ⟨by omega, rfl⟩
  have hadd : Word.add (year % 400) (year / 400 * 400) = .ok year := Word.add_eq_ok.mpr ⟨by omega, by omega⟩
  by_cases hten : m < 10
  · have hlate : ¬ (m + 2) % 12 + 1 ≤ 2 := by omega
    have hmonth : Word.add m 3 = .ok ((m + 2) % 12 + 1) := Word.add_eq_ok.mpr ⟨by omega, by omega⟩
    have hsame : Word.add year 0 = .ok (year + m / 10) := Word.add_eq_ok.mpr ⟨by omega, by omega⟩
    simp only [yearAndMonthInWords, ok_bind, if_pos hten, hmonth, hmul, hadd, if_neg hlate, hsame]
    rfl
  · have hearly : (m + 2) % 12 + 1 ≤ 2 := by omega
    have hmonth : Word.sub m 9 = .ok ((m + 2) % 12 + 1) := Word.sub_eq_ok.mpr ⟨by omega, by omega⟩
    have hnext : Word.add year 1 = .ok (year + m / 10) := Word.add_eq_ok.mpr ⟨by omega, by omega⟩
    simp only [yearAndMonthInWords, ok_bind, if_neg hten, hmonth, hmul, hadd, if_pos hearly, hnext]
    rfl

end InWords

/-- The date of a day does not overrun if the days before 1970 can be added. -/
theorem dateOfDaysInWords_eq {days : Nat} (h : days + daysToEpoch < Word.limit) :
    dateOfDaysInWords days = .ok (dateOfDays days) := by
  obtain ⟨year, m, d, hlies⟩ := exists_lies (days + daysToEpoch)
  obtain ⟨hera, hday, hyear, -, hmonth⟩ := hlies.computed
  have hz : Word.add days daysToEpoch = .ok (days + daysToEpoch) := Word.add_eq_ok.mpr ⟨h, rfl⟩
  have hlt : (days + daysToEpoch) % daysPerEra < daysPerEra := Nat.mod_lt _ (by decide)
  have hd : d < 31 := Nat.lt_of_lt_of_le hlies.day_lt (daysInMonth_le _ _)
  have hword : year + 1 < Word.limit := by
    have heras : year / 400 * daysPerEra ≤ days + daysToEpoch := hera ▸ Nat.div_mul_le_self _ _
    exact year_lt heras h
  have hyearOfEra : yearOfEraInWords ((days + daysToEpoch) % daysPerEra) = .ok (year % 400) :=
    (yearOfEraInWords_eq hlt).trans (congrArg _ hyear)
  have hdayOfYear := dayOfYearInWords_eq (Nat.mod_lt year (by decide)) hday
  have hmonthAndDay := monthAndDayInWords_eq hlies.month_lt hd hmonth
  have hyearAndMonth := yearAndMonthInWords_eq hlies.month_lt hword
  rw [hlies.dateOfDays_eq, dateOfDaysInWords, hz, ok_bind, hyearOfEra, ok_bind, hdayOfYear,
    ok_bind, hmonthAndDay, ok_bind, hera]
  dsimp only
  rw [hyearAndMonth]
  rfl

end GuardedHeap.Calendar
