import GuardedHeap.Proofs.EventLog.Calendar
import Mathlib.Data.List.Forall2
import Mathlib.Data.List.Lex
import Mathlib.Order.Monotone.Basic

/-! # Timestamps — texts of moments tell them apart, and come in their order

    A timestamp is a row of numbers, each of them padded to a width and
    with a mark behind it (`toList_format`).  Digits of one length compare
    as the numbers that they write (`lt_iff_value_lt`), so that two rows of
    one layout compare as the lists of their numbers (`spell_lt_iff`).  The
    dates of days grow in the same way (`strictMono_fields`), since each
    date is below the next one; with them the texts grow with the moments
    up to the year 9999.  In any year the marks tell where a number ends,
    and texts that are equal are of one moment (`spell_inj`).

    `timestamps_keep_calendar` holds all that is known of dates and
    texts. -/

namespace GuardedHeap.Calendar

/-! ## Digits -/

section Digits

variable {c c' : Char} {cs cs' : List Char} {width n n' : Nat}

/-- The number that digits write. -/
def value (cs : List Char) : Nat :=
  Nat.ofDigitChars 10 cs 0

/-- The first digit counts as many tens as there are digits behind it. -/
theorem value_cons (c : Char) (cs : List Char) :
    value (c :: cs) = (c.toNat - '0'.toNat) * 10 ^ cs.length + value cs := by
  rw [value, Nat.ofDigitChars_cons, Nat.ofDigitChars_eq_ofDigitChars_zero, Nat.mul_zero, Nat.zero_add, Nat.mul_comm,
    value]

/-- Digits stand for less than the next power of ten. -/
theorem value_lt (h : ∀ c ∈ cs, c.isDigit = true) : value cs < 10 ^ cs.length := by
  induction cs with
  | nil => exact Nat.one_pos
  | cons c cs ih =>
      obtain ⟨hc, hcs⟩ := List.forall_mem_cons.mp h
      obtain ⟨-, hnine⟩ := Char.isDigit_iff_toNat.mp hc
      have hdigit : c.toNat - '0'.toNat ≤ 9 := Nat.sub_le_of_le_add hnine
      have hle : (c.toNat - '0'.toNat) * 10 ^ cs.length ≤ 9 * 10 ^ cs.length := Nat.mul_le_mul_right _ hdigit
      have hrest := ih hcs
      rw [value_cons, List.length_cons, Nat.pow_succ]
      omega

/-- Of two numbers with a part of each below the same unit, the lesser one has the lesser first part, or the lesser
    rest. -/
theorem mul_add_lt_iff {x x' y y' unit : Nat} (hy : y < unit) (hy' : y' < unit) :
    x * unit + y < x' * unit + y' ↔ x < x' ∨ x = x' ∧ y < y' := by
  rcases Nat.lt_trichotomy x x' with hlt | rfl | hgt
  · have hle : (x + 1) * unit ≤ x' * unit := Nat.mul_le_mul_right _ hlt
    rw [Nat.succ_mul] at hle
    exact ⟨fun _ => .inl hlt, fun _ => by omega⟩
  · constructor
    · intro h
      exact .inr ⟨rfl, by omega⟩
    · rintro (h | ⟨-, h⟩) <;> omega
  · have hle : (x' + 1) * unit ≤ x * unit := Nat.mul_le_mul_right _ hgt
    rw [Nat.succ_mul] at hle
    constructor
    · intro h
      omega
    · rintro (h | ⟨h, -⟩) <;> omega

/-- Digits of one length compare as the numbers that they write. -/
theorem lt_iff_value_lt (h : ∀ c ∈ cs, c.isDigit = true) (h' : ∀ c ∈ cs', c.isDigit = true)
    (hlength : cs.length = cs'.length) : cs < cs' ↔ value cs < value cs' := by
  induction cs generalizing cs' with
  | nil =>
      obtain rfl : cs' = [] := List.length_eq_zero_iff.mp hlength.symm
      simp
  | cons c cs ih =>
      cases cs' with
      | nil => exact nomatch hlength
      | cons c' cs' =>
          obtain ⟨hc, hcs⟩ := List.forall_mem_cons.mp h
          obtain ⟨hc', hcs'⟩ := List.forall_mem_cons.mp h'
          have hlength : cs.length = cs'.length := Nat.succ.inj hlength
          -- Characters that are digits compare as their values, since all are behind the digit zero.
          have hzero := (Char.isDigit_iff_toNat.mp hc).1
          have hzero' := (Char.isDigit_iff_toNat.mp hc').1
          have hlt : c < c' ↔ c.toNat - '0'.toNat < c'.toNat - '0'.toNat := by
            rw [show c < c' ↔ c.toNat < c'.toNat from Char.lt_def.trans UInt32.lt_iff_toNat_lt]
            omega
          have heq : c = c' ↔ c.toNat - '0'.toNat = c'.toNat - '0'.toNat := by
            rw [← Char.toNat_inj]
            omega
          rw [List.cons_lt_cons_iff, ih hcs hcs' hlength, value_cons, value_cons, hlength,
            mul_add_lt_iff (hlength ▸ value_lt hcs) (value_lt hcs'), hlt, heq]

/-- Padding does not change a number. -/
theorem value_padded (width n : Nat) : value (padded width n).toList = n := by
  rw [value, padded, String.toList_ofList, Nat.ofDigitChars_append, Nat.ofDigitChars_replicate_zero, Nat.mul_zero,
    Nat.ofDigitChars_ten_toDigits]

theorem isDigit_padded (width n : Nat) : ∀ c ∈ (padded width n).toList, c.isDigit = true := by
  intro c hc
  rw [padded, String.toList_ofList, List.mem_append] at hc
  rcases hc with hzero | hdigit
  · rw [List.eq_of_mem_replicate hzero]
    rfl
  · exact Nat.isDigit_of_mem_toDigits (by decide) (Nat.le_refl 10) hdigit

/-- A number that fits is padded to the width. -/
theorem length_padded (hwidth : 0 < width) (hn : n < 10 ^ width) : (padded width n).toList.length = width := by
  have hle : (Nat.toDigits 10 n).length ≤ width := (Nat.length_toDigits_le_iff (by decide) hwidth).mpr hn
  rw [padded, String.toList_ofList, List.length_append, List.length_replicate]
  omega

/-- Numbers that are written alike are the same. -/
theorem padded_inj (h : (padded width n).toList = (padded width n').toList) : n = n' := by
  rw [← value_padded width n, h, value_padded]

/-- Numbers that fit are written in their order. -/
theorem padded_lt_iff (hwidth : 0 < width) (hn : n < 10 ^ width) (hn' : n' < 10 ^ width) :
    (padded width n).toList < (padded width n').toList ↔ n < n' := by
  rw [lt_iff_value_lt (isDigit_padded _ _) (isDigit_padded _ _)
    ((length_padded hwidth hn).trans (length_padded hwidth hn').symm), value_padded, value_padded]

end Digits

/-! ## Rows of numbers -/

/-- Numbers in a row: each has a width and a mark behind it. -/
def spell : List (Nat × Char) → List Nat → List Char
  | (width, mark) :: fields, n :: ns => (padded width n).toList ++ mark :: spell fields ns
  | _, _ => []

section Rows

variable {α : Type} {fields : List (Nat × Char)} {ns ns' : List Nat}

/-- Lists that begin with as many elements are compared by these first. -/
theorem append_lt_append_iff [LT α] {as as' bs bs' : List α} (h : as.length = as'.length) :
    as ++ bs < as' ++ bs' ↔ as < as' ∨ as = as' ∧ bs < bs' := by
  induction as generalizing as' with
  | nil =>
      obtain rfl : as' = [] := List.length_eq_zero_iff.mp h.symm
      simp
  | cons a as ih =>
      cases as' with
      | nil => exact nomatch h
      | cons a' as' =>
          simp only [List.cons_append, List.cons_lt_cons_iff, ih (Nat.succ.inj h), List.cons.injEq]
          grind

/-- A mark that does not occur before tells where a list ends. -/
theorem append_mark_inj {mark : α} {as as' bs bs' : List α} (h : mark ∉ as) (h' : mark ∉ as')
    (heq : as ++ mark :: bs = as' ++ mark :: bs') : as = as' ∧ bs = bs' := by
  induction as generalizing as' with
  | nil =>
      cases as' with
      | nil => exact ⟨rfl, (List.cons.inj heq).2⟩
      | cons a' as' => exact absurd ((List.cons.inj heq).1 ▸ List.mem_cons_self) h'
  | cons a as ih =>
      cases as' with
      | nil => exact absurd ((List.cons.inj heq).1 ▸ List.mem_cons_self) h
      | cons a' as' =>
          obtain ⟨rfl, hrest⟩ := List.cons.inj heq
          obtain ⟨rfl, rfl⟩ := ih (fun hmem => h (List.mem_cons_of_mem _ hmem))
            (fun hmem => h' (List.mem_cons_of_mem _ hmem)) hrest
          exact ⟨rfl, rfl⟩

/-- Rows are equal only if their numbers are. -/
theorem spell_inj (hmarks : ∀ f ∈ fields, f.2.isDigit = false) (hlength : ns.length = fields.length)
    (hlength' : ns'.length = fields.length) (h : spell fields ns = spell fields ns') : ns = ns' := by
  induction fields generalizing ns ns' with
  | nil =>
      rw [List.length_eq_zero_iff.mp hlength, List.length_eq_zero_iff.mp hlength']
  | cons f fields ih =>
      obtain ⟨n, ns, rfl⟩ := List.exists_cons_of_length_eq_add_one hlength
      obtain ⟨n', ns', rfl⟩ := List.exists_cons_of_length_eq_add_one hlength'
      obtain ⟨hmark, hmarks⟩ := List.forall_mem_cons.mp hmarks
      have hnot : ∀ k, f.2 ∉ (padded f.1 k).toList := fun k hmem => by
        rw [isDigit_padded _ _ _ hmem] at hmark
        exact nomatch hmark
      obtain ⟨hnumber, hrest⟩ := append_mark_inj (hnot n) (hnot n') h
      rw [padded_inj hnumber, ih hmarks (Nat.succ.inj hlength) (Nat.succ.inj hlength') hrest]

/-- The number has no more digits than the field is wide. -/
def Fits (f : Nat × Char) (n : Nat) : Prop :=
  0 < f.1 ∧ n < 10 ^ f.1

/-- Rows in which every number fits its field compare as the lists of the numbers. -/
theorem spell_lt_iff (h : List.Forall₂ Fits fields ns) (h' : List.Forall₂ Fits fields ns') :
    spell fields ns < spell fields ns' ↔ ns < ns' := by
  induction h generalizing ns' with
  | nil =>
      cases h'
      exact iff_of_false (List.not_lt_nil _) (List.not_lt_nil _)
  | @cons f n fields ns hn hns ih =>
      cases h' with
      | @cons _ n' _ ns' hn' hns' =>
          obtain ⟨hwidth, hn⟩ := hn
          obtain ⟨-, hn'⟩ := hn'
          -- Numbers that fit are as wide as the field, so that the marks behind them meet.
          have hlength : (padded f.1 n).toList.length = (padded f.1 n').toList.length :=
            (length_padded hwidth hn).trans (length_padded hwidth hn').symm
          have heq : (padded f.1 n).toList = (padded f.1 n').toList ↔ n = n' := ⟨padded_inj, fun h => h ▸ rfl⟩
          rw [spell, spell, append_lt_append_iff hlength, padded_lt_iff hwidth hn hn', heq, List.cons_lt_cons_self,
            ih hns', List.cons_lt_cons_iff]

end Rows

/-! ## Dates in order -/

/-- The numbers of a date, the greatest unit first. -/
def Date.fields (d : Date) : List Nat :=
  [d.year, d.month, d.day]

theorem Date.length_fields (d : Date) : d.fields.length = 3 := rfl

/-- The next day comes later. -/
theorem Date.fields_lt_next (d : Date) : d.fields < d.next.fields := by
  unfold next
  split
  · simp [fields, List.cons_lt_cons_iff]
  · split <;> simp [fields, List.cons_lt_cons_iff]

/-- Later days have later dates. -/
theorem strictMono_fields : StrictMono fun days => (dateOfDays days).fields := by
  refine strictMono_nat_of_lt_succ fun days => ?_
  rw [dateOfDays_succ]
  exact Date.fields_lt_next _

/-! ## Timestamps -/

/-- The fields of a timestamp: how wide each number is, and the mark behind it. -/
def layout : List (Nat × Char) :=
  [(4, '-'), (2, '-'), (2, 'T'), (2, ':'), (2, ':'), (2, '.'), (3, 'Z')]

/-- The numbers of a time of day. -/
def timeFields (secondOfDay millis : Nat) : List Nat :=
  [secondOfDay / 3600, secondOfDay % 3600 / 60, secondOfDay % 60, millis]

/-- The numbers of a timestamp. -/
def momentFields (seconds millis : Nat) : List Nat :=
  (dateOfDays (seconds / secondsPerDay)).fields ++ timeFields (seconds % secondsPerDay) millis

section Moments

variable {seconds seconds' millis millis' : Nat}

theorem toList_row (date : Date) (secondOfDay millis : Nat) :
    (padded 4 date.year ++ "-" ++ padded 2 date.month ++ "-" ++ padded 2 date.day ++ "T" ++
      padded 2 (secondOfDay / 3600) ++ ":" ++ padded 2 (secondOfDay % 3600 / 60) ++ ":" ++
      padded 2 (secondOfDay % 60) ++ "." ++ padded 3 millis ++ "Z").toList =
      spell layout (date.fields ++ timeFields secondOfDay millis) := by
  simp [spell, layout, timeFields, Date.fields, String.toList_append]

/-- A timestamp is a row of numbers. -/
theorem toList_format (seconds millis : Nat) :
    (format seconds millis).toList = spell layout (momentFields seconds millis) :=
  toList_row (dateOfDays (seconds / secondsPerDay)) _ _

/-- Times that are told alike are the same. -/
theorem timeFields_inj {t t' : Nat} (h : timeFields t millis = timeFields t' millis') : t = t' ∧ millis = millis' := by
  simp only [timeFields, List.cons.injEq, and_true] at h
  omega

/-- Times are told in their order. -/
theorem timeFields_lt_iff {t t' : Nat} :
    timeFields t millis < timeFields t' millis' ↔ t < t' ∨ t = t' ∧ millis < millis' := by
  simp only [timeFields, List.cons_lt_cons_iff, List.not_lt_nil, and_false, or_false]
  omega

/-- Moments that are told alike are the same. -/
theorem momentFields_inj (h : momentFields seconds millis = momentFields seconds' millis') :
    seconds = seconds' ∧ millis = millis' := by
  obtain ⟨hdate, htime⟩ := List.append_inj h ((Date.length_fields _).trans (Date.length_fields _).symm)
  have hdays := strictMono_fields.injective hdate
  obtain ⟨hrest, hmillis⟩ := timeFields_inj htime
  unfold secondsPerDay at hdays hrest
  exact ⟨by omega, hmillis⟩

/-- Moments are told in their order. -/
theorem momentFields_lt_iff : momentFields seconds millis < momentFields seconds' millis' ↔
    seconds < seconds' ∨ seconds = seconds' ∧ millis < millis' := by
  have hlt : _ < _ ↔ seconds / secondsPerDay < seconds' / secondsPerDay := strictMono_fields.lt_iff_lt
  have heq : _ = _ ↔ seconds / secondsPerDay = seconds' / secondsPerDay := strictMono_fields.injective.eq_iff
  rw [momentFields, momentFields,
    append_lt_append_iff ((Date.length_fields _).trans (Date.length_fields _).symm), hlt, heq, timeFields_lt_iff]
  unfold secondsPerDay
  omega

/-- Up to the year 9999 every number fits its field. -/
theorem fits_momentFields (hyear : (dateOfDays (seconds / secondsPerDay)).year ≤ 9999) (hmillis : millis < 1000) :
    List.Forall₂ Fits layout (momentFields seconds millis) := by
  obtain ⟨-, hmonth, -, hday⟩ := valid_dateOfDays (seconds / secondsPerDay)
  have hday := Nat.le_trans hday (daysInMonth_le _ _)
  have hrest : seconds % secondsPerDay < 86400 := Nat.mod_lt _ (by decide)
  unfold momentFields
  generalize dateOfDays (seconds / secondsPerDay) = date at *
  generalize seconds % secondsPerDay = rest at *
  simp only [layout, timeFields, Date.fields, List.cons_append, List.nil_append, List.forall₂_cons,
    List.forall₂_nil_left_iff, Fits, Nat.reducePow, and_true]
  omega

/-! ## What dates and texts tell -/

/-- From 1970 on each day has the date after that of the day before, and to compute it from seconds in a word does not
    overrun; timestamps tell moments apart, and up to the year 9999 they come in the order of the moments. -/
theorem timestamps_keep_calendar :
    dateOfDays 0 = ⟨1970, 1, 1⟩
      ∧ (∀ days, (dateOfDays days).Valid ∧ dateOfDays (days + 1) = (dateOfDays days).next)
      ∧ (∀ seconds < Word.limit,
        dateOfDaysInWords (seconds / secondsPerDay) = .ok (dateOfDays (seconds / secondsPerDay)))
      ∧ (∀ seconds millis seconds' millis', format seconds millis = format seconds' millis' →
        seconds = seconds' ∧ millis = millis')
      ∧ ∀ seconds millis seconds' millis', millis < 1000 → millis' < 1000 →
        (dateOfDays (seconds / secondsPerDay)).year ≤ 9999 → (dateOfDays (seconds' / secondsPerDay)).year ≤ 9999 →
          (format seconds millis < format seconds' millis' ↔
            seconds < seconds' ∨ seconds = seconds' ∧ millis < millis') := by
  refine ⟨dateOfDays_zero, fun days => ⟨valid_dateOfDays days, dateOfDays_succ days⟩, fun seconds h => ?_,
    fun seconds millis seconds' millis' h => ?_, fun seconds millis seconds' millis' hm hm' hy hy' => ?_⟩
  · have hle : seconds / secondsPerDay ≤ Word.max / secondsPerDay := Nat.div_le_div_right (Nat.le_of_lt_succ h)
    have hroom : Word.max / secondsPerDay + daysToEpoch < Word.limit := by decide
    exact dateOfDaysInWords_eq (Nat.lt_of_le_of_lt (Nat.add_le_add_right hle _) hroom)
  · have hmarks : ∀ f ∈ layout, f.2.isDigit = false := by decide
    have hrow := congrArg String.toList h
    rw [toList_format, toList_format] at hrow
    exact momentFields_inj (spell_inj hmarks rfl rfl hrow)
  · rw [String.lt_iff, toList_format, toList_format,
      spell_lt_iff (fits_momentFields hy hm) (fits_momentFields hy' hm'), momentFields_lt_iff]

/-- A leap day at the end of four centuries, the day behind it, and the last moment of the year 9999. -/
theorem timestamps_keep_calendar_on_leap_day :
    let leapDay := 951782400
    let lastSecond := 253402300799
    (leapDay < Word.limit
        ∧ dateOfDaysInWords (leapDay / secondsPerDay) = .ok ⟨2000, 2, 29⟩
        ∧ dateOfDays (leapDay / secondsPerDay + 1) = ⟨2000, 3, 1⟩)
      ∧ (format leapDay 5 = format (11016 * secondsPerDay) 5 ∧ leapDay = 11016 * secondsPerDay)
      ∧ (dateOfDays (leapDay / secondsPerDay)).year ≤ 9999 ∧ (dateOfDays (lastSecond / secondsPerDay)).year ≤ 9999
      ∧ format leapDay 5 = "2000-02-29T00:00:00.005Z" ∧ format lastSecond 999 = "9999-12-31T23:59:59.999Z"
      ∧ format leapDay 5 < format lastSecond 999 := by
  intro leapDay lastSecond
  obtain ⟨-, hdays, hwords, htells, horder⟩ := timestamps_keep_calendar
  have hlimit : leapDay < Word.limit := by decide
  have hyear : (dateOfDays (leapDay / secondsPerDay)).year ≤ 9999 := by decide
  have hyear' : (dateOfDays (lastSecond / secondsPerDay)).year ≤ 9999 := by decide
  have hsame : format leapDay 5 = format (11016 * secondsPerDay) 5 :=
    congrArg (format · 5) (show leapDay = 11016 * secondsPerDay by decide)
  have hdate : dateOfDays (leapDay / secondsPerDay) = ⟨2000, 2, 29⟩ := by decide
  have hnext := (hdays (leapDay / secondsPerDay)).2
  have hcomputed := hwords leapDay hlimit
  rw [hdate] at hnext hcomputed
  exact ⟨⟨hlimit, hcomputed, hnext⟩,
    ⟨hsame, (htells _ _ _ _ hsame).1⟩, hyear, hyear', by decide +kernel, by decide +kernel,
    (horder leapDay 5 lastSecond 999 (by decide) (by decide) hyear hyear').mpr (.inl (by decide))⟩

end Moments

end GuardedHeap.Calendar
