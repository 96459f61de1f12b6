import Formulary.Calendar.Civil
import Mathlib.Tactic.IntervalCases

/-!
# The day of a number

`CivilDay.ofDayNumber` finds a day that the calendar has, and it is the day with that number
(`toDayNumber_ofDayNumber`, `ofDayNumber_toDayNumber`).

A period of 400 years is four centuries of 36524 days, a century is 25 spans of 1461 days and a span is four
years, each with what is left over in its last part (`PeriodDay`). In these parts the divisions of
`ofDayNumber` come out even, and what remains is a year from March and a day of it (`ofMarchDay`).
-/

namespace Formulary

namespace CivilDay

/-- The day of a year that begins with the 1st of March. -/
def ofMarchDay (year : Int) (dayOfYear : Nat) : CivilDay :=
  let month := (5 * dayOfYear + 2) / 153
  { year := if month < 10 then year else year + 1
    month := if month < 10 then month + 3 else month - 9
    day := dayOfYear - (153 * month + 2) / 5 + 1 }

/-- A day of a period of 400 years: centuries, spans of four years, years and days before it. Only the last
year of a span has 366 days, and only the last century has such a year at its end. -/
structure PeriodDay where
  centuries : Nat
  spans : Nat
  years : Nat
  days : Nat
  centuries_le : centuries ≤ 3
  spans_le : spans ≤ 24
  years_le : years ≤ 3
  days_le : days ≤ 365
  years_of_leap : days = 365 → years = 3
  centuries_of_leap : days = 365 → spans = 24 → centuries = 3

namespace PeriodDay

def year (p : PeriodDay) : Nat := 100 * p.centuries + 4 * p.spans + p.years

def number (p : PeriodDay) : Nat := 36524 * p.centuries + 1461 * p.spans + 365 * p.years + p.days

theorem exists_number_eq {n : Nat} (h : n < 146097) : ∃ p : PeriodDay, p.number = n := by
  -- the last century has one day more, and the last year of a span has
  have hspans : (n - 36524 * min (n / 36524) 3) / 1461 ≤ 24 := by omega
  refine ⟨⟨min (n / 36524) 3, (n - 36524 * min (n / 36524) 3) / 1461,
    min ((n - 36524 * min (n / 36524) 3) % 1461 / 365) 3,
    (n - 36524 * min (n / 36524) 3) % 1461 - 365 * min ((n - 36524 * min (n / 36524) 3) % 1461 / 365) 3,
    by omega, hspans, by omega, by omega, by omega, by omega⟩, ?_⟩
  simp only [number]
  omega

variable (p : PeriodDay)

theorem number_lt : p.number < 146097 := by
  obtain ⟨centuries, spans, years, days, hc, hs, hy, hd, hleap, hlast⟩ := p
  simp only [number]
  omega

theorem number_div_century : p.number / 36524 = p.centuries + p.number / 146096 := by
  obtain ⟨centuries, spans, years, days, hc, hs, hy, hd, hleap, hlast⟩ := p
  simp only [number]
  have hrest : 1461 * spans + 365 * years + days ≤ 36524 ∧
      (1461 * spans + 365 * years + days = 36524 → centuries = 3) := by omega
  rw [Nat.add_assoc, Nat.add_assoc, ← Nat.add_assoc (1461 * spans)]
  generalize 1461 * spans + 365 * years + days = rest at hrest
  obtain rfl | hlt := Nat.eq_or_lt_of_le hrest.1
  · rw [hrest.2 rfl]
  · rw [Nat.mul_add_div (by decide), Nat.div_eq_of_lt hlt, Nat.div_eq_of_lt (by omega)]

/-- In the last year of a span the quotient is one too large, or is not yet. -/
theorem number_div_span : ∃ extra, p.number / 1460 = 25 * p.centuries + p.spans + extra ∧
    extra ≤ p.days ∧ p.days - extra < 365 := by
  obtain ⟨centuries, spans, years, days, hc, hs, hy, hd, hleap, hlast⟩ := p
  refine ⟨(24 * centuries + spans + 365 * years + days) / 1460, ?_, ?_, ?_⟩
  · have hsum : 36524 * centuries + 1461 * spans + 365 * years + days =
        1460 * (25 * centuries + spans) + (24 * centuries + spans + 365 * years + days) := by omega
    rw [number, hsum, Nat.mul_add_div (by decide)]
  · show (24 * centuries + spans + 365 * years + days) / 1460 ≤ days
    omega
  · show days - (24 * centuries + spans + 365 * years + days) / 1460 < 365
    omega

/-- The quotient that counts the years: what is taken off before the division are the leap days. -/
theorem year_eq :
    (p.number - p.number / 1460 + p.number / 36524 - p.number / 146096) / 365 = p.year := by
  obtain ⟨extra, hspan, hextra, hrest⟩ := p.number_div_span
  rw [p.number_div_century, hspan]
  generalize p.number / 146096 = last
  have hdays : p.number - (25 * p.centuries + p.spans + extra) + (p.centuries + last) - last =
      365 * p.year + (p.days - extra) := by
    rw [number, year]
    omega
  rw [hdays, Nat.mul_add_div (by decide), Nat.div_eq_of_lt hrest, Nat.add_zero]

theorem days_eq : p.number - (365 * p.year + p.year / 4 - p.year / 100) = p.days := by
  obtain ⟨centuries, spans, years, days, hc, hs, hy, hd, hleap, hlast⟩ := p
  simp only [number, year]
  omega

end PeriodDay

theorem ofDayNumber_eq (period : Int) (p : PeriodDay) :
    ofDayNumber (146097 * period + p.number - epochOffset) = ofMarchDay (period * 400 + p.year) p.days := by
  have hlt := p.number_lt
  have hshift : 146097 * period + p.number - epochOffset + epochOffset = 146097 * period + p.number := by omega
  have hperiod : (146097 * period + (p.number : Int)) / 146097 = period := by omega
  have hday : ((146097 * period + (p.number : Int)) % 146097).toNat = p.number := by omega
  simp only [ofDayNumber, hshift, hperiod, hday, p.year_eq, p.days_eq]
  rfl

theorem exists_ofDayNumber_eq (n : Int) : ∃ (period : Int) (p : PeriodDay),
    n = 146097 * period + p.number - epochOffset ∧
      ofDayNumber n = ofMarchDay (period * 400 + p.year) p.days := by
  obtain ⟨p, hp⟩ := PeriodDay.exists_number_eq (n := ((n + epochOffset) % 146097).toNat) (by omega)
  have hn : n = 146097 * ((n + epochOffset) / 146097) + p.number - epochOffset := by omega
  exact ⟨_, p, hn, by rw [← ofDayNumber_eq, ← hn]⟩

/-! ## Back to the number -/

theorem toDayNumber_ofMarchDay (year : Int) (dayOfYear : Nat) (h : dayOfYear ≤ 365) :
    (ofMarchDay year dayOfYear).toDayNumber =
      365 * year + year / 4 - year / 100 + year / 400 + dayOfYear - epochOffset := by
  have hmonths : (153 * ((5 * dayOfYear + 2) / 153) + 2) / 5 ≤ dayOfYear := by omega
  have hmonth : (5 * dayOfYear + 2) / 153 ≤ 11 := by omega
  by_cases hspring : (5 * dayOfYear + 2) / 153 < 10
  · have hlate : ¬ (5 * dayOfYear + 2) / 153 + 3 ≤ 2 := by omega
    simp only [toDayNumber, ofMarchDay, if_pos hspring, if_neg hlate, Nat.add_sub_cancel]
    omega
  · have hearly : (5 * dayOfYear + 2) / 153 - 9 ≤ 2 := by omega
    have hback : (5 * dayOfYear + 2) / 153 - 9 + 9 = (5 * dayOfYear + 2) / 153 := by omega
    simp only [toDayNumber, ofMarchDay, if_neg hspring, if_pos hearly, hback, Int.add_sub_cancel]
    omega

/-- **Days.** The day of a number has this number. -/
theorem toDayNumber_ofDayNumber (n : Int) : (ofDayNumber n).toDayNumber = n := by
  obtain ⟨period, p, hn, hday⟩ := exists_ofDayNumber_eq n
  rw [hday, toDayNumber_ofMarchDay _ _ p.days_le, hn]
  have hc := p.centuries_le
  have hs := p.spans_le
  have hy := p.years_le
  rw [PeriodDay.year, PeriodDay.number]
  omega

/-! ## Days that there are -/

theorem isLeapYear_iff {year : Int} :
    isLeapYear year = true ↔ year % 4 = 0 ∧ (year % 100 = 0 → year % 400 = 0) := by
  simp only [isLeapYear, Bool.and_eq_true, Bool.or_eq_true, beq_iff_eq, bne_iff_ne, ne_eq, imp_iff_not_or]

theorem exists_ofMarchDay {year : Int} {dayOfYear : Nat} (h : dayOfYear ≤ 365)
    (hleap : dayOfYear = 365 → isLeapYear (year + 1) = true) : (ofMarchDay year dayOfYear).Exists := by
  have hmonth : (5 * dayOfYear + 2) / 153 ≤ 11 := by omega
  obtain ⟨month, hm⟩ : ∃ month, (5 * dayOfYear + 2) / 153 = month := ⟨_, rfl⟩
  rw [hm] at hmonth
  simp only [Exists, ofMarchDay, hm]
  by_cases hlast : month = 11
  · subst hlast
    have hdays : 28 ≤ daysInMonth (year + 1) 2 ∧ (dayOfYear = 365 → daysInMonth (year + 1) 2 = 29) := by
      rw [daysInMonth, if_pos rfl]
      refine ⟨by split <;> decide, fun h => ?_⟩
      rw [hleap h, if_pos rfl]
    rw [if_neg (by decide), if_neg (by decide), show 11 - 9 = 2 from rfl]
    omega
  · interval_cases month
    all_goals simp [daysInMonth] at hm hlast ⊢
    all_goals omega

/-- The calendar has the day of every number. -/
theorem exists_ofDayNumber (n : Int) : (ofDayNumber n).Exists := by
  obtain ⟨period, p, -, hday⟩ := exists_ofDayNumber_eq n
  rw [hday]
  refine exists_ofMarchDay p.days_le fun hdays => isLeapYear_iff.2 ⟨?_, fun hcentury => ?_⟩
  · have hy := p.years_of_leap hdays
    rw [PeriodDay.year]
    omega
  · have hy := p.years_of_leap hdays
    have hc := p.centuries_of_leap hdays
    have hs := p.spans_le
    rw [PeriodDay.year] at hcentury ⊢
    omega

/-! ## Back to the day -/

theorem daysInMonth_le (year : Int) (month : Nat) : daysInMonth year month ≤ 31 := by
  rw [daysInMonth]
  split_ifs <;> decide

/-- A day of a month after March, if the month is not over. -/
theorem ofMarchDay_month {month day : Nat} (year : Int)
    (h : 5 * ((153 * month + 2) / 5 + day) + 2 < 153 * (month + 1)) :
    ofMarchDay year ((153 * month + 2) / 5 + day) =
      ⟨if month < 10 then year else year + 1, if month < 10 then month + 3 else month - 9, day + 1⟩ := by
  have hmonth : (5 * ((153 * month + 2) / 5 + day) + 2) / 153 = month := by omega
  simp only [ofMarchDay, hmonth, Nat.add_sub_cancel_left]

/-- What the days before two months differ in is the length of the first, unless it is the last of the year. -/
theorem daysInMonth_of_march {month : Nat} (hmonth : month ≤ 10) (year : Int) :
    (153 * month + 2) / 5 + daysInMonth year (if month < 10 then month + 3 else month - 9) =
      (153 * (month + 1) + 2) / 5 := by
  interval_cases month <;> rfl

theorem daysInMonth_february (year : Int) : daysInMonth year 2 ≤ 29 ∧
    (daysInMonth year 2 = 29 → isLeapYear year = true) := by
  cases h : isLeapYear year <;> simp [daysInMonth, h]

/-- Every day that there is, is a day of a year from March. -/
theorem Exists.exists_ofMarchDay_eq {d : CivilDay} (h : d.Exists) : ∃ year dayOfYear,
    d = ofMarchDay year dayOfYear ∧ dayOfYear ≤ 365 ∧ (dayOfYear = 365 → isLeapYear (year + 1) = true) := by
  obtain ⟨year, month, day⟩ := d
  obtain ⟨hmonth, hmonth', hday, hday'⟩ := h
  obtain ⟨day, rfl⟩ : ∃ k, day = k + 1 := ⟨day - 1, by dsimp only at hday; omega⟩
  obtain ⟨marchYear, marchMonth, hle, hyear, rfl⟩ : ∃ (marchYear : Int) (marchMonth : Nat), marchMonth ≤ 11 ∧
      (if marchMonth < 10 then marchYear else marchYear + 1) = year ∧
      (if marchMonth < 10 then marchMonth + 3 else marchMonth - 9) = month := by
    dsimp only at hmonth hmonth'
    by_cases hearly : month ≤ 2
    · exact ⟨year - 1, month + 9, by omega, by rw [if_neg (by omega)]; omega, by rw [if_neg (by omega)]; omega⟩
    · exact ⟨year, month - 3, by omega, if_pos (by omega), by rw [if_pos (by omega)]; omega⟩
  dsimp only at hday'
  rcases Nat.lt_or_eq_of_le hle with hlt | rfl
  · have hlength := daysInMonth_of_march (Nat.le_of_lt_succ hlt) year
    have hinside : 5 * ((153 * marchMonth + 2) / 5 + day) + 2 < 153 * (marchMonth + 1) := by omega
    refine ⟨marchYear, (153 * marchMonth + 2) / 5 + day, ?_, by omega, fun h => by omega⟩
    rw [ofMarchDay_month marchYear hinside, hyear]
  · obtain ⟨hlength, hleap⟩ := daysInMonth_february year
    have hdays : day + 1 ≤ daysInMonth year 2 := hday'
    refine ⟨marchYear, (153 * 11 + 2) / 5 + day, ?_, by omega, fun h => ?_⟩
    · rw [ofMarchDay_month marchYear (by omega), hyear]
    · have hyear : marchYear + 1 = year := hyear
      exact hyear ▸ hleap (by omega)

/-- **Days.** The number of a day that there is belongs to this day. -/
theorem ofDayNumber_toDayNumber {d : CivilDay} (h : d.Exists) : ofDayNumber d.toDayNumber = d := by
  obtain ⟨year, dayOfYear, rfl, hle, hleap⟩ := h.exists_ofMarchDay_eq
  have hleap' : dayOfYear = 365 → (year + 1) % 4 = 0 ∧ ((year + 1) % 100 = 0 → (year + 1) % 400 = 0) :=
    fun h => isLeapYear_iff.1 (hleap h)
  obtain ⟨r, hr⟩ : ∃ r : Nat, year % 400 = r := ⟨(year % 400).toNat, by omega⟩
  let p : PeriodDay := ⟨r / 100, r % 100 / 4, r % 4, dayOfYear, by omega, by omega, by omega, hle, by omega, by omega⟩
  have hyear : year / 400 * 400 + (p.year : Int) = year := by
    simp only [p, PeriodDay.year]
    omega
  have hnumber : (ofMarchDay year dayOfYear).toDayNumber =
      146097 * (year / 400) + p.number - epochOffset := by
    rw [toDayNumber_ofMarchDay year dayOfYear hle]
    simp only [p, PeriodDay.number]
    omega
  rw [hnumber, ofDayNumber_eq, hyear]

end CivilDay

end Formulary
