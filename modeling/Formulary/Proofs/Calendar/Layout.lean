import Formulary.Proofs.Calendar.Date
import Formulary.Proofs.Number.Whole

/-!
# The layouts of a date

`Layout` says which characters are a date and a time of day, part by part and without a word on how they are
read. A text names a date if and only if it has a layout without the blanks around it, and the calendar and the
clock have what it says; the date survives being written as a text or held as a number
(`ofText?_reads_layouts`).

Each reader takes off the front what its part of the layout allows. It takes all digits that come next, so it
takes the part and no more where no part of a layout goes on behind it (`Closes`).
-/

namespace Formulary

namespace Date

/-! ## Layouts -/

/-- Decimal digits, as many as wanted, and the number that they denote. -/
structure Digits (fewest most : Nat) (chars : List Char) (n : Nat) : Prop where
  isDigit : ∀ c ∈ chars, isDigit c = true
  fewest_le : fewest ≤ chars.length
  le_most : chars.length ≤ most
  value : Nat.ofDigitChars 10 chars 0 = n

/-- A decimal fraction of a second with one to three digits, in milliseconds. -/
inductive Fraction : List Char → (milli : Nat) → Prop where
  | missing : Fraction [] 0
  | point {digits : List Char} {n milli : Nat} (hdigits : Digits 1 3 digits n)
    (hmilli : milli * 10 ^ digits.length = n * 1000) : Fraction ('.' :: digits) milli

inductive Seconds : List Char → (second milli : Nat) → Prop where
  | missing : Seconds [] 0 0
  | colon {digits fraction : List Char} {second milli : Nat} (hsecond : Digits 2 2 digits second)
    (hfraction : Fraction fraction milli) : Seconds (':' :: (digits ++ fraction)) second milli

/-- The time of day behind a day. -/
inductive Clock (day : CivilDay) : List Char → Fields → Prop where
  | missing : Clock day [] ⟨day, 0, 0, 0, 0⟩
  | time {mark : Char} {hours minutes seconds : List Char} {hour minute second milli : Nat}
    (hmark : mark = 'T' ∨ mark = ' ') (hhour : Digits 1 2 hours hour) (hminute : Digits 2 2 minutes minute)
    (hseconds : Seconds seconds second milli) :
    Clock day (mark :: (hours ++ ':' :: (minutes ++ seconds))) ⟨day, hour, minute, second, milli⟩

/-- The characters of a date in one of the two layouts, and the fields that they say. -/
inductive Layout : List Char → Fields → Prop where
  | yearFirst {years months days clock zone : List Char} {year month day : Nat} {f : Fields}
    (hyear : Digits 4 4 years year) (hmonth : Digits 1 2 months month) (hday : Digits 1 2 days day)
    (hclock : Clock ⟨year, month, day⟩ clock f) (hzone : zone = [] ∨ zone = ['Z']) :
    Layout (years ++ '-' :: (months ++ '-' :: (days ++ (clock ++ zone)))) f
  | yearLast {months days years : List Char} {month day year : Nat} (hmonth : Digits 1 2 months month)
    (hday : Digits 1 2 days day) (hyear : Digits 4 4 years year) :
    Layout (months ++ '/' :: (days ++ '/' :: years)) ⟨⟨year, month, day⟩, 0, 0, 0, 0⟩

/-- The calendar has the day, and the clock the time. -/
structure Fields.Valid (f : Fields) : Prop where
  day_exists : f.day.Exists
  hour_le : f.hour ≤ 23
  minute_le : f.minute ≤ 59
  second_le : f.second ≤ 59

/-! ## What is read has a layout -/

theorem digits_of_takeDigits? {fewest most : Nat} {text digits rest : List Char}
    (h : takeDigits? fewest most text = some (digits, rest)) :
    text = digits ++ rest ∧ Digits fewest most digits (Nat.ofDigitChars 10 digits 0) := by
  rw [takeDigits?, List.span_eq_takeWhile_dropWhile] at h
  obtain ⟨⟨hfewest, hmost⟩, heq⟩ := Option.ite_none_right_eq_some.1 h
  obtain ⟨rfl, rfl⟩ := Prod.mk.inj (Option.some.inj heq)
  exact ⟨(List.takeWhile_append_dropWhile).symm, fun c hc => List.mem_takeWhile_imp hc, hfewest, hmost, rfl⟩

theorem digits_of_takeNumber? {fewest most n : Nat} {text rest : List Char}
    (h : takeNumber? fewest most text = some (n, rest)) :
    ∃ digits, text = digits ++ rest ∧ Digits fewest most digits n := by
  obtain ⟨⟨digits, rest'⟩, htake, heq⟩ := Option.map_eq_some_iff.1 h
  obtain ⟨rfl, rfl⟩ := Prod.mk.inj heq
  exact ⟨digits, digits_of_takeDigits? htake⟩

theorem fraction_of_takeMilli? {text rest : List Char} {milli : Nat}
    (h : takeMilli? text = some (milli, rest)) :
    ∃ front, text = front ++ rest ∧ Fraction front milli := by
  unfold takeMilli? at h
  split at h
  · obtain ⟨⟨digits, rest'⟩, htake, heq⟩ := Option.bind_eq_some_iff.1 h
    obtain ⟨rfl, rfl⟩ := Prod.mk.inj (Option.some.inj heq)
    obtain ⟨rfl, hdigits⟩ := digits_of_takeDigits? htake
    refine ⟨'.' :: digits, rfl, .point hdigits ?_⟩
    rw [Nat.mul_assoc, ← Nat.pow_add, Nat.sub_add_cancel hdigits.le_most]
  · obtain ⟨rfl, rfl⟩ := Prod.mk.inj (Option.some.inj h)
    exact ⟨[], rfl, .missing⟩

theorem seconds_of_takeSecond? {text rest : List Char} {second milli : Nat}
    (h : takeSecond? text = some (second, milli, rest)) :
    ∃ front, text = front ++ rest ∧ Seconds front second milli := by
  unfold takeSecond? at h
  split at h
  · obtain ⟨⟨second', rest₁⟩, hsecond, h⟩ := Option.bind_eq_some_iff.1 h
    obtain ⟨⟨milli', rest₂⟩, hmilli, heq⟩ := Option.bind_eq_some_iff.1 h
    obtain ⟨rfl, rfl, rfl⟩ : second' = second ∧ milli' = milli ∧ rest₂ = rest := by simpa using heq
    obtain ⟨digits, rfl, hdigits⟩ := digits_of_takeNumber? hsecond
    obtain ⟨fraction, rfl, hfraction⟩ := fraction_of_takeMilli? hmilli
    exact ⟨':' :: (digits ++ fraction), by simp, .colon hdigits hfraction⟩
  · obtain ⟨rfl, rfl, rfl⟩ : 0 = second ∧ 0 = milli ∧ text = rest := by simpa using h
    exact ⟨[], rfl, .missing⟩

theorem clock_of_takeTime? {day : CivilDay} {text rest : List Char} {f : Fields}
    (h : takeTime? day text = some (f, rest)) : ∃ front, text = front ++ rest ∧ Clock day front f := by
  unfold takeTime? at h
  split at h
  · next c rest' =>
    split at h
    · next hmark =>
      obtain ⟨⟨hour, rest₁⟩, hhour, h⟩ := Option.bind_eq_some_iff.1 h
      obtain ⟨rest₂, hcolon, h⟩ := Option.bind_eq_some_iff.1 h
      obtain ⟨⟨minute, rest₃⟩, hminute, h⟩ := Option.bind_eq_some_iff.1 h
      obtain ⟨⟨second, milli, rest₄⟩, hsecond, heq⟩ := Option.bind_eq_some_iff.1 h
      obtain ⟨rfl, rfl⟩ := Prod.mk.inj (Option.some.inj heq)
      obtain ⟨hours, rfl, hhours⟩ := digits_of_takeNumber? hhour
      obtain rfl := takeChar?_eq_some hcolon
      obtain ⟨minutes, rfl, hminutes⟩ := digits_of_takeNumber? hminute
      obtain ⟨seconds, rfl, hseconds⟩ := seconds_of_takeSecond? hsecond
      exact ⟨c :: (hours ++ ':' :: (minutes ++ seconds)), by simp, .time hmark hhours hminutes hseconds⟩
    · obtain ⟨rfl, rfl⟩ := Prod.mk.inj (Option.some.inj h)
      exact ⟨[], rfl, .missing⟩
  · obtain ⟨rfl, rfl⟩ := Prod.mk.inj (Option.some.inj h)
    exact ⟨[], rfl, .missing⟩

theorem layout_of_yearFirst? {text : List Char} {f : Fields} (h : yearFirst? text = some f) :
    Layout text f := by
  obtain ⟨⟨year, rest₁⟩, hyear, h⟩ := Option.bind_eq_some_iff.1 h
  obtain ⟨rest₂, hdash, h⟩ := Option.bind_eq_some_iff.1 h
  obtain ⟨⟨month, rest₃⟩, hmonth, h⟩ := Option.bind_eq_some_iff.1 h
  obtain ⟨rest₄, hdash', h⟩ := Option.bind_eq_some_iff.1 h
  obtain ⟨⟨day, rest₅⟩, hday, h⟩ := Option.bind_eq_some_iff.1 h
  obtain ⟨⟨f', zone⟩, htime, h⟩ := Option.bind_eq_some_iff.1 h
  obtain ⟨hzone, heq⟩ := Option.ite_none_right_eq_some.1 h
  obtain rfl := Option.some.inj heq
  obtain ⟨years, rfl, hyears⟩ := digits_of_takeNumber? hyear
  obtain rfl := takeChar?_eq_some hdash
  obtain ⟨months, rfl, hmonths⟩ := digits_of_takeNumber? hmonth
  obtain rfl := takeChar?_eq_some hdash'
  obtain ⟨days, rfl, hdays⟩ := digits_of_takeNumber? hday
  obtain ⟨clock, rfl, hclock⟩ := clock_of_takeTime? htime
  exact .yearFirst hyears hmonths hdays hclock hzone

theorem layout_of_yearLast? {text : List Char} {f : Fields} (h : yearLast? text = some f) :
    Layout text f := by
  obtain ⟨⟨month, rest₁⟩, hmonth, h⟩ := Option.bind_eq_some_iff.1 h
  obtain ⟨rest₂, hslash, h⟩ := Option.bind_eq_some_iff.1 h
  obtain ⟨⟨day, rest₃⟩, hday, h⟩ := Option.bind_eq_some_iff.1 h
  obtain ⟨rest₄, hslash', h⟩ := Option.bind_eq_some_iff.1 h
  obtain ⟨⟨year, rest₅⟩, hyear, h⟩ := Option.bind_eq_some_iff.1 h
  obtain ⟨rfl, heq⟩ := Option.ite_none_right_eq_some.1 h
  obtain rfl := Option.some.inj heq
  obtain ⟨months, rfl, hmonths⟩ := digits_of_takeNumber? hmonth
  obtain rfl := takeChar?_eq_some hslash
  obtain ⟨days, rfl, hdays⟩ := digits_of_takeNumber? hday
  obtain rfl := takeChar?_eq_some hslash'
  obtain ⟨years, rfl, hyears⟩ := digits_of_takeNumber? hyear
  rw [List.append_nil]
  exact .yearLast hmonths hdays hyears

/-! ## What has a layout is read -/

/-- Nothing that comes next is a digit or starts another part of a layout. -/
def Closes (rest : List Char) : Prop :=
  ∀ c ∈ rest.head?, isDigit c = false ∧ c ≠ '.' ∧ c ≠ ':' ∧ c ≠ 'T' ∧ c ≠ ' '

theorem Digits.takeDigits? {fewest most n : Nat} {digits rest : List Char} (h : Digits fewest most digits n)
    (hrest : ∀ c ∈ rest.head?, Formulary.isDigit c = false) :
    Date.takeDigits? fewest most (digits ++ rest) = some (digits, rest) :=
  takeDigits?_append h.isDigit hrest h.fewest_le h.le_most

theorem Digits.takeNumber? {fewest most n : Nat} {digits rest : List Char} (h : Digits fewest most digits n)
    (hrest : ∀ c ∈ rest.head?, Formulary.isDigit c = false) :
    Date.takeNumber? fewest most (digits ++ rest) = some (n, rest) := by
  rw [Date.takeNumber?, h.takeDigits? hrest]
  exact congrArg (fun value => some (value, rest)) h.value

theorem not_digit_head {mark : Char} (hmark : isDigit mark = false) (rest : List Char) :
    ∀ c ∈ (mark :: rest).head?, isDigit c = false := by
  rintro c hc
  rwa [Option.some.inj hc] at hmark

/-- A number before a mark that is no digit. -/
theorem Digits.takeNumber?_mark {fewest most n : Nat} {digits : List Char} (h : Digits fewest most digits n)
    {mark : Char} (hmark : Formulary.isDigit mark = false) (rest : List Char) :
    Date.takeNumber? fewest most (digits ++ mark :: rest) = some (n, mark :: rest) :=
  h.takeNumber? (not_digit_head hmark rest)

theorem Fraction.takeMilli? {fraction rest : List Char} {milli : Nat} (h : Fraction fraction milli)
    (hrest : Closes rest) : Date.takeMilli? (fraction ++ rest) = some (milli, rest) := by
  cases h with
  | missing =>
    rw [List.nil_append]
    unfold Date.takeMilli?
    split
    · exact absurd rfl (hrest '.' rfl).2.1
    · rfl
  | @point digits n _ hdigits hmilli =>
    have hvalue : Nat.ofDigitChars 10 digits 0 * 10 ^ (3 - digits.length) = milli := by
      have hscale : 10 ^ (3 - digits.length) * 10 ^ digits.length = 1000 := by
        rw [← Nat.pow_add, Nat.sub_add_cancel hdigits.le_most]
      refine Nat.eq_of_mul_eq_mul_right (Nat.pow_pos (n := digits.length) (by decide : 0 < 10)) ?_
      rw [Nat.mul_assoc, hscale, hmilli, hdigits.value]
    simp only [List.cons_append, Date.takeMilli?, hdigits.takeDigits? fun c hc => (hrest c hc).1,
      Option.bind_eq_bind, Option.bind_some, hvalue]

theorem Fraction.not_digit_head {fraction rest : List Char} {milli : Nat} (h : Fraction fraction milli)
    (hrest : Closes rest) : ∀ c ∈ (fraction ++ rest).head?, isDigit c = false := by
  cases h with
  | missing => exact fun c hc => (hrest c hc).1
  | point => exact Date.not_digit_head (by decide) _

theorem Seconds.takeSecond? {seconds rest : List Char} {second milli : Nat} (h : Seconds seconds second milli)
    (hrest : Closes rest) : Date.takeSecond? (seconds ++ rest) = some (second, milli, rest) := by
  cases h with
  | missing =>
    rw [List.nil_append]
    unfold Date.takeSecond?
    split
    · exact absurd rfl (hrest ':' rfl).2.2.1
    · rfl
  | colon hsecond hfraction =>
    rw [List.cons_append, List.append_assoc]
    simp only [Date.takeSecond?, hsecond.takeNumber? (hfraction.not_digit_head hrest), hfraction.takeMilli? hrest,
      Option.bind_eq_bind, Option.bind_some]

theorem Seconds.not_digit_head {seconds rest : List Char} {second milli : Nat}
    (h : Seconds seconds second milli) (hrest : Closes rest) :
    ∀ c ∈ (seconds ++ rest).head?, isDigit c = false := by
  cases h with
  | missing => exact fun c hc => (hrest c hc).1
  | colon => exact Date.not_digit_head (by decide) _

theorem Clock.takeTime? {day : CivilDay} {clock rest : List Char} {f : Fields} (h : Clock day clock f)
    (hrest : Closes rest) : Date.takeTime? day (clock ++ rest) = some (f, rest) := by
  cases h with
  | missing =>
    cases rest with
    | nil => rfl
    | cons c rest =>
      obtain ⟨-, -, -, hT, hblank⟩ := hrest c rfl
      rw [List.nil_append, Date.takeTime?, if_neg (not_or.2 ⟨hT, hblank⟩)]
  | time hmark hhour hminute hseconds =>
    have hcolon : isDigit ':' = false := by decide
    simp only [List.cons_append, List.append_assoc, Date.takeTime?, if_pos hmark,
      hhour.takeNumber?_mark hcolon, takeChar?, ↓reduceIte,
      hminute.takeNumber? (hseconds.not_digit_head hrest), hseconds.takeSecond? hrest,
      Option.bind_eq_bind, Option.bind_some]

theorem Clock.not_digit_head {day : CivilDay} {clock rest : List Char} {f : Fields} (h : Clock day clock f)
    (hrest : Closes rest) : ∀ c ∈ (clock ++ rest).head?, isDigit c = false := by
  cases h with
  | missing => exact fun c hc => (hrest c hc).1
  | time hmark => exact Date.not_digit_head (by rcases hmark with rfl | rfl <;> decide) _

theorem closes_zone {zone : List Char} (h : zone = [] ∨ zone = ['Z']) : Closes zone := by
  rcases h with rfl | rfl
  · exact fun c hc => nomatch hc
  · intro c hc
    obtain rfl := Option.some.inj hc
    decide

/-- A year has more digits than a month. -/
theorem yearFirst?_of_month {months rest : List Char} {month : Nat} (h : Digits 1 2 months month) :
    yearFirst? (months ++ '/' :: rest) = none := by
  have hspan := Token.span_append h.isDigit (not_digit_head (by decide : isDigit '/' = false) rest)
  have hshort := h.le_most
  have htake : takeDigits? 4 4 (months ++ '/' :: rest) = none := by
    simp only [takeDigits?, List.span_eq_takeWhile_dropWhile, hspan.1]
    rw [if_neg (by omega)]
  rw [yearFirst?, takeNumber?, htake]
  rfl

theorem Layout.read {text : List Char} {f : Fields} (h : Layout text f) :
    (yearFirst? text <|> yearLast? text) = some f := by
  cases h with
  | @yearFirst years months days clock zone year month day _ hyear hmonth hday hclock hzone =>
    have hdash : isDigit '-' = false := by decide
    have hcloses := closes_zone hzone
    have hread : yearFirst? (years ++ '-' :: (months ++ '-' :: (days ++ (clock ++ zone)))) = some f := by
      simp only [yearFirst?, hyear.takeNumber?_mark hdash, takeChar?, ↓reduceIte,
        hmonth.takeNumber?_mark hdash, hday.takeNumber? (hclock.not_digit_head hcloses),
        hclock.takeTime? hcloses, Option.bind_eq_bind, Option.bind_some, if_pos hzone]
    rw [hread]
    rfl
  | @yearLast months days years month day year hmonth hday hyear =>
    have hslash : isDigit '/' = false := by decide
    have hend : takeNumber? 4 4 years = some (year, []) := by
      have h := @Digits.takeNumber? _ _ _ _ [] hyear (by simp)
      rwa [List.append_nil] at h
    have hread : yearLast? (months ++ '/' :: (days ++ '/' :: years)) =
        some ⟨⟨year, month, day⟩, 0, 0, 0, 0⟩ := by
      simp only [yearLast?, hmonth.takeNumber?_mark hslash, takeChar?, ↓reduceIte,
        hday.takeNumber?_mark hslash, hend, Option.bind_eq_bind, Option.bind_some]
    rw [yearFirst?_of_month hmonth, hread]
    rfl

theorem layout_iff {text : List Char} {f : Fields} :
    (yearFirst? text <|> yearLast? text) = some f ↔ Layout text f := by
  refine ⟨fun h => ?_, Layout.read⟩
  rcases (Option.orElse_eq_some _ _ _).1 h with hfirst | ⟨-, hlast⟩
  · exact layout_of_yearFirst? hfirst
  · exact layout_of_yearLast? hlast

/-! ## The fields of a date -/

theorem Digits.lt {fewest most n : Nat} {digits : List Char} (h : Digits fewest most digits n) : n < 10 ^ most := by
  have hlt := ofDigitChars_lt digits h.isDigit
  rw [h.value] at hlt
  exact Nat.lt_of_lt_of_le hlt (Nat.pow_le_pow_right (by decide) h.le_most)

theorem Fraction.milli_lt {fraction : List Char} {milli : Nat} (h : Fraction fraction milli) : milli < 1000 := by
  cases h with
  | missing => decide
  | @point digits n _ hdigits hmilli =>
    have hlt := ofDigitChars_lt digits hdigits.isDigit
    rw [hdigits.value] at hlt
    refine Nat.lt_of_mul_lt_mul_right (a := 10 ^ digits.length) ?_
    rw [hmilli]
    omega

theorem Clock.milli_lt {day : CivilDay} {clock : List Char} {f : Fields} (h : Clock day clock f) :
    f.day = day ∧ f.milli < 1000 := by
  cases h with
  | missing => exact ⟨rfl, (by decide : 0 < 1000)⟩
  | time _ _ _ hseconds =>
    cases hseconds with
    | missing => exact ⟨rfl, (by decide : 0 < 1000)⟩
    | colon _ hfraction => exact ⟨rfl, hfraction.milli_lt⟩

/-- A layout has a year of four digits and at most three digits of a second. -/
theorem Layout.bounds {text : List Char} {f : Fields} (h : Layout text f) :
    0 ≤ f.day.year ∧ f.day.year ≤ 9999 ∧ f.milli < 1000 := by
  cases h with
  | yearFirst hyear _ _ hclock =>
    obtain ⟨hday, hmilli⟩ := hclock.milli_lt
    have := hyear.lt
    rw [hday]
    exact ⟨Int.natCast_nonneg _, by dsimp only; omega, hmilli⟩
  | yearLast _ _ hyear =>
    have := hyear.lt
    exact ⟨Int.natCast_nonneg _, by dsimp only; omega, (by decide : 0 < 1000)⟩

theorem valid_of_ofFields? {f : Fields} {date : Date} (h : ofFields? f = some date) : f.Valid := by
  obtain ⟨⟨hday, hhour, hminute, hsecond⟩, -⟩ := Option.ite_none_right_eq_some.1 h
  exact ⟨hday, hhour, hminute, hsecond⟩

section Valid

variable {f : Fields} (h : f.Valid)

include h

theorem Fields.Valid.ofFields? : Date.ofFields? f = ofMillis? (f.day.toDayNumber * millisPerDay
    + (((f.hour * 60 + f.minute) * 60 + f.second) * 1000 + f.milli : Nat)) :=
  if_pos ⟨h.day_exists, h.hour_le, h.minute_le, h.second_le⟩

theorem Fields.Valid.toFields (hmilli : f.milli < 1000) {date : Date} (hdate : Date.ofFields? f = some date) :
    date.toFields = f := by
  rw [h.ofFields?, ofMillis?] at hdate
  obtain ⟨hday, hhour, hminute, hsecond⟩ := h
  obtain ⟨day, hour, minute, second, milli⟩ := f
  dsimp only at hday hhour hminute hsecond hmilli
  obtain ⟨clock, hclock⟩ : ∃ clock, ((hour * 60 + minute) * 60 + second) * 1000 + milli = clock := ⟨_, rfl⟩
  rw [hclock] at hdate
  obtain ⟨hrange, heq⟩ := Option.dite_none_right_eq_some.1 hdate
  obtain rfl := Option.some.inj heq
  have hdays : (day.toDayNumber * millisPerDay + (clock : Int)) / millisPerDay = day.toDayNumber := by
    rw [millisPerDay]
    omega
  have htime : ((day.toDayNumber * millisPerDay + (clock : Int)) % millisPerDay).toNat = clock := by
    rw [millisPerDay]
    omega
  simp only [Date.toFields, hdays, htime, CivilDay.ofDayNumber_toDayNumber hday, Fields.mk.injEq, true_and]
  omega

/-- The years of four digits are in range. -/
theorem Fields.Valid.exists_date (hyear : 0 ≤ f.day.year) (hyear' : f.day.year ≤ 9999) (hmilli : f.milli < 1000) :
    ∃ date, Date.ofFields? f = some date := by
  rw [h.ofFields?, ofMillis?, millisPerDay]
  obtain ⟨⟨hmonth, hmonth', hday, hday'⟩, hhour, hminute, hsecond⟩ := h
  have hlast := Nat.le_trans hday' (CivilDay.daysInMonth_le _ _)
  have hdays : -800000 ≤ f.day.toDayNumber ∧ f.day.toDayNumber ≤ 3000000 := by
    rw [CivilDay.toDayNumber, CivilDay.epochOffset]
    split <;> omega
  rw [dif_pos (by omega)]
  exact ⟨_, rfl⟩

end Valid

/-! ## The number of a date -/

theorem natAbs_millis (date : Date) : date.millis.natAbs ≤ 8640000000000000 := by
  have := date.inRange
  omega

/-- The count of milliseconds is held exactly. -/
theorem exists_toNumber_eq (date : Date) : ∃ m : Magnitude,
    date.toNumber = .finite (date.millis < 0) m ∧ m.steps = date.millis.natAbs * stepsPerOne :=
  Number.exists_ofInt_exact (Nat.lt_of_le_of_lt date.natAbs_millis (by decide))

theorem toNumber_whole (date : Date) : date.toNumber.isFinite = true ∧ date.toNumber.trunc = date.toNumber := by
  obtain ⟨m, hm, hsteps⟩ := date.exists_toNumber_eq
  rw [hm, Number.trunc_of_dvd _ (hsteps ▸ Nat.dvd_mul_left stepsPerOne _)]
  exact ⟨rfl, rfl⟩

theorem ofNumber?_toNumber (date : Date) : ofNumber? date.toNumber = some date := by
  have hlimit : date.toNumber.abs.lessOrEqual millisLimit = true := by
    obtain ⟨m, hm, hsteps⟩ := date.exists_toNumber_eq
    obtain ⟨limit, hlimit, hsteps'⟩ := Number.exists_ofNat_exact (n := 8640000000000000) (by decide)
    have hle : m.steps ≤ limit.steps := by
      rw [hsteps, hsteps']
      exact Nat.mul_le_mul_right _ date.natAbs_millis
    rw [hm, millisLimit, hlimit]
    simpa [Number.lessOrEqual, Number.abs, Number.isNaN, Number.rank] using hle
  have hread : date.toNumber.toInt? = some date.millis :=
    Number.toInt?_ofInt (Nat.lt_of_le_of_lt date.natAbs_millis (by decide))
  rw [ofNumber?, if_pos hlimit, hread, Option.bind_some, ofMillis?, dif_pos date.inRange]

/-- **Dates.** A text that names a date has one of the layouts, without the blanks around it, and the date has the
fields that it says: a day of the calendar and a time of the clock. The text and the number of the date are read as
the date again, and the number is whole. Every text with a layout, of a day and a time that there are, names a date
with these fields. -/
theorem ofText?_reads_layouts (text : String) :
    (∀ date, ofText? text = some date →
      Layout (trimChars text.toList) date.toFields ∧ date.toFields.Valid ∧ ofText? date.toText = some date ∧
      (date.toNumber.isFinite = true ∧ date.toNumber.trunc = date.toNumber) ∧
      ofNumber? date.toNumber = some date) ∧
    ∀ f, Layout (trimChars text.toList) f → f.Valid → ∃ date, ofText? text = some date ∧ date.toFields = f := by
  constructor
  · intro date hdate
    obtain ⟨f, hread, hfields⟩ := Option.bind_eq_some_iff.1 hdate
    have hlayout := layout_iff.1 hread
    obtain ⟨hyear, hyear', hmilli⟩ := hlayout.bounds
    have hvalid := valid_of_ofFields? hfields
    obtain rfl := hvalid.toFields hmilli hfields
    exact ⟨hlayout, hvalid, HasPlainYear.ofText?_toText ⟨hyear, hyear'⟩, date.toNumber_whole,
      date.ofNumber?_toNumber⟩
  · intro f hlayout hvalid
    obtain ⟨hyear, hyear', hmilli⟩ := hlayout.bounds
    obtain ⟨date, hdate⟩ := hvalid.exists_date hyear hyear' hmilli
    exact ⟨date, Option.bind_eq_some_iff.2 ⟨f, layout_iff.2 hlayout, hdate⟩, hvalid.toFields hmilli hdate⟩

end Date

end Formulary
