import Formulary.Calendar.Date
import Formulary.Proofs.Calendar.Civil
import Formulary.Proofs.Number.Grammar

/-!
# The text of a date

The text of a date of the years 0 to 9999 names the date again (`Date.ofText?_toText`). Each part of the text is
a number with zeros in front, which is read up to the mark behind it (`takeNumber?_paddedDigits`). Any text that
names a date starts with digits and a mark that no number has there, so it denotes no number
(`Date.number_of_ofText?`).
-/

namespace Formulary

namespace Date

/-! ## Padded digits -/

theorem isDigit_of_mem_paddedDigits {width n : Nat} {c : Char} (h : c ∈ paddedDigits width n) :
    isDigit c = true := by
  rcases List.mem_append.1 h with hzero | hdigit
  · rw [List.eq_of_mem_replicate hzero]
    rfl
  · exact isDigit_of_mem_toDigits hdigit

theorem ofDigitChars_paddedDigits (width n : Nat) : Nat.ofDigitChars 10 (paddedDigits width n) 0 = n := by
  rw [paddedDigits, Nat.ofDigitChars_append, Nat.ofDigitChars_replicate_zero, Nat.mul_zero,
    Nat.ofDigitChars_ten_toDigits]

theorem length_paddedDigits {width n : Nat} (hwidth : 0 < width) (hn : n < 10 ^ width) :
    (paddedDigits width n).length = width := by
  have hlength : (Nat.toDigits 10 n).length ≤ width :=
    (Nat.length_toDigits_le_iff (by decide) hwidth).2 hn
  rw [paddedDigits, List.length_append, List.length_replicate]
  omega

theorem takeDigits?_append {fewest most : Nat} {digits rest : List Char} (hdigits : ∀ c ∈ digits, isDigit c = true)
    (hrest : ∀ c ∈ rest.head?, isDigit c = false) (hfewest : fewest ≤ digits.length)
    (hmost : digits.length ≤ most) : takeDigits? fewest most (digits ++ rest) = some (digits, rest) := by
  obtain ⟨htake, hdrop⟩ := Token.span_append hdigits hrest
  simp only [takeDigits?, List.span_eq_takeWhile_dropWhile, htake, hdrop]
  rw [if_pos ⟨hfewest, hmost⟩]

/-- A number with zeros in front, and a mark behind it that is no digit. -/
theorem takeNumber?_paddedDigits {fewest width most n : Nat} (hwidth : 0 < width) (hn : n < 10 ^ width)
    (hfewest : fewest ≤ width) (hmost : width ≤ most) {mark : Char} (hmark : isDigit mark = false)
    (rest : List Char) :
    takeNumber? fewest most (paddedDigits width n ++ mark :: rest) = some (n, mark :: rest) := by
  have hlength := length_paddedDigits hwidth hn
  have hrest : ∀ c ∈ (mark :: rest).head?, isDigit c = false := by
    rintro c hc
    obtain rfl := Option.some.inj hc
    exact hmark
  rw [takeNumber?, takeDigits?_append (fun c => isDigit_of_mem_paddedDigits) hrest (by omega) (by omega)]
  exact congrArg (fun value => some (value, mark :: rest)) (ofDigitChars_paddedDigits width n)

/-! ## The parts of a text -/

/-- Fields that are written with the usual number of digits. -/
structure Fields.Usual (f : Fields) : Prop where
  year_nonneg : 0 ≤ f.day.year
  year_le : f.day.year ≤ 9999
  month_lt : f.day.month < 100
  day_lt : f.day.day < 100
  hour_lt : f.hour < 100
  minute_lt : f.minute < 100
  second_lt : f.second < 100
  milli_lt : f.milli < 1000

/-- The characters of fields with a year of four digits. -/
def Fields.chars (f : Fields) : List Char :=
  paddedDigits 4 f.day.year.natAbs ++ '-' :: (paddedDigits 2 f.day.month ++ '-' :: (paddedDigits 2 f.day.day ++
    'T' :: (paddedDigits 2 f.hour ++ ':' :: (paddedDigits 2 f.minute ++ ':' :: (paddedDigits 2 f.second ++
      '.' :: (paddedDigits 3 f.milli ++ ['Z']))))))

theorem takeMilli?_paddedDigits {n : Nat} (hn : n < 1000) {mark : Char} (hmark : isDigit mark = false)
    (rest : List Char) : takeMilli? ('.' :: (paddedDigits 3 n ++ mark :: rest)) = some (n, mark :: rest) := by
  have hlength : (paddedDigits 3 n).length = 3 := length_paddedDigits (by decide) hn
  have hrest : ∀ c ∈ (mark :: rest).head?, isDigit c = false := by
    rintro c hc
    obtain rfl := Option.some.inj hc
    exact hmark
  have htake : takeDigits? 1 3 (paddedDigits 3 n ++ mark :: rest) = some (paddedDigits 3 n, mark :: rest) :=
    takeDigits?_append (fun c => isDigit_of_mem_paddedDigits) hrest (by omega) (by omega)
  simp only [takeMilli?, htake, Option.bind_eq_bind, Option.bind_some, ofDigitChars_paddedDigits, hlength,
    Nat.sub_self, Nat.pow_zero, Nat.mul_one]

theorem Fields.Usual.yearFirst? {f : Fields} (h : f.Usual) : Date.yearFirst? f.chars = some f := by
  have hyear_lt : f.day.year.natAbs < 10 ^ 4 := by
    have := h.year_nonneg
    have := h.year_le
    omega
  have hyear (rest : List Char) :
      takeNumber? 4 4 (paddedDigits 4 f.day.year.natAbs ++ '-' :: rest) =
        some (f.day.year.natAbs, '-' :: rest) :=
    takeNumber?_paddedDigits (by decide) hyear_lt (by decide) (by decide) (by decide) rest
  have htwo {fewest n : Nat} (hn : n < 100) (hfewest : fewest ≤ 2) {mark : Char} (hmark : isDigit mark = false)
      (rest : List Char) :
      takeNumber? fewest 2 (paddedDigits 2 n ++ mark :: rest) = some (n, mark :: rest) :=
    takeNumber?_paddedDigits (by decide) hn hfewest (by decide) hmark rest
  have hone : (1 : Nat) ≤ 2 := by decide
  have hdash : isDigit '-' = false := by decide
  have hcolon : isDigit ':' = false := by decide
  have htime : takeTime? ⟨f.day.year.natAbs, f.day.month, f.day.day⟩ ('T' :: (paddedDigits 2 f.hour ++
      ':' :: (paddedDigits 2 f.minute ++ ':' :: (paddedDigits 2 f.second ++
        '.' :: (paddedDigits 3 f.milli ++ ['Z']))))) = some (f, ['Z']) := by
    have hnatAbs : (f.day.year.natAbs : Int) = f.day.year := Int.natAbs_of_nonneg h.year_nonneg
    simp only [takeTime?, true_or, ↓reduceIte, Option.bind_eq_bind, Option.bind_some, takeChar?, takeSecond?,
      htwo h.hour_lt hone hcolon, htwo h.minute_lt (Nat.le_refl 2) hcolon,
      htwo h.second_lt (Nat.le_refl 2) (by decide : isDigit '.' = false),
      takeMilli?_paddedDigits h.milli_lt (by decide : isDigit 'Z' = false), hnatAbs]
  simp only [Date.yearFirst?, chars, Option.bind_eq_bind, Option.bind_some, takeChar?, ↓reduceIte, hyear,
    htwo h.month_lt hone hdash, htwo h.day_lt hone (by decide : isDigit 'T' = false), htime, or_true]

theorem Fields.not_blank_of_mem_chars {f : Fields} {c : Char} (h : c ∈ f.chars) : isBlank c = false := by
  simp only [chars, List.mem_append, List.mem_cons, List.not_mem_nil, or_false] at h
  rcases h with h | rfl | h | rfl | h | rfl | h | rfl | h | rfl | h | rfl | h | rfl
  all_goals first | exact isBlank_of_isDigit (isDigit_of_mem_paddedDigits h) | decide

/-! ## Texts that name a date -/

/-- A text that names a date is not blank. -/
theorem not_blank_of_ofText? {text : String} {date : Date} (h : ofText? text = some date) :
    isBlankText text = false := by
  cases hblank : isBlankText text with
  | false => rfl
  | true =>
    rw [ofText?, trimChars_of_blank (List.all_eq_true.1 hblank)] at h
    exact nomatch h

theorem takeNumber?_eq_some {fewest most n : Nat} {text rest : List Char}
    (h : takeNumber? fewest most text = some (n, rest)) :
    ∃ digits, text = digits ++ rest ∧ (∀ c ∈ digits, isDigit c = true) ∧ fewest ≤ digits.length := by
  rw [takeNumber?, Option.map_eq_some_iff] at h
  obtain ⟨⟨digits, rest'⟩, htake, heq⟩ := h
  obtain ⟨-, rfl⟩ := Prod.mk.inj heq
  rw [takeDigits?, List.span_eq_takeWhile_dropWhile] at htake
  obtain ⟨hlength, heq⟩ := Option.ite_none_right_eq_some.1 htake
  obtain ⟨rfl, rfl⟩ := Prod.mk.inj (Option.some.inj heq)
  exact ⟨_, (List.takeWhile_append_dropWhile).symm, fun c hc => List.mem_takeWhile_imp hc, hlength.1⟩

theorem takeChar?_eq_some {c : Char} {text rest : List Char} (h : takeChar? c text = some rest) :
    text = c :: rest := by
  cases text with
  | nil => exact nomatch h
  | cons first more =>
    obtain ⟨rfl, heq⟩ := Option.ite_none_right_eq_some.1 h
    rw [Option.some.inj heq]

/-- A date starts with digits and the first dash or slash behind them. -/
theorem mark_of_ofText? {text : String} {date : Date} (h : ofText? text = some date) :
    ∃ digits mark rest, trimChars text.toList = digits ++ mark :: rest ∧ digits ≠ [] ∧
      (∀ c ∈ digits, isDigit c = true) ∧ (mark = '-' ∨ mark = '/') := by
  obtain ⟨fields, hfields, -⟩ := Option.bind_eq_some_iff.1 h
  rcases (Option.orElse_eq_some _ _ _).1 hfields with hfirst | ⟨-, hlast⟩
  · simp only [yearFirst?, Option.bind_eq_bind, Option.bind_eq_some_iff] at hfirst
    obtain ⟨⟨year, rest⟩, hyear, more, hdash, -⟩ := hfirst
    obtain ⟨digits, htext, hdigits, hlength⟩ := takeNumber?_eq_some hyear
    have hrest : rest = '-' :: more := takeChar?_eq_some hdash
    exact ⟨digits, '-', more, hrest ▸ htext, List.ne_nil_of_length_pos (Nat.lt_of_lt_of_le (by decide) hlength),
      hdigits, .inl rfl⟩
  · simp only [yearLast?, Option.bind_eq_bind, Option.bind_eq_some_iff] at hlast
    obtain ⟨⟨month, rest⟩, hmonth, more, hslash, -⟩ := hlast
    obtain ⟨digits, htext, hdigits, hlength⟩ := takeNumber?_eq_some hmonth
    have hrest : rest = '/' :: more := takeChar?_eq_some hslash
    exact ⟨digits, '/', more, hrest ▸ htext, List.ne_nil_of_length_pos hlength, hdigits, .inr rfl⟩

/-- A text that names a date denotes no number. -/
theorem number_of_ofText? {text : String} {date : Date} (h : ofText? text = some date) :
    Number.ofText? text = none := by
  obtain ⟨digits, mark, rest, htext, hne, hdigits, hmark⟩ := mark_of_ofText? h
  have hother : isDigit mark = false ∧ mark ∉ ".eExX".toList := by
    rcases hmark with rfl | rfl <;> decide
  exact Number.ofText?_of_mark hne hdigits htext hother.1 hother.2

theorem ofText?_eq_none {text : String} {n : Number} (h : Number.ofText? text = some n) : ofText? text = none := by
  cases hdate : ofText? text with
  | none => rfl
  | some date =>
    rw [number_of_ofText? hdate] at h
    exact nomatch h

/-! ## The round trip -/

theorem ofFields?_toFields (date : Date) : ofFields? date.toFields = some date := by
  have htime : (date.millis % millisPerDay).toNat < 86400000 := by
    rw [millisPerDay]
    omega
  have hvalid : date.toFields.day.Exists ∧ date.toFields.hour ≤ 23 ∧ date.toFields.minute ≤ 59 ∧
      date.toFields.second ≤ 59 := by
    refine ⟨CivilDay.exists_ofDayNumber _, ?_, ?_, ?_⟩
    all_goals
      simp only [toFields]
      omega
  have hclock : ((date.toFields.hour * 60 + date.toFields.minute) * 60 + date.toFields.second) * 1000 +
      date.toFields.milli = (date.millis % millisPerDay).toNat := by
    simp only [toFields]
    omega
  have hmillis : date.toFields.day.toDayNumber * millisPerDay + ((date.millis % millisPerDay).toNat : Int) =
      date.millis := by
    simp only [toFields]
    rw [CivilDay.toDayNumber_ofDayNumber, millisPerDay]
    omega
  rw [ofFields?, if_pos hvalid, hclock, hmillis, ofMillis?, dif_pos date.inRange]

/-- The year of a date has four digits and no sign. -/
def HasPlainYear (date : Date) : Prop := 0 ≤ date.toFields.day.year ∧ date.toFields.day.year ≤ 9999

instance (date : Date) : Decidable date.HasPlainYear := by unfold HasPlainYear; infer_instance

namespace HasPlainYear

variable {date : Date} (h : date.HasPlainYear)

include h

theorem usual : date.toFields.Usual := by
  obtain ⟨-, hmonth, -, hday⟩ := CivilDay.exists_ofDayNumber (date.millis / millisPerDay)
  have htime : (date.millis % millisPerDay).toNat < 86400000 := by
    rw [millisPerDay]
    omega
  refine ⟨h.1, h.2, Nat.lt_of_le_of_lt hmonth (by decide),
    Nat.lt_of_le_of_lt (Nat.le_trans hday (CivilDay.daysInMonth_le _ _)) (by decide), ?_, ?_, ?_, ?_⟩
  all_goals
    simp only [toFields]
    omega

theorem toList_toText : date.toText.toList = date.toFields.chars := by
  have hyear : yearChars date.toFields.day.year = paddedDigits 4 date.toFields.day.year.natAbs := by
    rw [yearChars]
    simp only [if_neg (Int.not_lt.2 h.1), if_neg (Int.not_lt.2 h.2)]
  simp only [toText, String.toList_ofList, hyear, Fields.chars, List.append_assoc, List.cons_append]

/-- **Round trip.** The text of a date names it. -/
theorem ofText?_toText : ofText? date.toText = some date := by
  rw [ofText?, h.toList_toText, trimChars_of_not_blank fun _ => Fields.not_blank_of_mem_chars]
  simp only [h.usual.yearFirst?]
  exact ofFields?_toFields date

end HasPlainYear

end Date

end Formulary
