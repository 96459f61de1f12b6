import Formulary.CommandLine.Run
import Formulary.Proofs.Calendar.Writing
import Formulary.Proofs.Number.Sum
import Formulary.Proofs.Text.Quoted

/-!
# Printed values

What is printed for a value identifies it, as far as equality of kind and content goes (`display_identifies`).

1. The first character tells the kind of the value, except that numbers and dates begin alike (`Kind.ofChar`). Dates
   end in a letter that no number has.
2. Numbers with the same text are equal, for the text of a number denotes it (`Number.format_eq_iff`); dates and
   quoted texts are told from their texts as well.
-/

namespace Formulary

/-! ## Numbers -/

namespace Number

theorem toList_format_finite (negative : Bool) (m : Magnitude) :
    ((finite negative m).format Value.numberStyle).toList =
      (if negative && m.steps != 0 then ['-'] else []) ++ m.shortest.positional := by
  simp [format, formatMagnitude, Value.numberStyle]

theorem equals_iff {x y : Number} : x.equals y = true ↔ x.isNaN = false ∧ y.isNaN = false ∧ x.rank = y.rank := by
  simp [equals, and_assoc]

theorem isNaN_eq_true_iff {x : Number} : x.isNaN = true ↔ x = nan := by
  cases x with
  | nan => exact iff_of_true rfl rfl
  | infinity | finite => exact iff_of_false Bool.false_ne_true (by simp)

/-- The text of a number denotes it, or zero without a sign. -/
theorem exists_denoted {x : Number} (h : x.isNaN = false) :
    ∃ x', ofText? (x.format Value.numberStyle) = some x' ∧ x'.rank = x.rank := by
  by_cases hzero : x = zero true
  · obtain ⟨m, -, hsteps⟩ := exists_zero
    have hx : x = finite true m := hzero.trans (Magnitude.zero_eq true hsteps)
    have hformat : (finite false m).format Value.numberStyle = x.format Value.numberStyle := by
      rw [← String.toList_inj, hx, toList_format_finite, toList_format_finite, hsteps]
      rfl
    refine ⟨finite false m, ?_, by rw [hx, rank_finite, rank_finite, hsteps]; rfl⟩
    rw [← hformat]
    exact ofText?_format (by simp) (by simp [Magnitude.zero_eq true hsteps])
  · have hnan : x ≠ nan := fun hx => absurd (isNaN_eq_true_iff.2 hx) (by rw [h]; decide)
    exact ⟨x, ofText?_format hnan hzero, rfl⟩

theorem natAbs_rank_infinity (negative : Bool) : (infinity negative).rank.natAbs = stepLimit := by
  cases negative with
  | false => exact Int.natAbs_natCast _
  | true => exact (Int.natAbs_neg _).trans (Int.natAbs_natCast _)

/-- Numbers of the same rank are the same, but for the sign of zero, which is not written. -/
theorem format_eq_of_rank {x y : Number} (hx : x.isNaN = false) (hy : y.isNaN = false) (h : x.rank = y.rank) :
    x.format Value.numberStyle = y.format Value.numberStyle := by
  have habs := congrArg Int.natAbs h
  cases x with
  | nan => exact nomatch hx
  | infinity a =>
    cases y with
    | nan => exact nomatch hy
    | infinity b =>
      obtain rfl : a = b := by
        -- the rank of an infinity is not zero, so it tells the sign
        obtain ⟨m, -, -⟩ := exists_zero
        have hpos : (0 : Int) < stepLimit := Int.natCast_pos.2 (Nat.zero_lt_of_lt m.representable.1)
        simp only [rank] at h
        generalize (stepLimit : Int) = limit at h hpos
        cases a <;> cases b <;> simp at h ⊢ <;> omega
      rfl
    | finite b n =>
      rw [natAbs_rank_infinity, natAbs_rank] at habs
      exact absurd n.representable.1 (by omega)
  | finite a m =>
    cases y with
    | nan => exact nomatch hy
    | infinity b =>
      rw [natAbs_rank_infinity, natAbs_rank] at habs
      exact absurd m.representable.1 (by omega)
    | finite b n =>
      rw [natAbs_rank, natAbs_rank] at habs
      obtain rfl : m = n := by
        cases m
        cases n
        congr
      rw [← String.toList_inj, toList_format_finite, toList_format_finite]
      by_cases hzero : m.steps = 0
      · rw [hzero]
        simp
      · rw [rank_finite, rank_finite] at h
        cases a <;> cases b <;> simp at h ⊢ <;> omega

/-- Numbers have the same text if and only if they are equal or both are none. -/
theorem format_eq_iff {x y : Number} : x.format Value.numberStyle = y.format Value.numberStyle ↔
    x.equals y = true ∨ x.isNaN = true ∧ y.isNaN = true := by
  have hnone : ofText? (nan.format Value.numberStyle) = none := by decide
  have hnan {x y : Number} (hx : x.isNaN = true) (hy : y.isNaN = false) :
      x.format Value.numberStyle ≠ y.format Value.numberStyle := by
    intro h
    obtain ⟨y', hread, -⟩ := exists_denoted hy
    rw [← h, isNaN_eq_true_iff.1 hx, hnone] at hread
    exact nomatch hread
  cases hx : x.isNaN with
  | true =>
    cases hy : y.isNaN with
    | true => simp [isNaN_eq_true_iff.1 hx, isNaN_eq_true_iff.1 hy]
    | false => simp [equals_iff, hx, hnan hx hy]
  | false =>
    cases hy : y.isNaN with
    | true => simp [equals_iff, hy, (hnan hy hx).symm]
    | false =>
      simp only [equals_iff, hx, hy, Bool.false_eq_true, and_self, or_false, true_and]
      refine ⟨fun h => ?_, format_eq_of_rank hx hy⟩
      obtain ⟨x', hread, hrank⟩ := exists_denoted hx
      obtain ⟨y', hread', hrank'⟩ := exists_denoted hy
      rw [h, hread'] at hread
      obtain rfl := Option.some.inj hread
      exact hrank.symm.trans hrank'

/-- No number ends like a date. -/
theorem mark_not_mem_format (x : Number) : 'Z' ∉ (x.format Value.numberStyle).toList := by
  cases x with
  | nan => decide
  | infinity negative => cases negative <;> decide
  | finite negative m =>
    rw [toList_format_finite, List.mem_append, not_or]
    constructor
    · split <;> decide
    · intro h
      rcases Decimal.mem_positional h with hdigit | hpoint
      · exact absurd hdigit (by decide)
      · exact absurd hpoint (by decide)

end Number

/-! ## Markers -/

namespace ErrorMarker

theorem mem_all (marker : ErrorMarker) : marker ∈ all := by cases marker <;> decide

theorem toText_inj {a b : ErrorMarker} (h : a.toText = b.toText) : a = b := by
  have hread : ∀ marker ∈ all, ofText? marker.toText = some marker := by decide
  have ha := hread a a.mem_all
  rw [h, hread b b.mem_all] at ha
  exact (Option.some.inj ha).symm

end ErrorMarker

theorem Date.mark_mem_toText (d : Date) : 'Z' ∈ d.toText.toList := by simp [toText]

/-! ## Equal values -/

namespace Value

/-- Only numbers are equal without being the same. -/
theorem eq_or_numbers_of_strictEquals {v w : Value} (h : v.strictEquals w = true) :
    v = w ∨ ∃ x y, v = number x ∧ w = number y ∧ x.equals y = true := by
  cases v with
  | number x =>
    cases w with
    | number y => exact .inr ⟨x, y, rfl, rfl, h⟩
    | empty | boolean | text | date | error => exact nomatch h
  | empty =>
    cases w with
    | empty => exact .inl rfl
    | boolean | number | text | date | error => exact nomatch h
  | boolean a =>
    cases w with
    | boolean b => exact .inl (congrArg boolean (eq_of_beq h))
    | empty | number | text | date | error => exact nomatch h
  | text s =>
    cases w with
    | text s' => exact .inl (congrArg text (eq_of_beq h))
    | empty | boolean | number | date | error => exact nomatch h
  | date d =>
    cases w with
    | date e => exact .inl (congrArg date (eq_of_beq h))
    | empty | boolean | number | text | error => exact nomatch h
  | error a =>
    cases w with
    | error b => exact .inl (congrArg error (eq_of_beq h))
    | empty | boolean | number | text | date => exact nomatch h

theorem eq_nan_of_isNaN {v : Value} (h : v.isNaN = true) : v = number .nan := by
  cases v with
  | number x => rw [Number.isNaN_eq_true_iff.1 h]
  | empty | boolean | text | date | error => exact nomatch h

end Value

namespace CommandLine

/-! ## First characters -/

/-- The kinds of values that are told by the first character of what is printed. Numbers and dates are figures. -/
inductive Kind where
  | empty
  | boolean
  | figure
  | text
  | error
deriving DecidableEq

namespace Kind

def of : Value → Kind
  | .empty => empty
  | .boolean _ => boolean
  | .number _ | .date _ => figure
  | .text _ => text
  | .error _ => error

def ofChar : Char → Kind
  | '(' => empty
  | 't' | 'f' => boolean
  | '"' => text
  | '#' => error
  | _ => figure

theorem ofChar_of_isDigit {c : Char} (h : isDigit c = true) : ofChar c = figure := by
  unfold ofChar
  split
  case h_6 => rfl
  all_goals exact absurd h (by decide)

/-- A text that begins like a figure. -/
def OpensFigure (chars : List Char) : Prop := ∃ c rest, chars = c :: rest ∧ ofChar c = figure

theorem opensFigure_number (x : Number) : OpensFigure (x.format Value.numberStyle).toList := by
  cases x with
  | nan => exact ⟨'N', ['a', 'N'], by decide, rfl⟩
  | infinity negative =>
    cases negative with
    | false => exact ⟨'I', "nfinity".toList, by decide, rfl⟩
    | true => exact ⟨'-', "Infinity".toList, by decide, rfl⟩
  | finite negative m =>
    rw [Number.toList_format_finite]
    split
    · exact ⟨'-', _, rfl, rfl⟩
    · obtain ⟨c, rest, hchars, hdigit⟩ := m.shortest.exists_positional_of_digit
      exact ⟨c, rest, hchars, ofChar_of_isDigit hdigit⟩

theorem opensFigure_year (year : Int) (rest : List Char) : OpensFigure (Date.yearChars year ++ rest) := by
  rw [Date.yearChars_eq, Date.yearSign]
  split_ifs
  · exact ⟨'-', _, rfl, rfl⟩
  · exact ⟨'+', _, rfl, rfl⟩
  · obtain ⟨c, digits, hdigits, hdigit⟩ := Date.exists_paddedDigits_cons 4 year.natAbs
    rw [List.nil_append, hdigits, List.cons_append]
    exact ⟨c, _, rfl, ofChar_of_isDigit hdigit⟩

/-- The first character tells the kind. -/
theorem exists_first (v : Value) : ∃ c rest, (displayValue v).toList = c :: rest ∧ ofChar c = of v := by
  cases v with
  | empty => exact ⟨'(', "empty)".toList, by decide, rfl⟩
  | boolean b =>
    cases b with
    | false => exact ⟨'f', "alse".toList, by decide, rfl⟩
    | true => exact ⟨'t', "rue".toList, by decide, rfl⟩
  | number x => exact opensFigure_number x
  | text s => exact ⟨'"', s.toList.flatMap quotedChar ++ ['"'], String.toList_ofList, rfl⟩
  | date d =>
    have h := opensFigure_year d.toFields.day.year
    simp only [displayValue, Value.toText, Date.toText, String.toList_ofList, List.append_assoc]
    exact h _
  | error marker =>
    have hall : ∀ marker ∈ ErrorMarker.all, marker.toText.toList.head? = some '#' := by decide
    obtain ⟨rest, hrest⟩ := List.head?_eq_some_iff.1 (hall marker marker.mem_all)
    exact ⟨'#', rest, hrest, rfl⟩

theorem of_eq_of_display {v w : Value} (h : displayValue v = displayValue w) : of v = of w := by
  obtain ⟨c, rest, hv, hc⟩ := exists_first v
  obtain ⟨c', rest', hw, hc'⟩ := exists_first w
  rw [h, hw] at hv
  rw [← hc, ← hc', (List.cons.inj hv).1]

end Kind

/-! ## Values of one kind -/

theorem boolean_of_display {a b : Bool} (h : displayValue (.boolean a) = displayValue (.boolean b)) : a = b := by
  revert a b
  decide

theorem number_ne_date (x : Number) (d : Date) : displayValue (.number x) ≠ displayValue (.date d) := by
  intro h
  have hmark := d.mark_mem_toText
  rw [show d.toText = x.format Value.numberStyle from h.symm] at hmark
  exact x.mark_not_mem_format hmark

/-- What the text of a value tells of it. -/
theorem eq_of_display {v w : Value} (h : displayValue v = displayValue w) :
    v.strictEquals w = true ∨ v.isNaN = true ∧ w.isNaN = true := by
  have hkind := Kind.of_eq_of_display h
  cases v with
  | empty =>
    cases w with
    | empty => exact .inl rfl
    | boolean | number | text | date | error => exact nomatch hkind
  | boolean a =>
    cases w with
    | boolean b => exact .inl (beq_iff_eq.2 (boolean_of_display h))
    | empty | number | text | date | error => exact nomatch hkind
  | number x =>
    cases w with
    | number y => exact Number.format_eq_iff.1 h
    | date d => exact absurd h (number_ne_date x d)
    | empty | boolean | text | error => exact nomatch hkind
  | text s =>
    cases w with
    | text s' => exact .inl (beq_iff_eq.2 (quotedText_inj h))
    | empty | boolean | number | date | error => exact nomatch hkind
  | date d =>
    cases w with
    | date e => exact .inl (beq_iff_eq.2 (Date.toText_inj h))
    | number x => exact absurd h.symm (number_ne_date x d)
    | empty | boolean | text | error => exact nomatch hkind
  | error a =>
    cases w with
    | error b => exact .inl (beq_iff_eq.2 (ErrorMarker.toText_inj h))
    | empty | boolean | number | text | date => exact nomatch hkind

theorem display_eq_of_strictEquals {v w : Value} (h : v.strictEquals w = true) :
    displayValue v = displayValue w := by
  obtain rfl | ⟨x, y, rfl, rfl, hequals⟩ := Value.eq_or_numbers_of_strictEquals h
  · rfl
  · exact Number.format_eq_iff.2 (.inl hequals)

/-- What is printed like a value that is no number is that value. -/
theorem eq_of_display_of_ne_number {v w : Value} (hw : ∀ y, w ≠ .number y) (h : displayValue v = displayValue w) :
    v = w := by
  rcases eq_of_display h with hequals | ⟨-, hnan⟩
  · obtain heq | ⟨x, y, -, hy, -⟩ := Value.eq_or_numbers_of_strictEquals hequals
    · exact heq
    · exact absurd hy (hw y)
  · exact absurd (Value.eq_nan_of_isNaN hnan) (hw .nan)

/-- **Printed values.** Two values are printed alike if and only if they are equal or both are no number. So what is
printed for a text is printed for no other value, and what is printed for no data neither, even if it is compared
with the empty text. -/
theorem display_identifies (v w : Value) :
    (displayValue v = displayValue w ↔ v.strictEquals w = true ∨ v.isNaN = true ∧ w.isNaN = true) ∧
      (∀ s, displayValue v = displayValue (.text s) → v = .text s) ∧
      (displayValue v = displayValue .empty → v = .empty) := by
  have htext (s : String) (y : Number) : Value.text s ≠ .number y := nofun
  have hempty (y : Number) : Value.empty ≠ .number y := nofun
  refine ⟨⟨eq_of_display, ?_⟩, fun s => eq_of_display_of_ne_number (htext s), eq_of_display_of_ne_number hempty⟩
  rintro (hequals | ⟨hv, hw⟩)
  · exact display_eq_of_strictEquals hequals
  · rw [Value.eq_nan_of_isNaN hv, Value.eq_nan_of_isNaN hw]

end CommandLine

end Formulary
