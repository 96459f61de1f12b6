import Formulary.Proofs.Calendar.Date
import Formulary.Value.Operations

/-!
# The readings of a text

A text is read strictly, by sums and comparisons, as a number or else as a date, and loosely, by the other
arithmetic, as a number only; dates are refused before it is read so. No text denotes a number and names a date,
so the order of the two attempts does not matter, and both readings are the same for every text that is no date
and that has more than blanks (`readings_agree`). Blanks alone are what they differ in: the loose reading of
them is zero.
-/

namespace Formulary

namespace Value

theorem isEmpty_of_isBlankText {s : String} (h : isBlankText s = false) : s.isEmpty = false := by
  cases hempty : s.isEmpty with
  | false => rfl
  | true =>
    rw [String.isEmpty_iff.1 hempty] at h
    exact nomatch h

/-- A text with more than blanks is read as a number, or else as a date. -/
theorem strictReading_text {s : String} (h : isBlankText s = false) :
    strictReading (text s) = ⟨false, (Date.ofText? s).isSome,
      (Number.ofText? s <|> (Date.ofText? s).map Date.toNumber).getD .nan⟩ := by
  simp [strictReading, isEmpty, Value.isBlank, asDate?, strictNumber, isEmpty_of_isBlankText h, h]

theorem looseReading_text {s : String} (h : isBlankText s = false) :
    looseReading (text s) = ⟨false, false, (Number.ofText? s).getD .nan⟩ := by
  simp [looseReading, isEmpty, toNumber, isEmpty_of_isBlankText h, h]

theorem not_number_and_date (s : String) : Number.ofText? s = none ∨ Date.ofText? s = none := by
  cases hdate : Date.ofText? s with
  | none => exact .inr rfl
  | some date => exact .inl (Date.number_of_ofText? hdate)

/-- The two readings of a text that names no date. -/
theorem strictReading_eq_looseReading {s : String} (hblank : (text s).isBlank = false)
    (hdate : Date.ofText? s = none) : strictReading (text s) = looseReading (text s) := by
  cases hempty : s.isEmpty with
  | true => simp [strictReading, looseReading, isEmpty, hempty]
  | false =>
    have hchars : isBlankText s = false := by
      rw [Value.isBlank, hempty] at hblank
      exact hblank
    rw [strictReading_text hchars, looseReading_text hchars, hdate]
    cases Number.ofText? s with
    | none => rfl
    | some n => rfl

/-- **Readings.** No text both denotes a number and names a date. The readings of a text with more than blanks
are the same, or the text names a date. -/
theorem readings_agree (s : String) :
    (Number.ofText? s = none ∨ Date.ofText? s = none) ∧
    ((text s).isBlank = false → strictReading (text s) = looseReading (text s) ∨ (Date.ofText? s).isSome) := by
  refine ⟨not_number_and_date s, fun hblank => ?_⟩
  cases hdate : Date.ofText? s with
  | none => exact .inl (strictReading_eq_looseReading hblank hdate)
  | some date => exact .inr rfl

/-- A hexadecimal number between blanks. -/
theorem readings_agree_hexadecimal : (text " 0x1F ").isBlank = false ∧
    strictReading (text " 0x1F ") = looseReading (text " 0x1F ") := by
  have hblank : (text " 0x1F ").isBlank = false := by decide
  refine ⟨hblank, ((readings_agree " 0x1F ").2 hblank).resolve_right ?_⟩
  decide

end Value

end Formulary
