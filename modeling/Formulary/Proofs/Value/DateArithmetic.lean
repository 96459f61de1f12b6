import Formulary.Proofs.Calendar.Layout
import Formulary.Proofs.Number.Sum
import Formulary.Proofs.Value.Coercion

/-!
# Sums and differences with dates

A date and an integer make the date that many milliseconds later, or not-a-number if there is none, and a
difference takes this back (`Value.date_arithmetic_exact`). Sums are rounded, but from 53 bits on only, which is
further than any date reaches: so a sum of integers is the number of a date if and only if it would be without
rounding (`Date.ofNumber?_add`).
-/

namespace Formulary

namespace Date

/-! ## The dates of integers -/

theorem isInt_toNumber (d : Date) : d.toNumber.IsInt d.millis := by
  obtain ⟨m, hm, hsteps⟩ := d.exists_toNumber_eq
  rw [hm]
  refine ⟨rfl, ?_⟩
  rw [Number.rank_finite, hsteps, Int.natCast_mul]
  by_cases hneg : d.millis < 0
  · rw [decide_eq_true hneg, if_pos rfl, ← Int.neg_mul]
    exact congrArg (· * (stepsPerOne : Int)) (by omega)
  · rw [decide_eq_false hneg, if_neg Bool.false_ne_true]
    exact congrArg (· * (stepsPerOne : Int)) (by omega)

theorem ext_millis {d e : Date} (h : d.millis = e.millis) : d = e := by
  cases d
  cases e
  simpa using h

theorem ofMillis?_millis (d : Date) : ofMillis? d.millis = some d := dif_pos d.inRange

theorem ofMillis?_eq_none {i : Int} (h : 8640000000000000 < i.natAbs) : ofMillis? i = none :=
  dif_neg fun hrange => by omega

theorem lessOrEqual_millisLimit {x : Number} : x.lessOrEqual millisLimit = true ↔
    x.isNaN = false ∧ x.rank ≤ ((8640000000000000 * stepsPerOne : Nat) : Int) := by
  obtain ⟨m, hm, hsteps⟩ := Number.exists_ofNat_exact (n := 8640000000000000) (by decide)
  have hrank : (Number.finite false m).rank = ((8640000000000000 * stepsPerOne : Nat) : Int) :=
    congrArg Int.ofNat hsteps
  have hnumber : (Number.finite false m).isNaN = false := rfl
  rw [millisLimit, hm, Number.lessOrEqual, hrank, hnumber, Bool.not_false, Bool.and_true, Bool.and_eq_true,
    Bool.not_eq_true', decide_eq_true_iff]

/-- An integer is the number of the date with that count of milliseconds, if there is one. -/
theorem ofNumber?_of_isInt {x : Number} {i : Int} (hx : x.IsInt i) : ofNumber? x = ofMillis? i := by
  rw [ofNumber?, hx.toInt?_eq, Option.bind_some]
  split
  · rfl
  · next hfar =>
    refine (ofMillis?_eq_none (Nat.lt_of_not_le fun hle => hfar ?_)).symm
    have hnear := Nat.mul_le_mul_right stepsPerOne hle
    rw [← hx.natAbs_rank] at hnear
    rw [lessOrEqual_millisLimit, Number.rank_abs hx.isFinite]
    exact ⟨Number.isNaN_abs hx.isFinite, Int.ofNat_le.2 hnear⟩

/-- A sum of integers is the number of a date as if it were not rounded. -/
theorem ofNumber?_add {x y : Number} {i j : Int} (hx : x.IsInt i) (hy : y.IsInt j) :
    ofNumber? (x.add y) = ofMillis? (i + j) := by
  by_cases hsmall : (i + j).natAbs < 2 ^ 53
  · exact ofNumber?_of_isInt (hx.add hy (Number.representable_of_lt hsmall))
  · have hlarge := hx.le_abs_add hy (by decide) (Nat.le_of_not_lt hsmall)
    have hlimit : 8640000000000000 * stepsPerOne < 2 ^ 53 * stepsPerOne :=
      Nat.mul_lt_mul_of_pos_right (by decide) stepsPerOne_pos
    rw [ofMillis?_eq_none (by omega), ofNumber?, if_neg]
    rw [lessOrEqual_millisLimit]
    exact fun hnear => by omega

end Date

namespace Value

/-! ## Operands that are dates and numbers -/

section Operands

variable (d e : Date) {n : Number} (hn : n.isNaN = false)

theorem strictReading_date : strictReading (date d) = ⟨false, true, d.toNumber⟩ := rfl

theorem strictReading_number (n : Number) : strictReading (number n) = ⟨false, false, n⟩ := rfl

theorem subtract_date_date : subtract (date e) (date d) = .ok (number (e.toNumber.sub d.toNumber)) := by
  have hsettled : settled? (date e) (date d) = none := rfl
  simp [subtract, hsettled, strictReading_date, Operand.isNumeric]

include hn

theorem settled?_date_number : settled? (date d) (number n) = none ∧ settled? (number n) (date d) = none := by
  simp [settled?, isError, marker?, Value.isNaN, hn]

theorem add_date_number : add (date d) (number n) = ofMillis (d.toNumber.add n) := by
  simp [add, settled?_date_number d hn, strictReading_date, strictReading_number, Operand.isNumeric, hn]

theorem add_number_date : add (number n) (date d) = ofMillis (n.add d.toNumber) := by
  simp [add, settled?_date_number d hn, strictReading_date, strictReading_number, Operand.isNumeric, hn]

theorem subtract_date_number : subtract (date d) (number n) = .ok (ofMillis (d.toNumber.sub n)) := by
  simp [subtract, settled?_date_number d hn, strictReading_date, strictReading_number, Operand.isNumeric, hn]

end Operands

/-! ## Steps in time -/

section Step

variable {d e : Date} {n : Number} {k : Int} (hn : n.IsInt k)

theorem ofMillis_of_eq_some {x : Number} (h : Date.ofNumber? x = some e) : ofMillis x = date e := by
  rw [ofMillis, h]

include hn

/-- To add to a date is to ask for the date that many milliseconds later. -/
theorem ofNumber?_step :
    Date.ofNumber? (d.toNumber.add n) = Date.ofMillis? (d.millis + k) ∧
      Date.ofNumber? (n.add d.toNumber) = Date.ofMillis? (d.millis + k) := by
  refine ⟨Date.ofNumber?_add d.isInt_toNumber hn, ?_⟩
  rw [Int.add_comm]
  exact Date.ofNumber?_add hn d.isInt_toNumber

variable (he : e.millis = d.millis + k)

include he

theorem add_of_millis_eq : add (date d) (number n) = date e ∧ add (number n) (date d) = date e := by
  obtain ⟨hleft, hright⟩ := ofNumber?_step (d := d) hn
  rw [← he, e.ofMillis?_millis] at hleft hright
  rw [add_date_number d hn.isNaN_eq, add_number_date d hn.isNaN_eq]
  exact ⟨ofMillis_of_eq_some hleft, ofMillis_of_eq_some hright⟩

theorem subtract_number_of_millis_eq : subtract (date e) (number n) = .ok (date d) := by
  have hback : e.millis + -k = d.millis := by omega
  have hdate := Date.ofNumber?_add e.isInt_toNumber hn.neg
  rw [hback, d.ofMillis?_millis] at hdate
  rw [subtract_date_number e hn.isNaN_eq]
  exact congrArg Except.ok (ofMillis_of_eq_some hdate)

/-- The difference of two dates is held because it is a number already. -/
theorem subtract_date_of_millis_eq : ∃ difference, subtract (date e) (date d) = .ok (number difference) ∧
    difference.equals n = true := by
  have hback : e.millis + -d.millis = k := by omega
  have hdifference := e.isInt_toNumber.add d.isInt_toNumber.neg (by rw [hback]; exact hn.representable)
  rw [hback] at hdifference
  exact ⟨_, subtract_date_date d e, hdifference.equals hn⟩

end Step

/-- **Date arithmetic.** A finite number that is its own whole part is an integer. A date and the number, in either
order, add up to the date that many milliseconds later; the date less the number is the first date again, and the one
date less the other is the number, but for the sign of a zero. If there is no such date, the sum is not-a-number. -/
theorem date_arithmetic_exact (d : Date) {n : Number} (hfinite : n.isFinite = true) (hwhole : n.trunc = n) :
    ∃ k : Int, n.IsInt k ∧
      (-8334601228800000 ≤ d.millis + k ∧ d.millis + k ≤ 8210266876799999 →
        ∃ e : Date, e.millis = d.millis + k ∧ add (date d) (number n) = date e ∧ add (number n) (date d) = date e ∧
          subtract (date e) (number n) = .ok (date d) ∧
          ∃ difference, subtract (date e) (date d) = .ok (number difference) ∧ difference.equals n = true) ∧
      (¬ (-8334601228800000 ≤ d.millis + k ∧ d.millis + k ≤ 8210266876799999) →
        add (date d) (number n) = number .nan ∧ add (number n) (date d) = number .nan) := by
  obtain ⟨k, hn⟩ := Number.exists_isInt_iff.2 ⟨hfinite, hwhole⟩
  refine ⟨k, hn, fun hrange => ?_, fun hrange => ?_⟩
  · have he : (⟨d.millis + k, hrange⟩ : Date).millis = d.millis + k := rfl
    obtain ⟨hleft, hright⟩ := add_of_millis_eq hn he
    exact ⟨_, he, hleft, hright, subtract_number_of_millis_eq hn he, subtract_date_of_millis_eq hn he⟩
  · have hnone : Date.ofMillis? (d.millis + k) = none := dif_neg hrange
    obtain ⟨hleft, hright⟩ := ofNumber?_step (d := d) hn
    rw [add_date_number d hn.isNaN_eq, add_number_date d hn.isNaN_eq, ofMillis, ofMillis, hleft, hright, hnone]
    exact ⟨rfl, rfl⟩

/-- From the first date to the last one that an even number of milliseconds leads to: the step needs 54 bits. -/
theorem date_arithmetic_exact_span :
    (Number.ofInt 16544868105599998).isFinite = true ∧
      (Number.ofInt 16544868105599998).trunc = .ofInt 16544868105599998 ∧
      add (date ⟨-8334601228800000, by decide⟩) (number (.ofInt 16544868105599998)) =
        date ⟨8210266876799998, by decide⟩ ∧
      subtract (date ⟨8210266876799998, by decide⟩) (number (.ofInt 16544868105599998)) =
        .ok (date ⟨-8334601228800000, by decide⟩) := by
  have hfinite : (Number.ofInt 16544868105599998).isFinite = true := by decide +kernel
  have hwhole : (Number.ofInt 16544868105599998).trunc = .ofInt 16544868105599998 := by decide +kernel
  obtain ⟨k, hk, hrange, -⟩ := date_arithmetic_exact ⟨-8334601228800000, by decide⟩ hfinite hwhole
  obtain rfl : k = 16544868105599998 := Option.some.inj (hk.toInt?_eq.symm.trans (by decide +kernel))
  obtain ⟨e, he, hadd, -, hsubtract, -⟩ := hrange (by decide)
  obtain rfl : e = ⟨8210266876799998, by decide⟩ := Date.ext_millis he
  exact ⟨hfinite, hwhole, hadd, hsubtract⟩

end Value

end Formulary
