import Formulary.Function.Builtin
import Formulary.Proofs.Number.Powers

/-!
# Rounding to decimal places

A number is rounded by scaling it with a power of ten, and each of the three steps may leave the range
(`rounding_in_range`). Beyond the powers that the format has, the result is not a number; otherwise it is one, and it
is finite as long as the scaled number is and the number itself is not among the largest.
-/

namespace Formulary

namespace Number

/-! ## Scaling -/

/-- The nearest multiple of a unit, which is the inverse of the factor. -/
def toMultiple (factor x : Number) : Number := (x.mul factor).round.div factor

section Factors

variable {m n : Magnitude} (negative : Bool)

/-- An infinite factor is left over against itself. -/
theorem toMultiple_infinity : toMultiple (infinity false) (finite negative m) = nan := by
  by_cases hm : m.steps = 0
  · simp [toMultiple, mul, hm, round, div]
  · simp [toMultiple, mul, hm, round, div]

theorem toMultiple_zero (hn : n.steps = 0) : toMultiple (finite false n) (finite negative m) = nan := by
  obtain ⟨r, hr, hsteps⟩ := exists_ofRatio_eq (m := n) (negative != false) stepsPerOne_pos
    (by rw [hn, Nat.mul_zero, Nat.zero_mul] : m.steps * n.steps ≤ n.steps * stepsPerOne)
  rw [hn, Nat.mul_zero, roundCount_zero stepsPerOne_pos] at hsteps
  obtain ⟨whole, hwhole, hle⟩ := exists_round_eq (negative != false) r
  rw [toMultiple, mul_finite, hr, hwhole]
  exact div_zero _ _ (by omega) hn

/-- A number that was scaled out of range does not come back. -/
theorem toMultiple_of_overflow
    (h : ¬ ((finite negative m).mul (finite false n)).isFinite = true) :
    toMultiple (finite false n) (finite negative m) = infinity negative := by
  rw [mul_finite, isFinite_ofRatio] at h
  rw [toMultiple, mul_finite, ofRatio, dif_neg h]
  cases negative <;> rfl

/-- A number that was scaled within the range is scaled back from a whole number. -/
theorem exists_toMultiple_eq (h : ((finite negative m).mul (finite false n)).isFinite = true) :
    ∃ whole : Magnitude, toMultiple (finite false n) (finite negative m) =
        (finite negative whole).div (finite false n) ∧
      whole.steps ≤ 2 * roundCount (m.steps * n.steps) stepsPerOne := by
  rw [mul_finite, isFinite_ofRatio] at h
  obtain ⟨whole, hwhole, hle⟩ := exists_round_eq (negative != false)
    ⟨_, h, spacing_dvd_roundCount (m.steps * n.steps) stepsPerOne⟩
  refine ⟨whole, ?_, hle⟩
  rw [toMultiple, mul_finite, ofRatio, dif_pos h, hwhole, Bool.bne_false]

theorem isNaN_toMultiple (hn : n.steps ≠ 0) :
    (toMultiple (finite false n) (finite negative m)).isNaN = false := by
  by_cases h : ((finite negative m).mul (finite false n)).isFinite = true
  · obtain ⟨whole, heq, -⟩ := exists_toMultiple_eq negative h
    rw [heq, div_finite _ _ hn]
    exact isNaN_ofRatio _ _ _
  · rw [toMultiple_of_overflow negative h]
    rfl

/-- Only the product with a factor of at least one may leave the range. -/
theorem isFinite_toMultiple_iff (hn : stepsPerOne ≤ n.steps) :
    (toMultiple (finite false n) (finite negative m)).isFinite = true ↔
      ((finite negative m).mul (finite false n)).isFinite = true := by
  by_cases h : ((finite negative m).mul (finite false n)).isFinite = true
  · obtain ⟨whole, heq, -⟩ := exists_toMultiple_eq negative h
    rw [heq]
    exact iff_of_true (isFinite_div _ _ hn) h
  · rw [toMultiple_of_overflow negative h]
    exact iff_of_false Bool.false_ne_true h

/-- Scaling down and back at most quadruples a number: each rounding but the last at most doubles it. -/
theorem isFinite_toMultiple (hn : n.steps ≠ 0) (hone : n.steps ≤ stepsPerOne) (hm : 2 * (2 * m.steps) < stepLimit) :
    (toMultiple (finite false n) (finite negative m)).isFinite = true := by
  obtain ⟨whole, heq, hwhole⟩ := exists_toMultiple_eq negative (isFinite_mul (m := m) negative false hone)
  have hscaled := roundCount_mul_le (m.steps * n.steps) stepsPerOne
  have hback : whole.steps * stepsPerOne ≤ 2 * (2 * m.steps) * n.steps := by
    calc whole.steps * stepsPerOne
        ≤ 2 * roundCount (m.steps * n.steps) stepsPerOne * stepsPerOne := Nat.mul_le_mul_right _ hwhole
      _ = 2 * (roundCount (m.steps * n.steps) stepsPerOne * stepsPerOne) := Nat.mul_assoc _ _ _
      _ ≤ 2 * (2 * (m.steps * n.steps)) := Nat.mul_le_mul_left 2 hscaled
      _ = 2 * (2 * m.steps) * n.steps := by rw [Nat.mul_assoc, Nat.mul_assoc]
  have hheld := spacing_dvd_double (spacing_dvd_double m.representable.2)
  obtain ⟨r, hr, -⟩ := exists_ofRatio_eq (m := ⟨_, hm, hheld⟩) (negative != false) (Nat.pos_of_ne_zero hn) hback
  rw [heq, div_finite _ _ hn, hr]
  rfl

end Factors

end Number

/-! ## The function -/

namespace Builtin

open Number

theorem roundAt_eq (platform : Number → Number → Number) (digits n : Number) :
    roundAt platform digits n = toMultiple ((ofNat 10).powOn platform digits) n := rfl

theorem roundOn_eq (platform : Number → Number → Number) (n : Number) {places : Value} {digits : Number}
    (h : places.reading? = some digits) :
    roundOn platform [.number n, places] = .number (roundAt platform digits.trunc n) := by
  cases places with
  | empty | boolean | date | error => exact nomatch h
  | number k =>
    obtain rfl := Option.some.inj h
    rfl
  | text s =>
    have hread : Value.reading? (.text s) = some digits := h
    simp only [roundOn, List.getElem?_cons_succ, List.getElem?_cons_zero, hread]
    rfl

/-- To no places at all. -/
theorem isFinite_roundAt_zero (platform : Number → Number → Number) {n : Number} (hn : n.isFinite = true) :
    (roundAt platform (ofNat 0) n).isFinite = true := by
  obtain ⟨negative, m, rfl⟩ := exists_finite hn
  obtain ⟨one, hone, hsteps⟩ := exists_ofNat_exact (n := 1) (by decide)
  have hzero : (ofNat 0).IsInt 0 := by
    obtain ⟨zero, hzero, hsteps⟩ := exists_ofNat_exact (n := 0) (by decide)
    rw [hzero]
    exact ⟨rfl, by rw [rank_finite, hsteps, Nat.zero_mul, Int.zero_mul]; rfl⟩
  rw [Nat.one_mul] at hsteps
  rw [roundAt_eq, powOn_ten platform hzero, if_neg (by decide), if_neg (by decide), if_pos (by decide)]
  show (toMultiple (ofNat 1) (finite negative m)).isFinite = true
  rw [hone, isFinite_toMultiple_iff negative (Nat.le_of_eq hsteps.symm)]
  exact isFinite_mul negative false (Nat.le_of_eq hsteps)

/-- **Range.** Without places a finite number is rounded to a finite one. With a finite number of places, whole or
not, the result is not a number if and only if the format does not have so large or so small a power of ten.
For places behind the point it is finite if and only if the scaled number is, and for places before it, it is
finite unless the number is one of the largest, from 2^1022 on. -/
theorem rounding_in_range {platform : Number → Number → Number} (h : PowersOfTen platform) {n digits : Number}
    {places : Value} (hn : n.isFinite = true) (hplaces : places.reading? = some digits)
    (hdigits : digits.isFinite = true) :
    (∃ x, roundOn platform [.number n] = .number x ∧ x.isFinite = true) ∧
    ∃ k x, digits.toInt? = some k ∧ roundOn platform [.number n, places] = .number x ∧
      (x.isNaN = true ↔ k < -323 ∨ 308 < k) ∧
      (0 ≤ k → k ≤ 308 →
        (x.isFinite = true ↔ (n.mul ((ofNat 10).powOn platform digits.trunc)).isFinite = true)) ∧
      (-323 ≤ k → k < 0 → n.rank.natAbs < 2 ^ (1022 : Nat) * stepsPerOne → x.isFinite = true) := by
  obtain ⟨k, hk, hint⟩ := exists_isInt_trunc hdigits
  refine ⟨⟨_, rfl, isFinite_roundAt_zero platform hn⟩, k, _, hk, roundOn_eq platform n hplaces, ?_⟩
  obtain ⟨negative, m, rfl⟩ := exists_finite hn
  have hten := h.settled
  rw [roundAt_eq]
  rcases Int.lt_or_le 308 k with hover | hhigh
  · rw [hten.overflow hint hover, toMultiple_infinity]
    exact ⟨iff_of_true rfl (.inr hover), fun _ _ => by omega, fun _ _ => by omega⟩
  rcases Int.lt_or_le k (-323) with hunder | hlow
  · obtain ⟨zero, hzero, hsteps⟩ := exists_zero
    rw [hten.underflow hint hunder, hzero, toMultiple_zero negative hsteps]
    exact ⟨iff_of_true rfl (.inl hunder), fun _ _ => by omega, fun _ _ => by omega⟩
  rcases Int.lt_or_le k 0 with hneg | hpos
  · obtain ⟨f, hf, hne, hone⟩ := hten.small hint hlow hneg
    rw [hf]
    refine ⟨iff_of_false (by rw [isNaN_toMultiple negative hne]; decide) (by omega), fun _ => by omega,
      fun _ _ hsmall => isFinite_toMultiple negative hne hone ?_⟩
    rw [natAbs_rank] at hsmall
    have hlimit : 2 * (2 * (2 ^ (1022 : Nat) * stepsPerOne)) = stepLimit := by decide +kernel
    omega
  · obtain ⟨f, hf, hone⟩ := hten.large hint hpos hhigh
    have hne : f.steps ≠ 0 := (stepsPerOne_pos.trans_le hone).ne'
    rw [hf]
    exact ⟨iff_of_false (by rw [isNaN_toMultiple negative hne]; decide) (by omega),
      fun _ _ => isFinite_toMultiple_iff negative hone, fun _ _ => by omega⟩

/-- To hundreds, as the text "-2" says. -/
theorem rounding_in_range_hundreds :
    PowersOfTen nearestPower ∧ Value.reading? (.text "-2") = some (.ofInt (-2)) ∧
      (∃ x, roundOn nearestPower [.number (.ofNat 1250)] = .number x ∧ x.isFinite = true) ∧
      ∃ x, roundOn nearestPower [.number (.ofNat 1250), .text "-2"] = .number x ∧ x.isFinite = true := by
  have hread : Value.reading? (.text "-2") = some (.ofInt (-2)) := by decide +kernel
  have hrange := @rounding_in_range nearestPower powersOfTen_nearestPower (.ofNat 1250) (.ofInt (-2)) (.text "-2")
    (by decide +kernel) hread (by decide +kernel)
  obtain ⟨hwhole, k, x, hk, hround, -, -, hfinite⟩ := hrange
  obtain rfl : -2 = k := Option.some.inj ((by decide +kernel : Number.toInt? (.ofInt (-2)) = some (-2)).symm.trans hk)
  exact ⟨powersOfTen_nearestPower, hread, hwhole, x, hround,
    hfinite (by decide) (by decide) (by decide +kernel)⟩

/-- One to 400 places, for which there is no power of ten, and 10^300 to 10 places. -/
theorem rounding_out_of_range :
    (Number.ofNat 1).isFinite = true ∧ (Number.ofNat 400).isFinite = true ∧
      round [.number (.ofNat 1), .number (.ofNat 400)] = .number .nan ∧
      (Number.ofNat (10 ^ (300 : Nat))).isFinite = true ∧ (Number.ofNat 10).isFinite = true ∧
      round [.number (.ofNat (10 ^ (300 : Nat))), .number (.ofNat 10)] = .number (.infinity false) := by
  decide +kernel

end Builtin

end Formulary
