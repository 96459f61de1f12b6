import Formulary.Number.Power
import Formulary.Proofs.Number.Range

/-!
# Powers of ten

What is taken for granted of a platform's powers of ten (`Number.PowersOfTen`) holds of the powers that are partly
settled without it as well (`Number.PowersOfTen.settled`): a whole power of ten is settled from 10^0 to 10^22,
where it is exact, and far outside of the range. Powers that are rounded to nearest are such ones
(`Number.powersOfTen_nearestPower`).
-/

namespace Formulary

namespace Number

/-! ## Whole parts -/

/-- The whole part of a finite number is an integer. -/
theorem exists_isInt_trunc {x : Number} (h : x.isFinite = true) : ∃ k, x.toInt? = some k ∧ x.trunc.IsInt k := by
  obtain ⟨negative, m, rfl⟩ := exists_finite h
  have hheld : Representable (m.steps / stepsPerOne * stepsPerOne) := by
    rcases stepsPerOne_dvd_or_lt m with hdvd | hlt
    · rw [Nat.div_mul_cancel hdvd]
      exact m.representable
    · exact representable_of_lt (by omega)
  obtain ⟨whole, hwhole⟩ : ∃ whole : Magnitude, whole.steps = m.steps / stepsPerOne * stepsPerOne := ⟨⟨_, hheld⟩, rfl⟩
  have htrunc : (finite negative m).trunc = finite negative whole := by
    rw [trunc, ← hwhole]
    exact Magnitude.ofRatio_eq negative (roundCount_self whole.representable.2)
  refine ⟨_, toInt?.eq_1 negative m, by rw [htrunc]; exact isFinite.eq_1 negative whole, ?_⟩
  rw [htrunc, rank_finite, hwhole, Int.natCast_mul]
  cases negative with
  | false => rw [if_neg Bool.false_ne_true, if_neg Bool.false_ne_true]
  | true => rw [if_pos rfl, if_pos rfl, Int.neg_mul]

theorem IsInt.toWhole?_eq {x : Number} {k : Int} (h : x.IsInt k) : x.toWhole? = some k := by
  have htrunc := (exists_isInt_iff.1 ⟨k, h⟩).2
  rw [toWhole?, htrunc, if_pos (equals_self h.isNaN_eq), h.toInt?_eq]

/-! ## Settled powers -/

theorem oddPart_eq {odd bits : Nat} (hodd : odd % 2 = 1) (k : Nat) (hk : k ≤ bits) :
    oddPart bits (odd * 2 ^ k) = (odd, k) := by
  induction k generalizing bits with
  | zero =>
    cases bits with
    | zero => rw [oddPart, Nat.pow_zero, Nat.mul_one]
    | succ bits => rw [oddPart, Nat.pow_zero, Nat.mul_one, if_neg (by omega)]
  | succ k ih =>
    obtain ⟨bits, rfl⟩ : ∃ n, bits = n + 1 := ⟨bits - 1, by omega⟩
    have heven : odd * 2 ^ (k + 1) = 2 * (odd * 2 ^ k) := by
      rw [Nat.pow_succ']
      exact Nat.mul_left_comm odd 2 (2 ^ k)
    rw [oddPart, heven, if_pos (Nat.mul_mod_right 2 _), Nat.mul_div_cancel_left _ Nat.two_pos, ih (by omega)]

theorem five_pow_lt_iff {k : Int} (hk : 0 ≤ k) : 5 ^ k.toNat < 2 ^ 53 ↔ k ≤ 22 := by
  constructor
  · intro h
    by_contra hlarge
    have hpow : 5 ^ 23 ≤ 5 ^ k.toNat := Nat.pow_le_pow_right (by decide) (by omega)
    have hbound : 2 ^ 53 ≤ 5 ^ 23 := by decide
    omega
  · intro h
    have hpow : 5 ^ k.toNat ≤ 5 ^ 22 := Nat.pow_le_pow_right (by decide) (by omega)
    have hbound : 5 ^ 22 < 2 ^ 53 := by decide
    omega

/-- The power of ten with a whole exponent, as far as it is settled. -/
theorem settledPower?_ten {m : Magnitude} (hm : m.steps = 10 * stepsPerOne) (k : Int) :
    settledPower? false m k =
      if 342 ≤ k then some (infinity false)
      else if k < -400 then some (zero false)
      else if 0 ≤ k ∧ k ≤ 22 then some (ofNat (10 ^ k.toNat))
      else none := by
  have hplaces : stepPlaces = 1074 := rfl
  have hlog : (m.steps.log2 : Int) - stepPlaces = 3 := by
    rw [hm, log2_mul_unit stepsPerOne.eq_1 (by decide)]
    rfl
  have hodd : oddPart (1024 + stepPlaces) m.steps = (5, stepPlaces + 1) := by
    have hsteps : m.steps = 5 * 2 ^ (stepPlaces + 1) := by
      rw [hm, stepsPerOne, Nat.pow_succ']
      omega
    rw [hsteps, oddPart_eq (by decide) _ (by omega)]
  have hscale : ((stepPlaces + 1 : Nat) : Int) - stepPlaces = 1 := by omega
  simp only [settledPower?, hodd, hlog, hscale, Int.one_mul]
  by_cases hover : 342 ≤ k
  · rw [if_pos hover, if_pos (by simp; omega)]
  rw [if_neg hover, if_neg (by simp; omega)]
  by_cases hunder : k < -400
  · rw [if_pos hunder, if_pos (by simp; omega)]
  rw [if_neg hunder, if_neg (by simp; omega), if_neg (by simp; omega), if_neg (by decide)]
  by_cases hexact : 0 ≤ k ∧ k ≤ 22
  · have hvalue : 5 ^ k.toNat * 2 ^ (k + stepPlaces).toNat = 10 ^ k.toNat * stepsPerOne := by
      rw [show (k + stepPlaces).toNat = k.toNat + stepPlaces by omega, Nat.pow_add, ← Nat.mul_assoc, ← Nat.mul_pow,
        stepsPerOne]
    have hfits := (five_pow_lt_iff hexact.1).2 hexact.2
    rw [if_pos hexact, if_pos ?_, hvalue]
    · rfl
    · simp only [Bool.and_eq_true, decide_eq_true_eq]
      exact ⟨⟨hexact.1, by omega⟩, hfits⟩
  · rw [if_neg hexact, if_neg ?_]
    simp only [Bool.and_eq_true, decide_eq_true_eq, not_and]
    intro hrange hfits
    exact hexact ⟨hrange.1, (five_pow_lt_iff hrange.1).1 hfits⟩

theorem powOn_ten (platform : Number → Number → Number) {y : Number} {k : Int} (hy : y.IsInt k) :
    (ofNat 10).powOn platform y =
      if 342 ≤ k then infinity false
      else if k < -400 then zero false
      else if 0 ≤ k ∧ k ≤ 22 then ofNat (10 ^ k.toNat)
      else platform (ofNat 10) y := by
  obtain ⟨m, hten, hm⟩ := exists_ofNat_exact (n := 10) (by decide)
  have hne : m.steps ≠ 0 := by
    have := stepsPerOne_pos
    omega
  simp only [powOn, hy.toWhole?_eq, hten, if_neg hne, Bool.false_and, settledPower?_ten hm]
  split_ifs
  · exact Option.getD_some
  · exact Option.getD_some
  · exact Option.getD_some
  · exact Option.getD_none

/-! ## Powers rounded to nearest -/

theorem spacing_dvd_stepsPerOne : spacing stepsPerOne ∣ stepsPerOne := by
  obtain ⟨k, hk⟩ := exists_stepsPerOne_eq
  simpa only [Nat.one_mul] using @spacing_dvd_of_lt 1 _ k hk (by decide)

theorem ten_pow_pos (j : Nat) : 0 < 10 ^ j := Nat.pow_pos (by decide)

theorem ten_pow_le {i j : Nat} (h : i ≤ j) : 10 ^ i ≤ 10 ^ j := Nat.pow_le_pow_right (by decide) h

/-- The largest number is above 10^308. -/
theorem exists_representable : ∃ n : Nat, Representable n ∧ 10 ^ (308 : Nat) * stepsPerOne ≤ n :=
  ⟨stepLimit - 2 ^ (2045 : Nat), by decide +kernel, by decide +kernel⟩

/-- The powers of ten that are not too large are in range. -/
theorem exists_ofNat_ten_pow {j : Nat} (hj : j ≤ 308) :
    ∃ m : Magnitude, ofNat (10 ^ j) = finite false m ∧ stepsPerOne ≤ m.steps := by
  obtain ⟨n, hn, hbound⟩ := exists_representable
  have hle : 10 ^ j * stepsPerOne ≤ n * 1 := by
    rw [Nat.mul_one]
    exact (Nat.mul_le_mul_right stepsPerOne (ten_pow_le hj)).trans hbound
  obtain ⟨m, hm, hsteps⟩ := exists_ofRatio_eq (m := ⟨n, hn⟩) false Nat.one_pos hle
  refine ⟨m, hm, ?_⟩
  rw [hsteps]
  refine le_roundCount_of_le Nat.one_pos spacing_dvd_stepsPerOne ?_
  rw [Nat.mul_one]
  exact Nat.le_mul_of_pos_left stepsPerOne (ten_pow_pos j)

/-- The powers of ten that are too large are out of range. -/
theorem ofNat_ten_pow {j : Nat} (hj : 308 < j) : ofNat (10 ^ j) = infinity false := by
  obtain ⟨bits, hbits⟩ : ∃ bits : Nat, stepLimit = 2 ^ bits := ⟨_, stepLimit.eq_1⟩
  have hbound : stepLimit ≤ 10 ^ (309 : Nat) * stepsPerOne := by decide +kernel
  have hpow := ten_pow_le (by omega : 309 ≤ j)
  have hscaled := Nat.mul_le_mul_right stepsPerOne hpow
  have hreach := hbound.trans hscaled
  rw [ofNat, ofRatio, dif_neg]
  rw [hbits] at hreach ⊢
  exact Nat.not_lt.2 (two_pow_le_roundCount hreach)

/-- The number nearest to a power of ten with a whole exponent. -/
def nearestPowerOfTen (k : Int) : Number :=
  if 0 ≤ k then ofNat (10 ^ k.toNat) else ofRatio false stepsPerOne (10 ^ (-k).toNat)

/-- A platform that has powers of ten only, each rounded to nearest. -/
def nearestPower (_ y : Number) : Number := (y.toInt?.map nearestPowerOfTen).getD nan

theorem IsInt.nearestPower_eq {y : Number} {k : Int} (hy : y.IsInt k) (x : Number) :
    nearestPower x y = nearestPowerOfTen k := by
  rw [nearestPower, hy.toInt?_eq]
  rfl

/-! ## Powers of ten of a platform -/

/-- What is taken for granted: a power of ten is infinite if it is too large for the format, zero if it is too
small, and else a positive number on the right side of one. -/
structure PowersOfTen (power : Number → Number → Number) : Prop where
  overflow {y : Number} {k : Int} (hy : y.IsInt k) (hk : 308 < k) : power (ofNat 10) y = infinity false
  underflow {y : Number} {k : Int} (hy : y.IsInt k) (hk : k < -323) : power (ofNat 10) y = zero false
  large {y : Number} {k : Int} (hy : y.IsInt k) (hlow : 0 ≤ k) (hhigh : k ≤ 308) :
    ∃ m, power (ofNat 10) y = finite false m ∧ stepsPerOne ≤ m.steps
  small {y : Number} {k : Int} (hy : y.IsInt k) (hlow : -323 ≤ k) (hhigh : k < 0) :
    ∃ m, power (ofNat 10) y = finite false m ∧ m.steps ≠ 0 ∧ m.steps ≤ stepsPerOne

/-- What is settled without the platform keeps to it. -/
theorem PowersOfTen.settled {platform : Number → Number → Number} (h : PowersOfTen platform) :
    PowersOfTen (powOn platform) where
  overflow {y k} hy hk := by
    rw [powOn_ten platform hy, h.overflow hy hk, if_neg (by omega : ¬ k < -400),
      if_neg (by omega : ¬ (0 ≤ k ∧ k ≤ 22)), ite_self]
  underflow {y k} hy hk := by
    rw [powOn_ten platform hy, h.underflow hy hk, if_neg (by omega : ¬ 342 ≤ k),
      if_neg (by omega : ¬ (0 ≤ k ∧ k ≤ 22)), ite_self]
  large {y k} hy hlow hhigh := by
    rw [powOn_ten platform hy, if_neg (by omega), if_neg (by omega)]
    split
    · exact exists_ofNat_ten_pow (by omega)
    · exact h.large hy hlow hhigh
  small {y k} hy hlow hhigh := by
    rw [powOn_ten platform hy, if_neg (by omega), if_neg (by omega), if_neg (by omega)]
    exact h.small hy hlow hhigh

/-- Powers of ten rounded to nearest are such ones. -/
theorem powersOfTen_nearestPower : PowersOfTen nearestPower where
  overflow {y k} hy hk := by
    rw [hy.nearestPower_eq, nearestPowerOfTen, if_pos (by omega), ofNat_ten_pow (by omega)]
  underflow {y k} hy hk := by
    have hbound : 2 * stepsPerOne < 10 ^ (324 : Nat) := by decide +kernel
    have hpow := ten_pow_le (by omega : 324 ≤ (-k).toNat)
    have hround : roundCount stepsPerOne (10 ^ (-k).toNat) = 0 := by
      by_contra hne
      have hle := roundCount_mul_le stepsPerOne (10 ^ (-k).toNat)
      have hmul := Nat.mul_le_mul_right (10 ^ (-k).toNat) (Nat.pos_of_ne_zero hne)
      omega
    obtain ⟨m, hm, hsteps⟩ := exists_zero
    rw [hy.nearestPower_eq, nearestPowerOfTen, if_neg (by omega), hm]
    exact Magnitude.ofRatio_eq false (hround.trans hsteps.symm)
  large {y k} hy hlow hhigh := by
    rw [hy.nearestPower_eq, nearestPowerOfTen, if_pos hlow]
    exact exists_ofNat_ten_pow (by omega)
  small {y k} hy hlow hhigh := by
    have hbound : 10 ^ (323 : Nat) ≤ stepsPerOne := by decide +kernel
    have hpow := ten_pow_le (by omega : (-k).toNat ≤ 323)
    have hpos := ten_pow_pos (-k).toNat
    obtain ⟨m, hm⟩ : ∃ m : Magnitude, m.steps = roundCount stepsPerOne (10 ^ (-k).toNat) := by
      obtain ⟨one, -, hone⟩ := exists_ofNat_exact (n := 1) (by decide)
      rw [Nat.one_mul] at hone
      have hle : stepsPerOne ≤ one.steps * 10 ^ (-k).toNat := hone ▸ Nat.le_mul_of_pos_right _ hpos
      obtain ⟨m, -, hm⟩ := exists_ofRatio_eq false hpos hle
      exact ⟨m, hm⟩
    have hone : 1 ≤ m.steps := by
      rw [hm]
      exact le_roundCount_of_le hpos (by decide) (by rw [Nat.one_mul]; exact hpow.trans hbound)
    refine ⟨m, ?_, Nat.ne_of_gt hone, ?_⟩
    · rw [hy.nearestPower_eq, nearestPowerOfTen, if_neg (by omega)]
      exact Magnitude.ofRatio_eq false hm.symm
    · rw [hm]
      exact roundCount_le_of_le hpos spacing_dvd_stepsPerOne (Nat.le_mul_of_pos_right _ hpos)

end Number

end Formulary
