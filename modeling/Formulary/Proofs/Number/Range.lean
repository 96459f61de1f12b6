import Formulary.Number.Arithmetic
import Formulary.Proofs.Number.Sum

/-!
# What stays in range

The product with a factor of at most one and the quotient by a divisor of at least one are finite
(`Number.isFinite_mul`, `Number.isFinite_div`), and so is the nearest whole number (`Number.exists_round_eq`).
-/

namespace Formulary

/-- For proofs in which the size of the power does not matter. -/
theorem exists_stepsPerOne_eq : ∃ k : Nat, stepsPerOne = 2 ^ k := ⟨_, stepsPerOne.eq_1⟩

namespace Number

variable {m n : Magnitude} (a b : Bool)

theorem isFinite_ofRatio (negative : Bool) {num den : Nat} :
    (ofRatio negative num den).isFinite = true ↔ roundCount num den < stepLimit := by
  rw [ofRatio]
  split
  · next h => simp [isFinite, h]
  · next h => simp [isFinite, h]

/-- A ratio of at most a count that is held is a finite number of at most so many steps. -/
theorem exists_ofRatio_eq (negative : Bool) {num den : Nat} (hden : 0 < den) (h : num ≤ m.steps * den) :
    ∃ r : Magnitude, ofRatio negative num den = finite negative r ∧ r.steps = roundCount num den := by
  have hle := roundCount_le_of_le hden m.representable.2 h
  exact ⟨⟨_, hle.trans_lt m.representable.1, spacing_dvd_roundCount num den⟩, Magnitude.ofRatio_eq _ rfl, rfl⟩

theorem mul_finite : (finite a m).mul (finite b n) = ofRatio (a != b) (m.steps * n.steps) stepsPerOne := rfl

theorem div_finite (hn : n.steps ≠ 0) :
    (finite a m).div (finite b n) = ofRatio (a != b) (m.steps * stepsPerOne) n.steps := if_neg hn

theorem div_zero (hm : m.steps = 0) (hn : n.steps = 0) : (finite a m).div (finite b n) = nan := by
  rw [div, if_pos hn, if_pos hm]

/-- The product with a factor of at most one is finite. -/
theorem isFinite_mul (hn : n.steps ≤ stepsPerOne) : ((finite a m).mul (finite b n)).isFinite = true := by
  obtain ⟨r, hr, -⟩ := exists_ofRatio_eq (m := m) (a != b) stepsPerOne_pos (Nat.mul_le_mul_left m.steps hn)
  rw [mul_finite, hr]
  rfl

/-- The quotient by a divisor of at least one is finite. -/
theorem isFinite_div (hn : stepsPerOne ≤ n.steps) : ((finite a m).div (finite b n)).isFinite = true := by
  have hpos : 0 < n.steps := stepsPerOne_pos.trans_le hn
  obtain ⟨r, hr, -⟩ := exists_ofRatio_eq (m := m) (a != b) hpos (Nat.mul_le_mul_left m.steps hn)
  rw [div_finite a b hpos.ne', hr]
  rfl

/-- A number with a fraction has fewer than 53 bits before it. -/
theorem stepsPerOne_dvd_or_lt (m : Magnitude) : stepsPerOne ∣ m.steps ∨ m.steps / stepsPerOne < 2 ^ 52 := by
  obtain ⟨k, hk⟩ := exists_stepsPerOne_eq
  refine or_iff_not_imp_right.2 fun hlarge => ?_
  have hge : 2 ^ (52 + k) ≤ m.steps := by
    rw [Nat.pow_add, ← hk]
    exact (Nat.le_div_iff_mul_le stepsPerOne_pos).1 (Nat.not_lt.1 hlarge)
  have hne : m.steps ≠ 0 := by
    have := Nat.two_pow_pos (52 + k)
    omega
  have hlog := (Nat.le_log2 hne).2 hge
  rw [hk]
  exact (Nat.pow_dvd_pow 2 (by omega)).trans m.representable.2

/-- The nearest whole number is finite and at most twice as large. -/
theorem exists_round_eq (m : Magnitude) :
    ∃ r : Magnitude, (finite a m).round = finite a r ∧ r.steps ≤ 2 * m.steps := by
  have hsplit : m.steps / stepsPerOne * stepsPerOne + m.steps % stepsPerOne = m.steps := Nat.div_add_mod' _ _
  obtain ⟨whole, hwhole⟩ : ∃ whole, whole = if stepsPerOne ≤ 2 * (m.steps % stepsPerOne) then
      m.steps / stepsPerOne + 1 else m.steps / stepsPerOne := ⟨_, rfl⟩
  have hround : (finite a m).round = ofRatio a (whole * stepsPerOne) 1 := by
    rw [hwhole]
    simp only [round]
  have hdouble : whole * stepsPerOne ≤ 2 * m.steps := by
    rw [hwhole]
    split
    · rw [Nat.succ_mul]
      omega
    · omega
  have hheld : Representable (whole * stepsPerOne) := by
    rcases stepsPerOne_dvd_or_lt m with hdvd | hlt
    · have heq : whole * stepsPerOne = m.steps := by
        rw [hwhole, Nat.mod_eq_zero_of_dvd hdvd, if_neg (Nat.not_le.2 stepsPerOne_pos), Nat.div_mul_cancel hdvd]
      rw [heq]
      exact m.representable
    · refine representable_of_lt ?_
      rw [hwhole]
      split <;> omega
  refine ⟨⟨_, hheld⟩, ?_, hdouble⟩
  rw [hround]
  exact Magnitude.ofRatio_eq a (roundCount_self hheld.2)

end Number

end Formulary
