import Formulary.Proofs.Number.Whole
import Mathlib.Tactic.Ring

/-!
# Bounds of a rounding

Rounding to nearest never passes a count that the format holds (`roundCount_le_of_le`, `le_roundCount_of_le`), and
at most doubles what it rounds (`roundCount_mul_le`).
-/

namespace Formulary

theorem roundHalfEven_le_of_le {num den c : Nat} (hden : 0 < den) (h : num ≤ c * den) :
    roundHalfEven num den ≤ c := by
  have hdiv : num / den * den + num % den = num := Nat.div_add_mod' num den
  rcases Nat.lt_or_ge (num / den) c with hlt | hge
  · exact (roundHalfEven_le num den).trans hlt
  · have hmul := Nat.mul_le_mul_right den hge
    have hwhole : num / den = c := by
      refine Nat.le_antisymm ?_ hge
      exact Nat.div_le_of_le_mul (by rwa [Nat.mul_comm] at h)
    simp only [roundHalfEven]
    rw [if_pos (by omega), hwhole]

theorem le_roundHalfEven (num den : Nat) : num / den ≤ roundHalfEven num den := by
  simp only [roundHalfEven]
  split
  · exact Nat.le_refl _
  · split
    · exact Nat.le_succ _
    · exact Nat.le_add_right _ _

theorem roundHalfEven_mul_le (num den : Nat) : roundHalfEven num den * den ≤ 2 * num := by
  have hdiv : num / den * den + num % den = num := Nat.div_add_mod' num den
  simp only [roundHalfEven]
  split
  · omega
  · have hup : (num / den + 1) * den ≤ 2 * num := by
      rw [Nat.succ_mul]
      omega
    split
    · exact hup
    · exact (Nat.mul_le_mul_right den (by omega)).trans hup

theorem spacing_dvd_spacing {n n' : Nat} (h : n ≤ n') : spacing n ∣ spacing n' := by
  have hlog : n.log2 ≤ n'.log2 := by
    rcases Nat.eq_zero_or_pos n with rfl | hpos
    · simp
    · exact (Nat.le_log2 (by omega)).2 ((Nat.log2_self_le (by omega)).trans h)
  exact Nat.pow_dvd_pow 2 (by omega)

/-- A rounding does not pass a count that the format holds. -/
theorem roundCount_le_of_le {num den n : Nat} (hden : 0 < den) (hdvd : spacing n ∣ n) (h : num ≤ n * den) :
    roundCount num den ≤ n := by
  have hquotient : num / den ≤ n := Nat.div_le_of_le_mul (by rwa [Nat.mul_comm] at h)
  obtain ⟨c, hc⟩ := (spacing_dvd_spacing hquotient).trans hdvd
  have hgap := spacing_pos (num / den)
  generalize hspacing : spacing (num / den) = gap at hc hgap
  have hnum : num ≤ c * (den * gap) := by
    calc num ≤ n * den := h
      _ = c * (den * gap) := by rw [hc]; ring
  calc roundCount num den = roundHalfEven num (den * gap) * gap := by rw [roundCount, hspacing]
    _ ≤ c * gap := Nat.mul_le_mul_right gap (roundHalfEven_le_of_le (Nat.mul_pos hden hgap) hnum)
    _ = n := by rw [hc, Nat.mul_comm]

theorem le_roundCount_of_le {num den n : Nat} (hden : 0 < den) (hdvd : spacing n ∣ n) (h : n * den ≤ num) :
    n ≤ roundCount num den := by
  have hquotient : n ≤ num / den := (Nat.le_div_iff_mul_le hden).2 h
  rcases Nat.eq_zero_or_pos n with rfl | hpos
  · exact Nat.zero_le _
  -- the largest power of two up to the quotient, or the count itself, is a whole number of its spacings
  obtain ⟨r, hr, hle, hdvd'⟩ : ∃ r, n ≤ r ∧ r ≤ num / den ∧ spacing (num / den) ∣ r := by
    have hlog := (Nat.le_log2 (by omega)).2 ((Nat.log2_self_le (by omega : n ≠ 0)).trans hquotient)
    rcases Nat.lt_or_eq_of_le hlog with hlt | heq
    · refine ⟨2 ^ (num / den).log2, ?_, Nat.log2_self_le (by omega), Nat.pow_dvd_pow 2 (by omega)⟩
      exact Nat.lt_log2_self.le.trans (Nat.pow_le_pow_right (by decide) hlt)
    · exact ⟨n, Nat.le_refl n, hquotient, by rw [spacing, ← heq]; exact hdvd⟩
  have hgap := spacing_pos (num / den)
  generalize hspacing : spacing (num / den) = gap at hdvd' hgap
  obtain ⟨c, rfl⟩ := hdvd'
  have hc : c ≤ num / (den * gap) := by
    rw [← Nat.div_div_eq_div_mul, Nat.le_div_iff_mul_le hgap, Nat.mul_comm]
    exact hle
  calc n ≤ gap * c := hr
    _ = c * gap := Nat.mul_comm gap c
    _ ≤ roundHalfEven num (den * gap) * gap := Nat.mul_le_mul_right gap (hc.trans (le_roundHalfEven _ _))
    _ = roundCount num den := by rw [roundCount, hspacing]

/-- A rounding at most doubles. -/
theorem roundCount_mul_le (num den : Nat) : roundCount num den * den ≤ 2 * num := by
  have h := roundHalfEven_mul_le num (den * spacing (num / den))
  rwa [← Nat.mul_assoc, Nat.mul_right_comm] at h

theorem roundCount_zero {den : Nat} (hden : 0 < den) : roundCount 0 den = 0 :=
  Nat.le_zero.1 (roundCount_le_of_le hden (by decide) (Nat.zero_le _))

/-- What the format holds it holds twice, up to the range. -/
theorem spacing_dvd_double {n : Nat} (hdvd : spacing n ∣ n) : spacing (2 * n) ∣ 2 * n := by
  rcases Nat.eq_zero_or_pos n with rfl | hpos
  · simp
  · have hlog : (2 * n).log2 = n.log2 + 1 := by
      have h := @log2_mul_unit n 2 1 rfl (by omega)
      rwa [Nat.mul_comm] at h
    rcases Nat.lt_or_ge n.log2 52 with hsmall | hlarge
    · rw [spacing_of_log2_le (by omega)]
      exact Nat.one_dvd _
    · have hspacing : spacing (2 * n) = 2 * spacing n := by
        rw [spacing, spacing, hlog, ← Nat.pow_succ']
        congr 1
        omega
      rw [hspacing]
      exact Nat.mul_dvd_mul_left 2 hdvd

end Formulary
