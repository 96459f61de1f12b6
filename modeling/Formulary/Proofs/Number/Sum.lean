import Formulary.Proofs.Number.Rounding

/-!
# Sums of whole numbers

`Number.IsInt x i` says that a number is the integer `i`, whatever its sign if it is zero. A sum that the format
holds is exact (`Number.rank_add`), so a sum of integers is the integer that it should be as far as that is a number
at all (`Number.IsInt.add`). No sum is rounded to below a power of two that it reaches (`Number.two_pow_le_abs_add`).
-/

namespace Formulary

/-- What reaches a power of two is not rounded to below it. -/
theorem two_pow_le_roundCount {n k : Nat} (h : 2 ^ k ≤ n) : 2 ^ k ≤ roundCount n 1 :=
  le_roundCount_of_le Nat.one_pos (by simpa using @spacing_dvd_mul 1 k (by decide)) (by rwa [Nat.mul_one])

namespace Number

/-! ## Sums -/

theorem exists_finite {x : Number} (h : x.isFinite = true) : ∃ negative m, x = finite negative m := by
  cases x with
  | finite negative m => exact ⟨negative, m, rfl⟩
  | nan | infinity => exact nomatch h

/-- The sign of an exact sum says whether it is below zero, unless it is zero. -/
theorem exists_add_eq {x y : Number} (hx : x.isFinite = true) (hy : y.isFinite = true) : ∃ negative,
    x.add y = ofRatio negative (x.rank + y.rank).natAbs 1 ∧
      (x.rank + y.rank ≠ 0 → negative = decide (x.rank + y.rank < 0)) := by
  obtain ⟨a, m, rfl⟩ := exists_finite hx
  obtain ⟨b, n, rfl⟩ := exists_finite hy
  refine ⟨_, rfl, fun hne => ?_⟩
  rw [if_neg hne]

theorem rank_finite (negative : Bool) (m : Magnitude) :
    (finite negative m).rank = if negative then -(m.steps : Int) else m.steps := rfl

/-- A sum that the format holds is exact. -/
theorem rank_add {x y : Number} (hx : x.isFinite = true) (hy : y.isFinite = true)
    (h : Representable (x.rank + y.rank).natAbs) :
    (x.add y).isFinite = true ∧ (x.add y).rank = x.rank + y.rank := by
  obtain ⟨negative, hadd, hnegative⟩ := exists_add_eq hx hy
  obtain ⟨m, hm⟩ : ∃ m : Magnitude, m.steps = (x.rank + y.rank).natAbs := ⟨⟨_, h⟩, rfl⟩
  rw [← hm, Magnitude.ofRatio_eq negative (roundCount_self m.representable.2)] at hadd
  rw [hadd, rank_finite, hm]
  refine ⟨rfl, ?_⟩
  by_cases hzero : x.rank + y.rank = 0
  · rw [hzero]
    cases negative <;> rfl
  · rw [hnegative hzero]
    by_cases hneg : x.rank + y.rank < 0
    · rw [decide_eq_true hneg, if_pos rfl]
      omega
    · rw [decide_eq_false hneg, if_neg Bool.false_ne_true]
      omega

/-- A sum that reaches a power of two still does when it is rounded, if only as an infinity. -/
theorem two_pow_le_abs_add {x y : Number} (hx : x.isFinite = true) (hy : y.isFinite = true) {k : Nat}
    (hk : 2 ^ k ≤ stepLimit) (h : 2 ^ k ≤ (x.rank + y.rank).natAbs) :
    ((2 ^ k : Nat) : Int) ≤ (x.add y).abs.rank := by
  obtain ⟨negative, hadd, -⟩ := exists_add_eq hx hy
  rw [hadd, ofRatio]
  split
  · exact Int.ofNat_le.2 (two_pow_le_roundCount h)
  · exact Int.ofNat_le.2 hk

theorem natAbs_rank (negative : Bool) (m : Magnitude) : (finite negative m).rank.natAbs = m.steps := by
  cases negative with
  | false => exact Int.natAbs_natCast _
  | true => exact (Int.natAbs_neg _).trans (Int.natAbs_natCast _)

theorem isNaN_abs {x : Number} (h : x.isFinite = true) : x.abs.isNaN = false := by
  obtain ⟨negative, m, rfl⟩ := exists_finite h
  rfl

theorem rank_abs {x : Number} (h : x.isFinite = true) : x.abs.rank = x.rank.natAbs := by
  obtain ⟨negative, m, rfl⟩ := exists_finite h
  rw [natAbs_rank]
  rfl

/-! ## Integers -/

/-- The number is this integer. -/
structure IsInt (x : Number) (i : Int) : Prop where
  isFinite : x.isFinite = true
  rank_eq : x.rank = i * stepsPerOne

namespace IsInt

variable {x y : Number} {i j : Int} (hx : x.IsInt i)

include hx

theorem isNaN_eq : x.isNaN = false := by
  obtain ⟨negative, m, rfl⟩ := exists_finite hx.isFinite
  rfl

theorem neg : x.neg.IsInt (-i) := by
  have hrank := hx.rank_eq
  obtain ⟨negative, m, rfl⟩ := exists_finite hx.isFinite
  refine ⟨rfl, ?_⟩
  rw [Int.neg_mul, ← hrank]
  cases negative with
  | false => rfl
  | true => exact (Int.neg_neg _).symm

theorem natAbs_rank : x.rank.natAbs = i.natAbs * stepsPerOne := by
  rw [hx.rank_eq, Int.natAbs_mul, Int.natAbs_natCast]

theorem representable : Representable (i.natAbs * stepsPerOne) := by
  have hrank := hx.natAbs_rank
  obtain ⟨negative, m, rfl⟩ := exists_finite hx.isFinite
  rw [Number.natAbs_rank] at hrank
  rw [← hrank]
  exact m.representable

theorem equals (hy : y.IsInt i) : x.equals y = true := by
  have hrank : x.rank = y.rank := hx.rank_eq.trans hy.rank_eq.symm
  obtain ⟨a, m, rfl⟩ := exists_finite hx.isFinite
  obtain ⟨b, n, rfl⟩ := exists_finite hy.isFinite
  simpa [Number.equals, isNaN] using hrank

theorem toInt?_eq : x.toInt? = some i := by
  have hsteps := hx.natAbs_rank
  have hrank := hx.rank_eq
  obtain ⟨negative, m, rfl⟩ := exists_finite hx.isFinite
  have hne : (stepsPerOne : Int) ≠ 0 := Int.natCast_ne_zero.2 stepsPerOne_pos.ne'
  rw [Number.natAbs_rank] at hsteps
  rw [toInt?, hsteps, Nat.mul_div_cancel _ stepsPerOne_pos]
  refine congrArg some (Int.eq_of_mul_eq_mul_right hne ?_)
  rw [← hrank, rank_finite, hsteps]
  cases negative with
  | false => exact (Int.natCast_mul _ _).symm
  | true => rw [if_pos rfl, if_pos rfl, Int.neg_mul, Int.natCast_mul]

theorem rank_add_eq (hy : y.IsInt j) : x.rank + y.rank = (i + j) * stepsPerOne := by
  rw [hx.rank_eq, hy.rank_eq, Int.add_mul]

theorem natAbs_rank_add (hy : y.IsInt j) : (x.rank + y.rank).natAbs = (i + j).natAbs * stepsPerOne := by
  rw [hx.rank_add_eq hy, Int.natAbs_mul, Int.natAbs_natCast]

/-- The sum of integers is their sum, if the format holds it. -/
theorem add (hy : y.IsInt j) (h : Representable ((i + j).natAbs * stepsPerOne)) : (x.add y).IsInt (i + j) := by
  rw [← hx.natAbs_rank_add hy] at h
  obtain ⟨hfinite, hrank⟩ := rank_add hx.isFinite hy.isFinite h
  exact ⟨hfinite, hrank.trans (hx.rank_add_eq hy)⟩

/-- A sum of integers that needs more than so many bits is not rounded to one that needs less. -/
theorem le_abs_add (hy : y.IsInt j) {k : Nat} (hk : k ≤ 1024) (h : 2 ^ k ≤ (i + j).natAbs) :
    ((2 ^ k * stepsPerOne : Nat) : Int) ≤ (x.add y).abs.rank := by
  have hpow : 2 ^ k * stepsPerOne = 2 ^ (k + stepPlaces) := by rw [stepsPerOne, Nat.pow_add]
  have hlimit : 2 ^ k * stepsPerOne ≤ stepLimit := two_pow_mul_stepsPerOne_le hk
  have hreach : 2 ^ k * stepsPerOne ≤ (x.rank + y.rank).natAbs := by
    rw [hx.natAbs_rank_add hy]
    exact Nat.mul_le_mul_right _ h
  rw [hpow] at hlimit hreach ⊢
  exact two_pow_le_abs_add hx.isFinite hy.isFinite hlimit hreach

end IsInt

/-- Integers of 53 bits are held. -/
theorem representable_of_lt {n : Nat} (hn : n < 2 ^ 53) : Representable (n * stepsPerOne) := by
  obtain ⟨m, -, hsteps⟩ := exists_ofNat_exact hn
  rw [← hsteps]
  exact m.representable

/-- Finite numbers that are their own whole part are integers. -/
theorem exists_isInt_iff {x : Number} : (∃ i, x.IsInt i) ↔ x.isFinite = true ∧ x.trunc = x := by
  constructor
  · rintro ⟨i, h⟩
    have hsteps := h.natAbs_rank
    obtain ⟨negative, m, rfl⟩ := exists_finite h.isFinite
    rw [natAbs_rank] at hsteps
    exact ⟨rfl, trunc_of_dvd negative (hsteps ▸ Nat.dvd_mul_left stepsPerOne _)⟩
  · rintro ⟨hfinite, htrunc⟩
    obtain ⟨negative, m, rfl⟩ := exists_finite hfinite
    obtain ⟨k, hk⟩ := trunc_equals_iff.1 (by rw [htrunc, equals_self rfl] : _ = true)
    refine ⟨if negative then -(k : Int) else k, rfl, ?_⟩
    rw [rank_finite, hk, Nat.mul_comm, Int.natCast_mul]
    split
    · exact (Int.neg_mul _ _).symm
    · rfl

end Number

end Formulary
