import Formulary.Number.Arithmetic
import Formulary.Proofs.Number.Shortest
import Mathlib.Order.Basic

/-!
# Whole numbers

The digits of a natural number denote the number nearest to it, which is whole, and which is the
number itself below 2^53.
-/

namespace Formulary

/-- A representable count rounds to itself. -/
theorem roundCount_self {n : Nat} (hdvd : spacing n ∣ n) : roundCount n 1 = n := by
  by_cases hn : n = 0
  · rw [hn, roundCount, Nat.zero_div, Nat.one_mul,
      roundHalfEven_eq (q := 0) (spacing_pos 0) (by simp) (by simp) (fun _ => rfl), Nat.zero_mul]
  · have h := RoundingInterval.holds_self hn hdvd Nat.one_pos
    rw [Nat.mul_one] at h
    exact roundCount_of_holds hn hdvd Nat.one_pos h

/-- Rounding adds at most one spacing. -/
theorem roundCount_le (n : Nat) : roundCount n 1 ≤ n + spacing n := by
  have h := Nat.mul_le_mul_right (spacing n) (roundHalfEven_le n (1 * spacing n))
  have hdiv := Nat.div_mul_le_self n (spacing n)
  rw [Nat.one_mul, Nat.add_mul, Nat.one_mul] at h
  rw [roundCount, Nat.div_one, Nat.one_mul]
  omega

theorem unit_pos {unit k : Nat} (hunit : unit = 2 ^ k) : 0 < unit := hunit ▸ Nat.two_pow_pos k

theorem stepsPerOne_pos : 0 < stepsPerOne := unit_pos stepsPerOne.eq_1

theorem two_pow_mul_unit_le {j k unit limit : Nat} (hunit : unit = 2 ^ k) (hlimit : limit = 2 ^ (1024 + k))
    (hj : j ≤ 1024) : 2 ^ j * unit ≤ limit := by
  rw [hunit, hlimit, ← Nat.pow_add]
  exact Nat.pow_le_pow_right Nat.two_pos (Nat.add_le_add_right hj k)

/-- The powers of two up to 2^1024 are within the range. -/
theorem two_pow_mul_stepsPerOne_le {j : Nat} (hj : j ≤ 1024) : 2 ^ j * stepsPerOne ≤ stepLimit :=
  two_pow_mul_unit_le stepsPerOne.eq_1 stepLimit.eq_1 hj

theorem spacing_dvd_of_lt {n unit k : Nat} (hunit : unit = 2 ^ k) (hn : n < 2 ^ 53) :
    spacing (n * unit) ∣ n * unit := by
  rw [hunit]
  exact spacing_dvd_mul k (Nat.le_of_lt hn)

theorem log2_mul_unit {n unit k : Nat} (hunit : unit = 2 ^ k) (hn : n ≠ 0) :
    (n * unit).log2 = n.log2 + k := by
  have hpos : n * 2 ^ k ≠ 0 := Nat.mul_ne_zero hn (Nat.two_pow_pos k).ne'
  have hlow : 2 ^ (n.log2 + k) ≤ n * 2 ^ k := by
    rw [Nat.pow_add]
    exact Nat.mul_le_mul_right _ (Nat.log2_self_le hn)
  have hhigh : n * 2 ^ k < 2 ^ (n.log2 + 1 + k) := by
    rw [Nat.pow_add]
    exact Nat.mul_lt_mul_of_pos_right Nat.lt_log2_self (Nat.two_pow_pos k)
  have h1 := (Nat.le_log2 hpos).2 hlow
  have h2 := (Nat.log2_lt hpos).2 hhigh
  rw [hunit]
  omega

/-- A whole count of units rounds to a whole count of units. -/
theorem unit_dvd_roundCount {n unit k : Nat} (hunit : unit = 2 ^ k) :
    unit ∣ roundCount (n * unit) 1 := by
  by_cases hn : n < 2 ^ 53
  · rw [roundCount_self (spacing_dvd_of_lt hunit hn)]
    exact Nat.dvd_mul_left unit n
  · have hlog : 52 ≤ n.log2 := (Nat.le_log2 (by omega)).2 (by omega)
    have hspacing : unit ∣ spacing (n * unit) := by
      rw [spacing, log2_mul_unit hunit (by omega), hunit]
      exact Nat.pow_dvd_pow 2 (by omega)
    rw [roundCount, Nat.div_one]
    exact hspacing.trans (Nat.dvd_mul_left _ _)

theorem roundCount_lt {n unit k : Nat} (hunit : unit = 2 ^ k) (hn : n < 2 ^ 64) :
    roundCount (n * unit) 1 < 2 ^ (65 : Nat) * unit := by
  by_cases h0 : n * unit = 0
  · rw [h0, roundCount_self (by simp)]
    exact Nat.mul_pos (Nat.two_pow_pos 65) (unit_pos hunit)
  · have hle := roundCount_le (n * unit)
    have hspacing : spacing (n * unit) ≤ n * unit :=
      (Nat.pow_le_pow_right (by decide) (Nat.sub_le _ _)).trans (Nat.log2_self_le h0)
    have hlt : n * unit < 2 ^ 64 * unit := Nat.mul_lt_mul_of_pos_right hn (unit_pos hunit)
    omega

namespace Number

/-- The magnitude of a natural number of 64 bits. -/
theorem exists_ofNat_eq {n : Nat} (hn : n < 2 ^ 64) :
    ∃ m : Magnitude, ofNat n = .finite false m ∧ m.steps = roundCount (n * stepsPerOne) 1 := by
  have hlimit : roundCount (n * stepsPerOne) 1 < stepLimit :=
    Nat.lt_of_lt_of_le (roundCount_lt stepsPerOne.eq_1 hn) (two_pow_mul_stepsPerOne_le (by decide))
  exact ⟨⟨_, hlimit, spacing_dvd_roundCount _ _⟩, Magnitude.ofRatio_eq false rfl, rfl⟩

/-- Natural numbers of 64 bits are read as whole numbers. -/
theorem exists_ofNat_whole {n : Nat} (hn : n < 2 ^ 64) :
    ∃ m : Magnitude, ofNat n = .finite false m ∧ stepsPerOne ∣ m.steps := by
  obtain ⟨m, hm, hsteps⟩ := exists_ofNat_eq hn
  exact ⟨m, hm, hsteps ▸ unit_dvd_roundCount stepsPerOne.eq_1⟩

/-- Natural numbers of 53 bits are held exactly. -/
theorem exists_ofNat_exact {n : Nat} (hn : n < 2 ^ 53) :
    ∃ m : Magnitude, ofNat n = .finite false m ∧ m.steps = n * stepsPerOne := by
  obtain ⟨m, hm, hsteps⟩ := exists_ofNat_eq (n := n) (by omega)
  exact ⟨m, hm, by rw [hsteps, roundCount_self (spacing_dvd_of_lt stepsPerOne.eq_1 hn)]⟩

/-- Integers of 53 bits are held exactly, with their sign. -/
theorem exists_ofInt_exact {i : Int} (hi : i.natAbs < 2 ^ 53) :
    ∃ m : Magnitude, ofInt i = .finite (i < 0) m ∧ m.steps = i.natAbs * stepsPerOne := by
  obtain ⟨m, -, hsteps⟩ := exists_ofNat_exact hi
  refine ⟨m, ?_, hsteps⟩
  rw [ofInt, ← hsteps]
  exact Magnitude.ofRatio_eq _ (roundCount_self m.representable.2)

/-- They are read back. -/
theorem toInt?_ofInt {i : Int} (hi : i.natAbs < 2 ^ 53) : (ofInt i).toInt? = some i := by
  obtain ⟨m, hm, hsteps⟩ := exists_ofInt_exact hi
  rw [hm, toInt?, hsteps, Nat.mul_div_cancel _ stepsPerOne_pos]
  by_cases hneg : i < 0
  · simp only [hneg, decide_true, ↓reduceIte, Option.some.injEq]
    omega
  · simp only [hneg, decide_false, Bool.false_eq_true, ↓reduceIte, Option.some.injEq]
    omega

theorem trunc_of_dvd {m : Magnitude} (negative : Bool) (h : stepsPerOne ∣ m.steps) :
    (finite negative m).trunc = finite negative m := by
  rw [trunc, Nat.div_mul_cancel h]
  exact Magnitude.ofRatio_eq negative (roundCount_self m.representable.2)

theorem equals_self {x : Number} (h : x.isNaN = false) : x.equals x = true := by
  simp [equals, h]

theorem rank_eq_of_equals {x y : Number} (h : x.equals y = true) : x.rank = y.rank := by
  rw [equals, Bool.and_eq_true] at h
  exact eq_of_beq h.2

/-- A finite number is its own whole part if and only if it is a count of units. -/
theorem trunc_equals_iff {negative : Bool} {m : Magnitude} :
    (finite negative m).trunc.equals (finite negative m) = true ↔ stepsPerOne ∣ m.steps := by
  constructor
  · intro h
    have hdvd := unit_dvd_roundCount (n := m.steps / stepsPerOne) stepsPerOne.eq_1
    have hlimit := m.representable.1
    have hrank := rank_eq_of_equals h
    rw [trunc, ofRatio] at hrank
    split at hrank
    · have hsteps : roundCount (m.steps / stepsPerOne * stepsPerOne) 1 = m.steps := by
        cases negative with
        | false =>
          rw [rank, rank, if_neg Bool.false_ne_true, if_neg Bool.false_ne_true] at hrank
          exact Int.ofNat_inj.1 hrank
        | true =>
          rw [rank, rank, if_pos rfl, if_pos rfl] at hrank
          exact Int.ofNat_inj.1 (Int.neg_inj.1 hrank)
      rwa [hsteps] at hdvd
    · cases negative with
      | false =>
        rw [rank, rank, if_neg Bool.false_ne_true, if_neg Bool.false_ne_true] at hrank
        omega
      | true =>
        rw [rank, rank, if_pos rfl, if_pos rfl] at hrank
        omega
  · intro h
    rw [trunc_of_dvd negative h, equals_self rfl]

theorem exists_zero : ∃ m : Magnitude, zero false = .finite false m ∧ m.steps = 0 := by
  obtain ⟨m, hofNat, hsteps⟩ := exists_ofNat_exact (Nat.two_pow_pos 53)
  rw [Nat.zero_mul] at hsteps
  refine ⟨m, ?_, hsteps⟩
  rw [← hofNat, zero, ofNat, Nat.zero_mul]

theorem zero_lessOrEqual_iff {negative : Bool} {m : Magnitude} :
    (zero false).lessOrEqual (finite negative m) = true ↔ (negative = true → m.steps = 0) := by
  obtain ⟨z, hz, hsteps⟩ := exists_zero
  rw [hz]
  cases negative <;> simp [lessOrEqual, isNaN, rank, hsteps]

/-- The whole part of a natural number, which may be a negative zero. -/
theorem toInt?_of_steps {negative : Bool} {m : Magnitude} {k : Nat} (hsteps : m.steps = k * stepsPerOne)
    (hnegative : negative = true → k = 0) : (finite negative m).toInt? = some (k : Int) := by
  rw [toInt?, hsteps, Nat.mul_div_cancel k stepsPerOne_pos]
  cases negative with
  | false => rfl
  | true => rw [hnegative rfl]; rfl

/-- The digits of a natural number denote it. -/
theorem ofDecimal?_toDigits (n : Nat) : ofDecimal? (Nat.toDigits 10 n) = some (ofNat n) := by
  rw [ofDecimal?, DecimalText.ofChars?_digits Nat.toDigits_ne_nil fun c hc =>
    isDigit_of_mem_toDigits hc, Option.map_some]
  simp only [DecimalText.value, List.append_nil, Nat.ofDigitChars_ten_toDigits, List.length_nil]
  by_cases hn : n = 0
  · rw [if_pos hn, hn, ofNat, Nat.zero_mul]
    rfl
  · rw [if_neg hn, if_neg (by decide), if_neg (by omega), if_neg (by decide)]
    simp [ofNat]

end Number

end Formulary
