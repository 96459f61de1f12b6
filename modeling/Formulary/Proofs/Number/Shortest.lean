import Formulary.Number.Decimal
import Formulary.Number.Reading
import Mathlib.Data.List.TakeDrop
import Mathlib.Data.List.TakeWhile
import Mathlib.Tactic.Linarith
import Mathlib.Tactic.Ring

/-!
# Shortest decimals read back

`ofDecimal?_positional`: the plain decimal digits of a magnitude denote it again.

1. A ratio in the rounding interval of a representable count rounds to it (`roundCount_of_holds`):
   the spacing at the ratio is that of the count, or half of it just below a power of two.
2. Every decimal that `firstGridPoint` may return lies in the interval, also the last resort, which
   is exact (`firstGridPoint_near`).
3. The digits with the point at their place are read with the same digits and the same power of ten
   (`ofChars?_positional`).
-/

namespace Formulary

/-! ## Rounding to nearest -/

theorem roundHalfEven_eq {num den q : Nat} (hden : 0 < den) (hlow : 2 * (q * den) ≤ 2 * num + den)
    (hhigh : 2 * num ≤ 2 * (q * den) + den)
    (htie : 2 * (q * den) = 2 * num + den ∨ 2 * num = 2 * (q * den) + den → q % 2 = 0) :
    roundHalfEven num den = q := by
  have hdm : num = num / den * den + num % den := by rw [Nat.mul_comm, Nat.div_add_mod]
  have hr := Nat.mod_lt num hden
  have hwhole : num / den ≤ q := by
    by_contra hlt
    have := Nat.mul_le_mul_right den (Nat.lt_of_not_le hlt)
    rw [Nat.succ_mul] at this
    omega
  have hq : q ≤ num / den + 1 := by
    by_contra hlt
    have := Nat.mul_le_mul_right den (Nat.lt_of_not_le hlt)
    rw [Nat.succ_mul, Nat.add_mul, Nat.one_mul] at this
    omega
  simp only [roundHalfEven]
  obtain heq | heq : num / den = q ∨ num / den + 1 = q := by omega
  · rw [heq] at hdm ⊢
    split
    · rfl
    · rw [if_neg (by omega), htie (.inr (by omega)), Nat.add_zero]
  · have hmul : q * den = num / den * den + den := by rw [← heq, Nat.add_mul, Nat.one_mul]
    rw [if_neg (by omega)]
    split
    · exact heq
    · have := htie (.inl (by omega))
      omega

/-- Half a spacing around a whole number of spacings rounds to it. -/
theorem roundCount_eq {num den q : Nat} (hden : 0 < den)
    (hlow : 2 * (q * spacing (num / den) * den) ≤ 2 * num + spacing (num / den) * den)
    (hhigh : 2 * num ≤ 2 * (q * spacing (num / den) * den) + spacing (num / den) * den)
    (htie : 2 * (q * spacing (num / den) * den) = 2 * num + spacing (num / den) * den ∨
      2 * num = 2 * (q * spacing (num / den) * den) + spacing (num / den) * den → q % 2 = 0) :
    roundCount num den = q * spacing (num / den) := by
  have hgap : 0 < spacing (num / den) := Nat.two_pow_pos _
  have h : ∀ x, q * (den * x) = q * x * den := fun x => by rw [Nat.mul_comm den, Nat.mul_assoc]
  rw [roundCount, roundHalfEven_eq (Nat.mul_pos hden hgap) (by rw [h, Nat.mul_comm den]; exact hlow)
    (by rw [h, Nat.mul_comm den]; exact hhigh) (by rw [h, Nat.mul_comm den]; exact htie)]

/-! ## The rounding interval -/

theorem spacing_pos (n : Nat) : 0 < spacing n := Nat.two_pow_pos _

theorem spacing_le {n : Nat} (hn : n ≠ 0) (hdvd : spacing n ∣ n) : spacing n ≤ n :=
  Nat.le_of_dvd (Nat.pos_of_ne_zero hn) hdvd

theorem spacing_of_log2_le {n : Nat} (h : n.log2 ≤ 52) : spacing n = 1 := by
  rw [spacing, Nat.sub_eq_zero_of_le h, Nat.pow_zero]

/-- The next power of two lies at least one spacing above. -/
theorem add_spacing_le {n : Nat} (hdvd : spacing n ∣ n) :
    n + spacing n ≤ 2 ^ (n.log2 + 1) := by
  have htop : spacing n ∣ 2 ^ (n.log2 + 1) := Nat.pow_dvd_pow 2 (by omega)
  have hlt : n < 2 ^ (n.log2 + 1) := Nat.lt_log2_self
  obtain ⟨a, ha⟩ := hdvd
  obtain ⟨b, hb⟩ := htop
  have hab : a < b := Nat.lt_of_mul_lt_mul_left (a := spacing n) (by omega)
  calc n + spacing n = spacing n * (a + 1) := by rw [Nat.mul_add, ← ha, Nat.mul_one]
    _ ≤ spacing n * b := Nat.mul_le_mul_left _ hab
    _ = 2 ^ (n.log2 + 1) := hb.symm

namespace RoundingInterval

/-- The bounds of the interval, which an odd significand leaves out. -/
theorem bounds_of_holds {steps den point : Nat} (h : (of steps).holds den point = true) :
    (of steps).low * den ≤ point ∧ point ≤ (of steps).high * den ∧
      (steps / spacing steps % 2 ≠ 0 →
        (of steps).low * den < point ∧ point < (of steps).high * den) := by
  unfold holds at h
  by_cases hc : (of steps).closed
  · rw [if_pos hc] at h
    have heven : steps / spacing steps % 2 = 0 := by simpa [of] using hc
    simp only [Bool.and_eq_true, decide_eq_true_eq] at h
    exact ⟨h.1, h.2, fun hodd => absurd heven hodd⟩
  · rw [if_neg hc] at h
    simp only [Bool.and_eq_true, decide_eq_true_eq] at h
    exact ⟨Nat.le_of_lt h.1, Nat.le_of_lt h.2, fun _ => h⟩

theorem high_of (steps : Nat) : (of steps).high = 4 * steps + 2 * spacing steps := rfl

/-- Just above a finer spacing the lower bound is one quarter of a spacing down. -/
theorem low_of_fine {steps : Nat} (h : steps = 2 ^ 52 * spacing steps) (hfine : 1 < spacing steps) :
    (of steps).low = 4 * steps - spacing steps := by
  unfold of
  rw [if_pos (by simpa using ⟨h, hfine⟩), Nat.one_mul]

/-- The lower bound is one or two quarters of a spacing down. -/
theorem low_of (steps : Nat) :
    (of steps).low = 4 * steps - 2 * spacing steps ∨
      (of steps).low = 4 * steps - spacing steps := by
  by_cases h : steps = 2 ^ 52 * spacing steps ∧ 1 < spacing steps
  · exact .inr (low_of_fine h.1 h.2)
  · unfold of
    rw [if_neg (by simpa using h)]
    exact .inl rfl

/-- The exact value lies in its interval. -/
theorem holds_self {steps den : Nat} (hn : steps ≠ 0) (hdvd : spacing steps ∣ steps)
    (hden : 0 < den) : (of steps).holds den (4 * steps * den) = true := by
  have hgap := spacing_pos steps
  have hle := spacing_le hn hdvd
  have hlow : (of steps).low * den < 4 * steps * den := by
    refine Nat.mul_lt_mul_of_pos_right ?_ hden
    rcases low_of steps with h | h <;> omega
  have hhigh : 4 * steps * den < (of steps).high * den := by
    refine Nat.mul_lt_mul_of_pos_right ?_ hden
    rw [high_of]
    omega
  unfold holds
  split
  · simpa using ⟨Nat.le_of_lt hlow, Nat.le_of_lt hhigh⟩
  · simpa using ⟨hlow, hhigh⟩

end RoundingInterval

/-- The interval ends below the next power of two. -/
theorem quotient_lt {steps num den : Nat} (hdvd : spacing steps ∣ steps) (hden : 0 < den)
    (hhigh : 4 * num ≤ (RoundingInterval.of steps).high * den) :
    num / den < 2 ^ (steps.log2 + 1) := by
  have htop := add_spacing_le hdvd
  have hgap := spacing_pos steps
  rw [RoundingInterval.high_of] at hhigh
  have h : (4 * steps + 2 * spacing steps) * den < 4 * 2 ^ (steps.log2 + 1) * den :=
    Nat.mul_lt_mul_of_pos_right (by omega) hden
  rw [Nat.mul_assoc] at h
  rw [Nat.div_lt_iff_lt_mul hden]
  omega

/-- Only from a power of two does the interval reach below it. -/
theorem eq_pow_of_low_lt {steps : Nat} (hn : steps ≠ 0) (hdvd : spacing steps ∣ steps)
    (hk : 52 < steps.log2) (hlow : (RoundingInterval.of steps).low < 4 * 2 ^ steps.log2) :
    steps = 2 ^ steps.log2 ∧ 2 ^ steps.log2 = 2 ^ 52 * spacing steps := by
  have hgap := spacing_pos steps
  have hself : 2 ^ steps.log2 ≤ steps := Nat.log2_self_le hn
  have hsplit : 2 ^ steps.log2 = 2 ^ 52 * spacing steps := by
    rw [spacing, ← Nat.pow_add]
    congr 1
    omega
  have hsteps : steps < 2 ^ steps.log2 + spacing steps := by
    rcases RoundingInterval.low_of steps with h | h <;> omega
  refine ⟨?_, hsplit⟩
  obtain ⟨q, hq⟩ := hdvd
  have hq1 : q < 2 ^ 52 + 1 := by
    refine Nat.lt_of_mul_lt_mul_left (a := spacing steps) ?_
    rw [Nat.mul_add, Nat.mul_one, ← hq, Nat.mul_comm _ (2 ^ 52), ← hsplit]
    exact hsteps
  have hq2 : 2 ^ 52 ≤ q := by
    refine Nat.le_of_mul_le_mul_left (c := spacing steps) ?_ hgap
    rw [← hq, Nat.mul_comm, ← hsplit]
    exact hself
  rw [hsplit, Nat.mul_comm, show 2 ^ 52 = q by omega]
  exact hq

/-- The spacing at a ratio in the interval is that of the value, or half of it below a power of
two. -/
theorem spacing_quotient {steps num den : Nat} (hn : steps ≠ 0) (hdvd : spacing steps ∣ steps)
    (hden : 0 < den) (hlow : (RoundingInterval.of steps).low * den ≤ 4 * num)
    (hhigh : 4 * num ≤ (RoundingInterval.of steps).high * den) :
    spacing (num / den) = spacing steps ∨
      2 * spacing (num / den) = spacing steps ∧ num ≤ steps * den ∧
        (RoundingInterval.of steps).low = 4 * steps - spacing steps := by
  have hupper := quotient_lt hdvd hden hhigh
  -- where numbers lie closest the spacing is one step
  by_cases hk : steps.log2 ≤ 52
  · have hlog : (num / den).log2 ≤ 52 := by
      by_cases h0 : num / den = 0
      · rw [h0]; decide
      · have := (Nat.log2_lt h0).2 hupper
        omega
    exact .inl (by rw [spacing_of_log2_le hlog, spacing_of_log2_le hk])
  -- a ratio between the same powers of two has the same spacing; only below a power of two is it halved
  by_cases hge : 2 ^ steps.log2 ≤ num / den
  · have h0 : num / den ≠ 0 := by have := Nat.two_pow_pos steps.log2; omega
    exact .inl (by rw [spacing, spacing, (Nat.log2_eq_iff h0).2 ⟨hge, hupper⟩])
  · have hbelow : num < 2 ^ steps.log2 * den := by
      rw [← Nat.div_lt_iff_lt_mul hden]
      omega
    have hlt : (RoundingInterval.of steps).low < 4 * 2 ^ steps.log2 := by
      refine Nat.lt_of_mul_lt_mul_right (a := den) ?_
      rw [Nat.mul_assoc]
      omega
    obtain ⟨heq, hsplit⟩ := eq_pow_of_low_lt hn hdvd (by omega) hlt
    have hfine := RoundingInterval.low_of_fine (heq.trans hsplit) (Nat.one_lt_two_pow (by omega))
    have hhalf : 2 ^ steps.log2 = 2 * 2 ^ (steps.log2 - 1) := by
      rw [← Nat.pow_succ']
      congr 1
      omega
    have hge' : 2 ^ (steps.log2 - 1) ≤ num / den := by
      have hle := spacing_le hn hdvd
      have h : 4 * 2 ^ (steps.log2 - 1) * den ≤ (RoundingInterval.of steps).low * den :=
        Nat.mul_le_mul_right den (by omega)
      rw [Nat.mul_assoc] at h
      rw [Nat.le_div_iff_mul_le hden]
      omega
    have h0 : num / den ≠ 0 := by have := Nat.two_pow_pos (steps.log2 - 1); omega
    have h1 := (Nat.log2_lt h0).2 (Nat.lt_of_not_le hge)
    have h2 := (Nat.le_log2 h0).2 hge'
    refine .inr ⟨?_, by rw [← heq] at hbelow; exact Nat.le_of_lt hbelow, hfine⟩
    rw [spacing, spacing, ← Nat.pow_succ']
    congr 1
    omega

/-- **Rounding.** A ratio in the rounding interval of a representable count rounds to it. -/
theorem roundCount_of_holds {steps num den : Nat} (hn : steps ≠ 0) (hdvd : spacing steps ∣ steps)
    (hden : 0 < den) (h : (RoundingInterval.of steps).holds den (4 * num) = true) :
    roundCount num den = steps := by
  obtain ⟨hlow, hhigh, hodd⟩ := RoundingInterval.bounds_of_holds h
  have hgap := spacing_pos steps
  have hspacing := spacing_quotient hn hdvd hden hlow hhigh
  have hlowcases := RoundingInterval.low_of steps
  rw [RoundingInterval.high_of] at hhigh hodd
  generalize (RoundingInterval.of steps).low = low at hlow hodd hspacing hlowcases
  have hq : steps = steps / spacing steps * spacing steps := (Nat.div_mul_cancel hdvd).symm
  generalize steps / spacing steps = q at hq hodd
  -- the bounds with the spacing as the unit
  have hsteps : 4 * steps * den = 4 * (q * spacing steps * den) := by rw [← hq, Nat.mul_assoc]
  rw [Nat.add_mul, hsteps, Nat.mul_assoc 2] at hhigh hodd
  rcases hspacing with hgapeq | ⟨hgapeq, hbelow, hfine⟩
  · have hlow' : low * den = 4 * (q * spacing steps * den) - 2 * (spacing steps * den) ∨
        low * den = 4 * (q * spacing steps * den) - spacing steps * den := by
      rcases hlowcases with h | h <;> rw [h, Nat.sub_mul, hsteps] <;> simp [Nat.mul_assoc]
    have hround := @roundCount_eq num den q hden
    rw [hgapeq, ← hq] at hround
    rw [← hq] at hhigh hlow' hodd
    refine hround (by omega) (by omega) fun htie => ?_
    by_contra hne
    have := hodd hne
    omega
  · have hlow' : low * den = 4 * (q * spacing steps * den) - spacing steps * den := by
      rw [hfine, Nat.sub_mul, hsteps]
    have hhalf : spacing steps * den = 2 * (spacing (num / den) * den) := by
      rw [← hgapeq, Nat.mul_assoc]
    rw [hq] at hbelow
    have hwhole : q * spacing steps * den = 2 * q * spacing (num / den) * den := by
      rw [← hgapeq, ← Nat.mul_assoc, Nat.mul_comm q 2]
    have hround := @roundCount_eq num den (2 * q) hden
    rw [← hwhole] at hround
    rw [hround (by omega) (by omega) (fun _ => Nat.mul_mod_right 2 q), Nat.mul_comm 2,
      Nat.mul_assoc, hgapeq, ← hq]

/-! ## The decimal found -/

namespace Decimal

/-- The value in least steps is `numerator / denominator`. -/
def numerator (d : Decimal) : Nat := d.digits * 10 ^ d.exponent.toNat * stepsPerOne

def denominator (d : Decimal) : Nat := 10 ^ (-d.exponent).toNat

theorem denominator_pos (d : Decimal) : 0 < d.denominator := Nat.pow_pos (by decide)

/-- The decimal lies in the rounding interval of a count. -/
def Near (d : Decimal) (steps : Nat) : Prop :=
  (RoundingInterval.of steps).holds d.denominator (4 * d.numerator) = true

end Decimal

theorem gridPoint?_near {steps : Nat} {exponent : Int} {d : Decimal}
    (h : gridPoint? steps exponent = some d) : d.Near steps := by
  have hscale : (if exponent < 0 then 10 ^ (-exponent).toNat else 1) = 10 ^ (-exponent).toNat := by
    split
    · rfl
    · rw [show (-exponent).toNat = 0 by omega, Nat.pow_zero]
  have hunit : (if exponent < 0 then 1 else 10 ^ exponent.toNat) = 10 ^ exponent.toNat := by
    split
    · rw [show exponent.toNat = 0 by omega, Nat.pow_zero]
    · rfl
  have hpoint : ∀ n, n * (4 * stepsPerOne * 10 ^ exponent.toNat) =
      4 * (n * 10 ^ exponent.toNat * stepsPerOne) := fun n => by ring
  simp only [gridPoint?, hscale, hunit] at h
  split at h
  · next hc =>
    obtain rfl := Option.some.inj h
    rw [Bool.and_eq_true, hpoint] at hc
    exact hc.1
  · split at h
    · next hc =>
      obtain rfl := Option.some.inj h
      rw [hpoint] at hc
      exact hc
    · exact nomatch h

/-- As many decimal places as binary ones hold the value exactly. -/
theorem near_exact {steps places : Nat} (hn : steps ≠ 0) (hdvd : spacing steps ∣ steps)
    (hplaces : stepsPerOne = 2 ^ places) :
    Decimal.Near ⟨steps * 5 ^ places, -(places : Int)⟩ steps := by
  have hvalue : 4 * (steps * 5 ^ places * 10 ^ 0 * stepsPerOne) = 4 * steps * 10 ^ places := by
    rw [Nat.pow_zero, Nat.mul_one, hplaces, Nat.mul_assoc steps, ← Nat.mul_pow, Nat.mul_assoc]
  have h := RoundingInterval.holds_self hn hdvd (Nat.pow_pos (n := places) (Nat.succ_pos 9))
  rw [← hvalue] at h
  rw [Decimal.Near, Decimal.numerator, Decimal.denominator, Int.neg_neg, Int.toNat_natCast,
    Int.toNat_neg_natCast]
  exact h

theorem firstGridPoint_near {steps : Nat} (hn : steps ≠ 0) (hdvd : spacing steps ∣ steps)
    (grids : Nat) (exponent : Int) : (firstGridPoint steps grids exponent).Near steps := by
  induction grids generalizing exponent with
  | zero =>
    rw [firstGridPoint]
    exact near_exact hn hdvd stepsPerOne.eq_1
  | succ grids ih =>
    rw [firstGridPoint]
    split
    · next d h => exact gridPoint?_near h
    · exact ih _

theorem Magnitude.shortest_near {m : Magnitude} (hn : m.steps ≠ 0) : m.shortest.Near m.steps := by
  rw [Magnitude.shortest, if_neg hn]
  exact firstGridPoint_near hn m.representable.2 _ _

/-! ## Reading digits -/

theorem isDigit_eq (c : Char) : isDigit c = c.isDigit := by
  simp [isDigit, Char.isDigit, Char.le_def]

theorem isDigit_of_mem_toDigits {n : Nat} {c : Char} (h : c ∈ Nat.toDigits 10 n) :
    isDigit c = true := by
  rw [isDigit_eq]
  exact Nat.isDigit_of_mem_toDigits (by decide) (by decide) h

theorem ofDigitChars_lt (digits : List Char) (h : ∀ c ∈ digits, isDigit c = true) :
    Nat.ofDigitChars 10 digits 0 < 10 ^ digits.length := by
  induction digits with
  | nil => simp
  | cons c rest ih =>
    have hc : c.toNat - '0'.toNat ≤ 9 := by
      have := h c List.mem_cons_self
      simp only [isDigit, Bool.and_eq_true, decide_eq_true_eq, Char.le_def, UInt32.le_iff_toNat_le] at this
      have h9 : c.toNat ≤ 57 := this.2
      have h0 : '0'.toNat = 48 := rfl
      omega
    have hrest := ih fun c hc => h c (List.mem_cons_of_mem _ hc)
    have hmul := Nat.mul_le_mul_left (10 ^ rest.length) hc
    rw [Nat.ofDigitChars_cons, Nat.ofDigitChars_eq_ofDigitChars_zero, List.length_cons, Nat.pow_succ,
      Nat.mul_zero, Nat.zero_add]
    omega

namespace DecimalText

theorem splitSign_of_isDigit {c : Char} (h : isDigit c = true) (rest : List Char) :
    splitSign (c :: rest) = (false, c :: rest) := by
  unfold splitSign
  split
  · next heq => rw [(List.cons.inj heq).1] at h; exact absurd h (by decide)
  · next heq => rw [(List.cons.inj heq).1] at h; exact absurd h (by decide)
  · rfl

/-- Digits with a point before the last of them. -/
theorem ofChars?_append {whole fraction : List Char} (hne : whole ≠ [])
    (hwhole : ∀ c ∈ whole, isDigit c = true) (hfraction : ∀ c ∈ fraction, isDigit c = true) :
    ofChars? (whole ++ '.' :: fraction) = some ⟨false, whole, fraction, 0⟩ := by
  obtain ⟨c, rest, rfl⟩ := List.exists_cons_of_ne_nil hne
  have hsign : splitSign (c :: rest ++ '.' :: fraction) = (false, c :: rest ++ '.' :: fraction) :=
    splitSign_of_isDigit (hwhole c List.mem_cons_self) _
  have hspan : (c :: rest ++ '.' :: fraction).span isDigit = (c :: rest, '.' :: fraction) := by
    rw [List.span_eq_takeWhile_dropWhile, List.takeWhile_append_of_pos hwhole,
      List.dropWhile_append_of_pos hwhole]
    simp [show isDigit '.' = false by decide]
  have hspan' : fraction.span isDigit = (fraction, []) := by
    rw [List.span_eq_takeWhile_dropWhile, List.takeWhile_eq_self_iff.2 hfraction,
      List.dropWhile_eq_nil_iff.2 hfraction]
  simp only [ofChars?, hsign, hspan, splitFraction, hspan', exponent?]
  rfl

/-- Digits alone. -/
theorem ofChars?_digits {whole : List Char} (hne : whole ≠ [])
    (hwhole : ∀ c ∈ whole, isDigit c = true) :
    ofChars? whole = some ⟨false, whole, [], 0⟩ := by
  obtain ⟨c, rest, rfl⟩ := List.exists_cons_of_ne_nil hne
  have hsign := splitSign_of_isDigit (hwhole c List.mem_cons_self) rest
  have hspan : (c :: rest).span isDigit = (c :: rest, []) := by
    rw [List.span_eq_takeWhile_dropWhile, List.takeWhile_eq_self_iff.2 hwhole,
      List.dropWhile_eq_nil_iff.2 hwhole]
  simp only [ofChars?, hsign, hspan, splitFraction, exponent?]
  rfl

end DecimalText

namespace Decimal

theorem digitChars_ne_nil (d : Decimal) : d.digitChars ≠ [] := Nat.toDigits_ne_nil

/-- The positional form is the digits, with a point before the last of them if there are places. -/
theorem exists_positional_eq (d : Decimal) : ∃ whole fraction, whole ≠ [] ∧
    (d.positional = whole ++ '.' :: fraction ∨ d.positional = whole ∧ fraction = []) ∧
      (∀ c ∈ whole ++ fraction, isDigit c = true) ∧
      Nat.ofDigitChars 10 (whole ++ fraction) 0 = d.digits * 10 ^ d.exponent.toNat ∧
      fraction.length = (-d.exponent).toNat := by
  have hdigits : ∀ c ∈ d.digitChars, isDigit c = true := fun c hc => isDigit_of_mem_toDigits hc
  have hvalue : Nat.ofDigitChars 10 d.digitChars 0 = d.digits := Nat.ofDigitChars_ten_toDigits
  by_cases hneg : d.exponent < 0
  · -- the digits are padded so that one stands before the point
    set places := (-d.exponent).toNat with hplaces
    set padded := List.replicate (places + 1 - d.digitChars.length) '0' ++ d.digitChars with hpadded
    have hlength : places + 1 ≤ padded.length := by
      rw [hpadded, List.length_append, List.length_replicate]
      omega
    have hall : ∀ c ∈ padded, isDigit c = true := by
      intro c hc
      rcases List.mem_append.1 hc with h | h
      · rw [List.eq_of_mem_replicate h]; decide
      · exact hdigits c h
    have hpositional : d.positional = padded.take (padded.length - places) ++
        '.' :: padded.drop (padded.length - places) := by
      simp only [positional, if_pos hneg]
      rfl
    refine ⟨padded.take (padded.length - places), padded.drop (padded.length - places), ?_,
      .inl hpositional, ?_, ?_, ?_⟩
    · rw [ne_eq, ← List.length_eq_zero_iff, List.length_take]
      omega
    · rwa [List.take_append_drop]
    · rw [List.take_append_drop, hpadded, Nat.ofDigitChars_append, Nat.ofDigitChars_replicate_zero,
        Nat.mul_zero, hvalue, show d.exponent.toNat = 0 by omega, Nat.pow_zero, Nat.mul_one]
    · rw [List.length_drop]
      omega
  · have hpositional : d.positional = d.digitChars ++ List.replicate d.exponent.toNat '0' := by
      simp only [positional, if_neg hneg]
    have hall : ∀ c ∈ d.positional, isDigit c = true := by
      intro c hc
      rcases List.mem_append.1 (hpositional ▸ hc) with h | h
      · exact hdigits c h
      · rw [List.eq_of_mem_replicate h]; decide
    refine ⟨d.positional, [], ?_, .inr ⟨rfl, rfl⟩, by rwa [List.append_nil], ?_, ?_⟩
    · rw [hpositional]
      exact List.append_ne_nil_of_left_ne_nil d.digitChars_ne_nil _
    · rw [List.append_nil, hpositional, Nat.ofDigitChars_append, hvalue,
        Nat.ofDigitChars_replicate_zero, Nat.mul_comm]
    · rw [show (-d.exponent).toNat = 0 by omega]
      rfl

/-- **Reading.** The positional form is read as the digits with as many places after the point. -/
theorem ofChars?_positional (d : Decimal) : ∃ whole fraction,
    DecimalText.ofChars? d.positional = some ⟨false, whole, fraction, 0⟩ ∧
      (∀ c ∈ whole ++ fraction, isDigit c = true) ∧
      Nat.ofDigitChars 10 (whole ++ fraction) 0 = d.digits * 10 ^ d.exponent.toNat ∧
      fraction.length = (-d.exponent).toNat := by
  obtain ⟨whole, fraction, hne, hshape, hdigits, hvalue, hlength⟩ := d.exists_positional_eq
  have hwhole : ∀ c ∈ whole, isDigit c = true := fun c hc => hdigits c (List.mem_append_left _ hc)
  refine ⟨whole, fraction, ?_, hdigits, hvalue, hlength⟩
  rcases hshape with h | ⟨h, rfl⟩
  · rw [h]
    exact DecimalText.ofChars?_append hne hwhole fun c hc => hdigits c (List.mem_append_right _ hc)
  · rw [h]
    exact DecimalText.ofChars?_digits hne hwhole

end Decimal

/-! ## Reading back -/

namespace Magnitude

variable {m : Magnitude}

theorem two_le_low (hn : m.steps ≠ 0) : 2 ≤ (RoundingInterval.of m.steps).low := by
  have hle := spacing_le hn m.representable.2
  have hpos := spacing_pos m.steps
  rcases Nat.lt_or_ge 1 (spacing m.steps) with hfine | hcoarse
  · rcases RoundingInterval.low_of m.steps with h | h <;> omega
  · rcases RoundingInterval.low_of m.steps with h | h <;> omega

/-- A decimal near the magnitude is not so small that it counts as zero. -/
theorem denominator_le (hn : m.steps ≠ 0) {d : Decimal} (hd : d.Near m.steps) :
    d.denominator ≤ 2 * d.numerator := by
  obtain ⟨hlow, -, -⟩ := RoundingInterval.bounds_of_holds hd
  have := Nat.mul_le_mul_right d.denominator (two_le_low hn)
  omega

theorem ofRatio_eq {num den : Nat} (negative : Bool) (hround : roundCount num den = m.steps) :
    Number.ofRatio negative num den = .finite negative m := by
  simp only [Number.ofRatio, hround, m.representable.1, ↓reduceDIte]

theorem ofRatio_near (negative : Bool) (hn : m.steps ≠ 0) {d : Decimal} (hd : d.Near m.steps) :
    Number.ofRatio negative d.numerator d.denominator = .finite negative m :=
  ofRatio_eq negative (roundCount_of_holds hn m.representable.2 d.denominator_pos hd)

theorem zero_eq (negative : Bool) (hn : m.steps = 0) : Number.zero negative = .finite negative m :=
  ofRatio_eq negative (by rw [hn, roundCount, Nat.zero_div, Nat.one_mul,
    roundHalfEven_eq (q := 0) (spacing_pos 0) (by simp) (by simp) (fun _ => rfl), Nat.zero_mul])

end Magnitude

theorem two_mul_le_ten_pow {s k n : Nat} (hs : s = 2 ^ k) (h : k + 1 ≤ 3 * n) :
    2 * s ≤ 10 ^ n := by
  calc 2 * s = 2 ^ (k + 1) := by rw [hs, ← Nat.pow_succ']
    _ ≤ 2 ^ (3 * n) := Nat.pow_le_pow_right (by decide) h
    _ = 8 ^ n := by rw [Nat.pow_mul]
    _ ≤ 10 ^ n := Nat.pow_le_pow_left (by decide) n

/-- The reading of plain digits in terms of the decimal that they spell. -/
theorem DecimalText.value_plain {whole fraction : List Char} {d : Decimal}
    (hdigits : ∀ c ∈ whole ++ fraction, isDigit c = true)
    (hvalue : Nat.ofDigitChars 10 (whole ++ fraction) 0 = d.digits * 10 ^ d.exponent.toNat)
    (hlength : fraction.length = (-d.exponent).toNat) (hsize : d.denominator ≤ 2 * d.numerator) :
    (⟨false, whole, fraction, 0⟩ : DecimalText).value =
      Number.ofRatio false d.numerator d.denominator := by
  have hlt := ofDigitChars_lt _ hdigits
  have hpos : d.digits * 10 ^ d.exponent.toNat ≠ 0 := by
    intro h0
    have := d.denominator_pos
    rw [Decimal.numerator, h0] at hsize
    omega
  -- the value has at most as many places before its first digit as the smallest number
  have hrange : ¬ (0 - (fraction.length : Int) + ((whole ++ fraction).length : Int) < -400) := by
    intro hfar
    obtain ⟨gap, hgap, hplaces⟩ : ∃ gap, 401 ≤ gap ∧ (-d.exponent).toNat = (whole ++ fraction).length + gap :=
      ⟨_, by omega, (Nat.add_sub_of_le (by omega)).symm⟩
    have hden : d.denominator = 10 ^ (whole ++ fraction).length * 10 ^ gap := by
      rw [Decimal.denominator, hplaces, Nat.pow_add]
    have hnum : d.numerator < 10 ^ (whole ++ fraction).length * stepsPerOne := by
      rw [Decimal.numerator, ← hvalue]
      exact Nat.mul_lt_mul_of_pos_right hlt (Nat.two_pow_pos _)
    have hsteps : 2 * stepsPerOne ≤ 10 ^ gap :=
      two_mul_le_ten_pow stepsPerOne.eq_1 (by rw [stepPlaces]; omega)
    have := Nat.mul_le_mul_left (10 ^ (whole ++ fraction).length) hsteps
    rw [Nat.mul_left_comm] at this
    omega
  simp only [value]
  rw [hvalue, if_neg hpos, if_neg (by omega), if_neg hrange, hlength]
  by_cases hneg : d.exponent < 0
  · rw [if_pos (by omega), Decimal.numerator, Decimal.denominator]
    congr 2
    omega
  · rw [if_neg (by omega), Decimal.numerator, Decimal.denominator,
      show (-d.exponent).toNat = 0 by omega]
    simp

/-- **Round trip.** The plain digits of a magnitude denote it. -/
theorem Number.ofDecimal?_positional (m : Magnitude) :
    Number.ofDecimal? m.shortest.positional = some (.finite false m) := by
  obtain ⟨whole, fraction, hread, hdigits, hvalue, hlength⟩ := m.shortest.ofChars?_positional
  rw [Number.ofDecimal?, hread, Option.map_some]
  by_cases hn : m.steps = 0
  · have hzero : m.shortest.digits = 0 := by rw [Magnitude.shortest, if_pos hn]
    rw [hzero, Nat.zero_mul] at hvalue
    simp only [DecimalText.value, hvalue, ↓reduceIte]
    rw [Magnitude.zero_eq false hn]
  · have hnear := Magnitude.shortest_near hn
    rw [DecimalText.value_plain hdigits hvalue hlength (Magnitude.denominator_le hn hnear),
      Magnitude.ofRatio_near false hn hnear]

end Formulary
