import Formulary.Natural

/-!
# Numbers

A number is not-a-number, one of two infinities, or a signed magnitude. A magnitude is a whole count
of *least steps* of 2^-1074 that fits in 53 significant bits and stays below 2^1024, which is the
binary64 format said in whole numbers: equality, order and exact sums of magnitudes are those of the
natural numbers.

* `roundCount` takes a ratio of steps to the nearest representable count, ties to the even one, and
  `spacing_dvd_roundCount` says that what it returns is representable up to the range.
* `Number.rank` maps every number but not-a-number to an integer; comparison is comparison of ranks.
-/

namespace Formulary

/-- The binary places of a least step. -/
def stepPlaces : Nat := 1074

/-- Least steps in one unit. -/
def stepsPerOne : Nat := 2 ^ stepPlaces

/-- The first count of least steps that is out of range, the value 2^1024. -/
def stepLimit : Nat := 2 ^ (1024 + stepPlaces)

/-- The distance between neighbouring counts of 53 significant bits near `n`. -/
def spacing (n : Nat) : Nat := 2 ^ (n.log2 - 52)

/-- A count of least steps that the format holds. -/
def Representable (n : Nat) : Prop := n < stepLimit ∧ spacing n ∣ n

instance : DecidablePred Representable := fun n => by unfold Representable; infer_instance

/-- The whole number nearest to `num / den`, a tie going to the even one. -/
def roundHalfEven (num den : Nat) : Nat :=
  let whole := num / den
  let twice := 2 * (num % den)
  if twice < den then whole
  else if den < twice then whole + 1
  else whole + whole % 2

/-- The count of 53 significant bits nearest to `num / den`, a tie going to the even significand. -/
def roundCount (num den : Nat) : Nat :=
  let gap := spacing (num / den)
  roundHalfEven num (den * gap) * gap

theorem roundHalfEven_le (num den : Nat) : roundHalfEven num den ≤ num / den + 1 := by
  simp only [roundHalfEven]
  split
  · omega
  · split
    · omega
    · omega

theorem significand_le (num den : Nat) :
    roundHalfEven num (den * spacing (num / den)) ≤ 2 ^ (53 : Nat) := by
  have h := roundHalfEven_le num (den * spacing (num / den))
  rw [← Nat.div_div_eq_div_mul] at h
  generalize num / den = n at h ⊢
  have hlt : n < 2 ^ (n.log2 + 1) := Nat.lt_log2_self
  have hle : n < 2 ^ (53 : Nat) * spacing n := by
    refine Nat.lt_of_lt_of_le hlt ?_
    rw [spacing, ← Nat.pow_add]
    exact Nat.pow_le_pow_right (by decide) (by omega)
  have hq : n / spacing n < 2 ^ (53 : Nat) := (Nat.div_lt_iff_lt_mul (Nat.two_pow_pos _)).2 hle
  omega

/-- A significand of at most 2^53 times a power of two is representable as far as its bits go. -/
theorem spacing_dvd_mul {m : Nat} (k : Nat) (hm : m ≤ 2 ^ (53 : Nat)) :
    spacing (m * 2 ^ k) ∣ m * 2 ^ k := by
  by_cases h0 : m = 0
  · subst h0; simp
  have hpos : m * 2 ^ k ≠ 0 := Nat.mul_ne_zero h0 (Nat.pos_iff_ne_zero.1 (Nat.two_pow_pos k))
  by_cases htop : m = 2 ^ (53 : Nat)
  · subst htop
    rw [spacing, ← Nat.pow_add, Nat.log2_two_pow]
    exact Nat.pow_dvd_pow 2 (by omega)
  · have hlog : (m * 2 ^ k).log2 < 53 + k := by
      rw [Nat.log2_lt hpos, Nat.pow_add]
      exact Nat.mul_lt_mul_of_pos_right (by omega) (Nat.two_pow_pos k)
    exact Nat.dvd_trans (Nat.pow_dvd_pow 2 (by omega)) (Nat.dvd_mul_left _ _)

theorem spacing_dvd_roundCount (num den : Nat) :
    spacing (roundCount num den) ∣ roundCount num den :=
  spacing_dvd_mul _ (significand_le num den)

/-- A representable count of least steps. -/
structure Magnitude where
  /-- The value in units of 2^-1074. -/
  steps : Nat
  representable : Representable steps
deriving DecidableEq

/-- A binary64 number; all not-a-numbers are one value. -/
inductive Number where
  | nan
  | infinity (negative : Bool)
  | finite (negative : Bool) (magnitude : Magnitude)
deriving DecidableEq

namespace Number

/-- The number nearest to `num / den` least steps, an infinity from 2^1024 on. -/
def ofRatio (negative : Bool) (num den : Nat) : Number :=
  if h : roundCount num den < stepLimit then
    .finite negative ⟨roundCount num den, h, spacing_dvd_roundCount num den⟩
  else .infinity negative

def ofNat (n : Nat) : Number := ofRatio false (n * stepsPerOne) 1

def ofInt (i : Int) : Number := ofRatio (i < 0) (i.natAbs * stepsPerOne) 1

def zero (negative : Bool) : Number := ofRatio negative 0 1

instance : Inhabited Number := ⟨zero false⟩

def isNaN : Number → Bool
  | nan => true
  | _ => false

@[simp] theorem isNaN_ofRatio (negative : Bool) (num den : Nat) : (ofRatio negative num den).isNaN = false := by
  rw [ofRatio]
  split <;> rfl

def isFinite : Number → Bool
  | finite .. => true
  | _ => false

/-- Both zeros are zero. -/
def isZero : Number → Bool
  | finite _ m => m.steps == 0
  | _ => false

/-- The place of a number in the order; the infinities take the first places out of range. -/
def rank : Number → Int
  | nan => 0
  | infinity negative => if negative then -(stepLimit : Int) else stepLimit
  | finite negative m => if negative then -(m.steps : Int) else m.steps

/-- Equality of values: not-a-number differs from all, the two zeros are equal. -/
def equals (x y : Number) : Bool := !x.isNaN && !y.isNaN && x.rank == y.rank

def less (x y : Number) : Bool := !x.isNaN && !y.isNaN && x.rank < y.rank

def lessOrEqual (x y : Number) : Bool := !x.isNaN && !y.isNaN && x.rank ≤ y.rank

def neg : Number → Number
  | nan => nan
  | infinity negative => infinity !negative
  | finite negative m => finite (!negative) m

def abs : Number → Number
  | nan => nan
  | infinity _ => infinity false
  | finite _ m => finite false m

/-- The whole part, toward zero, of a finite number. -/
def toInt? : Number → Option Int
  | finite negative m =>
    let whole : Int := (m.steps / stepsPerOne : Nat)
    some (if negative then -whole else whole)
  | _ => none

end Number

end Formulary
