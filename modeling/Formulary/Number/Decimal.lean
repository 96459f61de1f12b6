import Formulary.Number.Basic

/-!
# Shortest decimals

Every decimal nearer to a magnitude than half the distance to its neighbours reads back as that
magnitude. `Magnitude.shortest` is the one with the fewest digits, and the nearest of those: it is the
point of the coarsest grid `10^e` that lies in the magnitude's rounding interval.

Intervals are measured in quarter steps, because the distance to the lower neighbour halves at a
power of two and half of that is asked for.
-/

namespace Formulary

/-- The value `digits * 10 ^ exponent`. -/
structure Decimal where
  digits : Nat
  exponent : Int
deriving DecidableEq, Repr

/-- The decimals that round to a magnitude, with the bounds in quarter steps. -/
structure RoundingInterval where
  low : Nat
  high : Nat
  /-- The bounds round to an even significand, so they belong to the interval. -/
  closed : Bool

namespace RoundingInterval

/-- A tie between two neighbours goes to the even one. -/
def of (steps : Nat) : RoundingInterval where
  low := 4 * steps - (if steps = 2 ^ (52 : Nat) * spacing steps && 1 < spacing steps then 1 else 2) * spacing steps
  high := 4 * steps + 2 * spacing steps
  closed := steps / spacing steps % 2 == 0

/-- Whether `point`, in units of a `scale`-th of a quarter step, lies in the interval. -/
def holds (interval : RoundingInterval) (scale point : Nat) : Bool :=
  if interval.closed then interval.low * scale ≤ point && point ≤ interval.high * scale
  else interval.low * scale < point && point < interval.high * scale

end RoundingInterval

/-- The multiple of `10 ^ exponent` in the rounding interval of `steps`, the nearer one if both
neighbours of the value are in it, the larger one of two equally near. -/
def gridPoint? (steps : Nat) (exponent : Int) : Option Decimal :=
  let scale := if exponent < 0 then 10 ^ (-exponent).toNat else 1
  let unit := 4 * stepsPerOne * (if exponent < 0 then 1 else 10 ^ exponent.toNat)
  let value := 4 * steps * scale
  let below := value / unit
  let interval := RoundingInterval.of steps
  let lower := interval.holds scale (below * unit)
  let upper := interval.holds scale ((below + 1) * unit)
  if upper && (!lower || unit ≤ 2 * (value % unit)) then some ⟨below + 1, exponent⟩
  else if lower then some ⟨below, exponent⟩
  else none

/-- Tries the grids `10 ^ exponent`, `10 ^ (exponent - 1)`, …; the last resort is the exact value. -/
def firstGridPoint (steps : Nat) : (grids : Nat) → (exponent : Int) → Decimal
  | 0, _ => ⟨steps * 5 ^ stepPlaces, -(stepPlaces : Int)⟩
  | grids + 1, exponent =>
    match gridPoint? steps exponent with
    | some decimal => decimal
    | none => firstGridPoint steps grids (exponent - 1)

/-- A power of ten above the value: 2^b is below 10^b, and below 10^(b/4 + 1) if b is negative. -/
def coarsestGrid (steps : Nat) : Int :=
  let bits : Int := (steps.log2 : Int) + 1 - stepPlaces
  if bits < 0 then bits / 4 + 1 else if bits < 309 then bits else 309

/-- The decimal of fewest digits that reads back as this magnitude, the nearest one of those. The
grid of 10^-324 is finer than one step, so the search ends there at the latest. -/
def Magnitude.shortest (m : Magnitude) : Decimal :=
  if m.steps = 0 then ⟨0, 0⟩
  else
    let start := coarsestGrid m.steps
    firstGridPoint m.steps (start + 325).toNat start

namespace Decimal

/-- The digits as text. -/
def digitChars (d : Decimal) : List Char := Nat.toDigits 10 d.digits

/-- The power of ten of the leading digit. -/
def leadingPower (d : Decimal) : Int := d.exponent + d.digitChars.length - 1

/-- The digits with a point at their place and no exponent. -/
def positional (d : Decimal) : List Char :=
  let digits := d.digitChars
  if d.exponent < 0 then
    let places := (-d.exponent).toNat
    let padded := List.replicate (places + 1 - digits.length) '0' ++ digits
    padded.take (padded.length - places) ++ '.' :: padded.drop (padded.length - places)
  else digits ++ List.replicate d.exponent.toNat '0'

/-- One digit before the point, and the power of ten after an `e`. -/
def scientific (d : Decimal) : List Char :=
  let fraction := d.digitChars.drop 1
  d.digitChars.take 1 ++ (if fraction.isEmpty then [] else '.' :: fraction)
    ++ 'e' :: (toString d.leadingPower).toList

end Decimal

/-- The choices that the forms of a number in text leave open. -/
structure NumberStyle where
  /-- The word for positive infinity. -/
  infinity : String
  /-- Negative zero keeps its sign. -/
  signedZero : Bool
  /-- Whole numbers end in `.0`. -/
  pointZero : Bool
  /-- Magnitudes below 10^-4 and from 10^16 on are written with an exponent. -/
  exponents : Bool

namespace Number

/-- A magnitude in the given style. -/
def formatMagnitude (style : NumberStyle) (m : Magnitude) : List Char :=
  let d := m.shortest
  if style.exponents && m.steps != 0 && (d.leadingPower < -4 || 16 ≤ d.leadingPower) then d.scientific
  else if style.pointZero && 0 ≤ d.exponent then d.positional ++ ['.', '0']
  else d.positional

/-- A number in the given style. -/
def format (style : NumberStyle) : Number → String
  | nan => "NaN"
  | infinity negative => (if negative then "-" else "") ++ style.infinity
  | finite negative m =>
    let sign := if negative && (style.signedZero || m.steps != 0) then ['-'] else []
    String.ofList (sign ++ formatMagnitude style m)

/-- Plain decimal digits, which read back as the same number. -/
def plainStyle : NumberStyle where
  infinity := "inf"
  signedZero := true
  pointZero := false
  exponents := false

/-- The form of numbers in diagnostics. -/
def diagnosticStyle : NumberStyle where
  infinity := "inf"
  signedZero := true
  pointZero := true
  exponents := true

end Number

end Formulary
