import Formulary.Number.Arithmetic

/-!
# Powers

A power with a whole exponent is settled in exact arithmetic where its value is representable, or is
so large or so small that only the range decides. Every other power is the platform's, which is within
one unit in the last place but not always the nearest number.
-/

namespace Formulary

namespace Magnitude

/-- The encoding of a magnitude: the exponent field above 52 bits of significand. -/
def toBits (m : Magnitude) : Nat :=
  let gap := m.steps.log2 - 52
  if m.steps < 2 ^ (52 : Nat) then m.steps
  else (gap + 1) * 2 ^ (52 : Nat) + (m.steps / 2 ^ gap - 2 ^ (52 : Nat))

end Magnitude

namespace Number

/-- The encoding in 64 bits. -/
def toBits : Number → UInt64
  | nan => 0x7ff8000000000000
  | infinity negative => (if negative then 0x8000000000000000 else 0) + 0x7ff0000000000000
  | finite negative m => (if negative then 0x8000000000000000 else 0) + m.toBits.toUInt64

/-- The number encoded by 64 bits. -/
def ofBits (bits : UInt64) : Number :=
  let word := bits.toNat
  let negative := 2 ^ (63 : Nat) ≤ word
  let field := word / 2 ^ (52 : Nat) % 2 ^ (11 : Nat)
  let low := word % 2 ^ (52 : Nat)
  if field = 2047 then (if low = 0 then infinity negative else nan)
  else if field = 0 then ofRatio negative low 1
  else ofRatio negative ((low + 2 ^ (52 : Nat)) * 2 ^ (field - 1)) 1

/-- The platform's power function. -/
def platformPower (x y : Number) : Number :=
  ofBits (Float.pow (Float.ofBits x.toBits) (Float.ofBits y.toBits)).toBits

/-- The largest odd divisor of `n` and the power of two beside it, by at most `bits` halvings. -/
def oddPart : (bits n : Nat) → Nat × Nat
  | 0, n => (n, 0)
  | bits + 1, n =>
    if n % 2 = 0 then
      let (odd, twos) := oddPart bits (n / 2)
      (odd, twos + 1)
    else (n, 0)

/-- The power of a positive magnitude where it is exact or beyond the range. With `m = odd * 2 ^ k`
and `2 ^ top ≤ m < 2 ^ (top + 1)`, the power `y` lies beyond the range if `top * y` does, and it is
representable if `odd ^ y` fits the significand. -/
def settledPower? (negative : Bool) (m : Magnitude) (y : Int) : Option Number :=
  let (odd, twos) := oddPart (1024 + stepPlaces) m.steps
  let top : Int := (m.steps.log2 : Int) - stepPlaces
  let scale : Int := ((twos : Int) - stepPlaces) * y
  if 0 < top && 1024 ≤ top * y then some (.infinity negative)
  else if 0 < top && top * y < -1200 then some (zero negative)
  else if scale < -(stepPlaces : Int) || 1024 < scale then none
  else if odd = 1 then some (ofRatio negative (2 ^ (scale + stepPlaces).toNat) 1)
  else if 0 ≤ y && y ≤ 64 && odd ^ y.toNat < 2 ^ (53 : Nat) then
    some (ofRatio negative (odd ^ y.toNat * 2 ^ (scale + stepPlaces).toNat) 1)
  else none

/-- The exponent as a whole number. -/
def toWhole? (x : Number) : Option Int :=
  if x.trunc.equals x then x.toInt? else none

/-- `x` to the power `y`, where the powers that are not settled are those of `platform`. -/
def powOn (platform : Number → Number → Number) (x y : Number) : Number :=
  let settled? := match x, y.toWhole? with
    | finite negative m, some exponent =>
      if m.steps = 0 then none
      else settledPower? (negative && exponent % 2 == 1) m exponent
    | _, _ => none
  settled?.getD (platform x y)

/-- `x` to the power `y`. -/
def pow : Number → Number → Number := powOn platformPower

end Number

end Formulary
