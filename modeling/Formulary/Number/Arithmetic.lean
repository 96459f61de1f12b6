import Formulary.Number.Basic

/-!
# Arithmetic

Every operation is the exact one followed by one rounding to nearest. Sums and remainders of
magnitudes are sums and remainders of counts; products, quotients and roots round a ratio of counts.
-/

namespace Formulary

namespace Number

/-- An exact zero sum is negative only if both terms are. -/
def add : Number → Number → Number
  | nan, _ | _, nan => nan
  | infinity a, infinity b => if a == b then infinity a else nan
  | infinity a, finite .. => infinity a
  | finite .., infinity b => infinity b
  | x@(finite a _), y@(finite b _) =>
    let sum := x.rank + y.rank
    ofRatio (if sum = 0 then a && b else sum < 0) sum.natAbs 1

def sub (x y : Number) : Number := x.add y.neg

def mul : Number → Number → Number
  | nan, _ | _, nan => nan
  | infinity a, infinity b => infinity (a != b)
  | infinity a, finite b m | finite b m, infinity a =>
    if m.steps = 0 then nan else infinity (a != b)
  | finite a m, finite b n => ofRatio (a != b) (m.steps * n.steps) stepsPerOne

/-- A number over zero is infinite, zero over zero is not a number. -/
def div : Number → Number → Number
  | nan, _ | _, nan => nan
  | infinity _, infinity _ => nan
  | infinity a, finite b _ => infinity (a != b)
  | finite a _, infinity b => zero (a != b)
  | finite a m, finite b n =>
    if n.steps = 0 then
      if m.steps = 0 then nan else infinity (a != b)
    else ofRatio (a != b) (m.steps * stepsPerOne) n.steps

/-- The exact remainder of the quotient truncated toward zero; it has the dividend's sign. -/
def rem : Number → Number → Number
  | nan, _ | _, nan => nan
  | infinity _, _ => nan
  | x@(finite ..), infinity _ => x
  | finite a m, finite _ n =>
    if n.steps = 0 then nan else ofRatio a (m.steps % n.steps) 1

/-- The whole part of the root decides together with one further bit, which says that the root is not
whole: both lie far below the last place kept. -/
def sqrt : Number → Number
  | nan => nan
  | infinity negative => if negative then nan else infinity false
  | x@(finite negative m) =>
    if m.steps = 0 then x
    else if negative then nan
    else
      let square := m.steps * stepsPerOne
      let root := Nat.sqrt square
      ofRatio false (2 * root + (if root * root = square then 0 else 1)) 2

/-- The nearest whole number, a half going away from zero. -/
def round : Number → Number
  | finite negative m =>
    let whole := m.steps / stepsPerOne
    let up := stepsPerOne ≤ 2 * (m.steps % stepsPerOne)
    ofRatio negative ((if up then whole + 1 else whole) * stepsPerOne) 1
  | x => x

/-- The whole part, toward zero. -/
def trunc : Number → Number
  | finite negative m => ofRatio negative (m.steps / stepsPerOne * stepsPerOne) 1
  | x => x

/-- The smaller of two, the second of equals; not-a-number gives way. -/
def min (x y : Number) : Number := if x.isNaN || y.lessOrEqual x then y else x

/-- The larger of two, the second of equals; not-a-number gives way. -/
def max (x y : Number) : Number := if x.isNaN || x.lessOrEqual y then y else x

/-- Sums start from negative zero, the neutral element of addition. -/
def sum (xs : List Number) : Number := xs.foldl add (zero true)

end Number

end Formulary
