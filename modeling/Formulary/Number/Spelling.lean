import Formulary.Number.Reading
import Formulary.Text.Blank

/-!
# Numbers in texts

A text denotes a number if, without the blanks at its ends, it is `Infinity` with an optional sign, a
hexadecimal number of 64 bits after `0x` or `0X`, or a decimal. Other words for numbers are screened out.
-/

namespace Formulary

def hexDigit? (c : Char) : Option Nat :=
  if '0' ≤ c ∧ c ≤ '9' then some (c.toNat - '0'.toNat)
  else if 'a' ≤ c ∧ c ≤ 'f' then some (c.toNat - 'a'.toNat + 10)
  else if 'A' ≤ c ∧ c ≤ 'F' then some (c.toNat - 'A'.toNat + 10)
  else none

/-- The value of hexadecimal digits after those read as `high`. -/
def hexValue? (high : Nat) : List Char → Option Nat
  | [] => some high
  | c :: rest => (hexDigit? c).bind fun digit => hexValue? (16 * high + digit) rest

/-- An unsigned number of 64 bits in hexadecimal; a plus sign may stand before the digits. -/
def word64? (text : List Char) : Option Nat :=
  let digits := match text with
    | '+' :: rest => rest
    | _ => text
  if digits.isEmpty then none
  else (hexValue? 0 digits).filter (· < 2 ^ (64 : Nat))

/-- The digits after the mark of a hexadecimal number. -/
def afterHexMark? : List Char → Option (List Char)
  | '0' :: 'x' :: rest | '0' :: 'X' :: rest => some rest
  | _ => none

/-- A letter that no decimal has. -/
def isWordLetter (c : Char) : Bool := c.isAlpha && c != 'e' && c != 'E'

/-- The number that a text denotes, if it does. -/
def Number.ofText? (text : String) : Option Number :=
  let chars := trimChars text.toList
  if chars.isEmpty then none
  else if chars = "Infinity".toList ∨ chars = "+Infinity".toList then some (.infinity false)
  else if chars = "-Infinity".toList then some (.infinity true)
  else match afterHexMark? chars with
    | some digits => (word64? digits).map Number.ofNat
    | none => if chars.any isWordLetter then none else Number.ofLiteral? chars

end Formulary
