import Formulary.Number.Basic

/-!
# Reading decimals

`DecimalText.ofChars?` splits a text by the grammar

    sign? (digits ('.' digits?)? | '.' digits) (('e' | 'E') sign? digits)?

and `DecimalText.value` is the number nearest to what the parts say. A text whose power of ten is far
outside the range is settled by its size, so that no large power is formed. `Number.ofLiteral?` also reads
the words for infinity and not-a-number.
-/

namespace Formulary

def isDigit (c : Char) : Bool := '0' ≤ c && c ≤ '9'

/-- The parts of a decimal text. -/
structure DecimalText where
  negative : Bool
  whole : List Char
  fraction : List Char
  exponent : Int
deriving DecidableEq

namespace DecimalText

/-- Takes one sign off the front; `true` is minus. -/
def splitSign : List Char → Bool × List Char
  | '-' :: rest => (true, rest)
  | '+' :: rest => (false, rest)
  | rest => (false, rest)

/-- The exponent part, which is all of the text: nothing, or `e`, a sign and at least one digit. -/
def exponent? : List Char → Option Int
  | [] => some 0
  | c :: rest =>
    if c == 'e' || c == 'E' then
      let (negative, digits) := splitSign rest
      if digits.isEmpty || !digits.all isDigit then none
      else
        let size : Int := (Nat.ofDigitChars 10 digits 0 : Nat)
        some (if negative then -size else size)
    else none

/-- The digits after the point, if there is one, and the rest. -/
def splitFraction : List Char → List Char × List Char
  | '.' :: rest => rest.span isDigit
  | rest => ([], rest)

def ofChars? (text : List Char) : Option DecimalText :=
  let (negative, unsigned) := splitSign text
  let (whole, afterWhole) := unsigned.span isDigit
  let (fraction, afterFraction) := splitFraction afterWhole
  if whole.isEmpty && fraction.isEmpty then none
  else (exponent? afterFraction).map fun exponent => ⟨negative, whole, fraction, exponent⟩

/-- The number nearest to the decimal's value. -/
def value (text : DecimalText) : Number :=
  let digits := text.whole ++ text.fraction
  let size := Nat.ofDigitChars 10 digits 0
  let power := text.exponent - text.fraction.length
  if size = 0 then .zero text.negative
  else if 400 < power then .infinity text.negative
  else if power + digits.length < -400 then .zero text.negative
  else if power < 0 then .ofRatio text.negative (size * stepsPerOne) (10 ^ (-power).toNat)
  else .ofRatio text.negative (size * 10 ^ power.toNat * stepsPerOne) 1

/-- The exponent at the front of a longer text: a mark, a sign and the digits after them, as far as
the text goes on so. -/
def takeExponent : List Char → List Char
  | c :: rest =>
    if c = 'e' ∨ c = 'E' then
      match rest with
      | sign :: digits =>
        if sign = '+' ∨ sign = '-' then c :: sign :: digits.takeWhile isDigit
        else c :: rest.takeWhile isDigit
      | [] => [c]
    else []
  | [] => []

end DecimalText

/-- The number that a decimal text denotes, if it is one. -/
def Number.ofDecimal? (text : List Char) : Option Number :=
  (DecimalText.ofChars? text).map DecimalText.value

/-- The number that a word stands for, which is `inf`, `infinity` or `nan` in letters of any case after an
optional sign. -/
def Number.ofWord? (text : List Char) : Option Number :=
  let (negative, letters) := DecimalText.splitSign text
  let word := letters.map Char.toLower
  if word = "inf".toList ∨ word = "infinity".toList then some (.infinity negative)
  else if word = "nan".toList then some .nan
  else none

/-- The number that a text denotes, be it a decimal or a word. -/
def Number.ofLiteral? (text : List Char) : Option Number := ofDecimal? text <|> ofWord? text

end Formulary
