import Formulary.Calendar.Date
import Formulary.Number.Decimal
import Formulary.Number.Spelling

/-!
# Values

What formulas compute with, and the readings of a value that involve no second one: as a number, as a
date, as a truth value, as text.
-/

namespace Formulary

/-- The mark that a failed evaluation leaves as its value. -/
inductive ErrorMarker where
  | null
  | divisionByZero
  | value
  | reference
  | name
  | number
  | notAvailable
deriving DecidableEq, Repr

namespace ErrorMarker

def all : List ErrorMarker :=
  [null, divisionByZero, value, reference, name, number, notAvailable]

def toText : ErrorMarker → String
  | null => "#NULL!"
  | divisionByZero => "#DIV/0!"
  | value => "#VALUE!"
  | reference => "#REF!"
  | name => "#NAME?"
  | number => "#NUM!"
  | notAvailable => "#N/A"

/-- The capital of a character, as far as the texts of markers need it: besides the letters of ASCII,
only the dotless i has a capital that occurs in them. -/
def capital (c : Char) : Char := if c = 'ı' then 'I' else c.toUpper

/-- The marker of a text, in capitals or not. -/
def ofText? (text : String) : Option ErrorMarker :=
  all.find? fun marker => marker.toText.toList == text.toList.map capital

end ErrorMarker

/-- An operand or a result. -/
inductive Value where
  /-- No data, as in a blank cell. -/
  | empty
  | boolean (b : Bool)
  | number (n : Number)
  | text (s : String)
  | date (d : Date)
  | error (marker : ErrorMarker)
deriving DecidableEq

namespace Value

instance : Inhabited Value := ⟨empty⟩

/-- The empty text counts as no data. -/
def isEmpty : Value → Bool
  | empty => true
  | text s => s.isEmpty
  | _ => false

/-- A text of blanks only, with at least one. -/
def isBlank : Value → Bool
  | text s => !s.isEmpty && isBlankText s
  | _ => false

def marker? : Value → Option ErrorMarker
  | error marker => some marker
  | _ => none

def isError (v : Value) : Bool := v.marker?.isSome

def isNaN : Value → Bool
  | number n => n.isNaN
  | _ => false

/-- Dates, and texts that name one. -/
def asDate? : Value → Option Date
  | date d => some d
  | text s => Date.ofText? s
  | _ => none

def ofBool (b : Bool) : Number := .ofNat (if b then 1 else 0)

/-- The loose reading as a number: no data and blanks are 0, a date is its count of milliseconds, and
what denotes no number is not a number. -/
def toNumber : Value → Number
  | empty => .ofNat 0
  | boolean b => ofBool b
  | number n => n
  | text s => if isBlankText s then .ofNat 0 else (Number.ofText? s).getD .nan
  | date d => d.toNumber
  | error _ => .nan

def isTruthy : Value → Bool
  | empty => false
  | boolean b => b
  | number n => !n.isZero && !n.isNaN
  | text s => !s.isEmpty
  | date _ | error _ => true

/-- Equality of kind and content; numbers compare by value. -/
def strictEquals : Value → Value → Bool
  | empty, empty => true
  | boolean a, boolean b => a == b
  | number a, number b => a.equals b
  | text a, text b => a == b
  | date a, date b => a == b
  | error a, error b => a == b
  | _, _ => false

/-- Numbers in texts are plain decimals; zero has no sign. -/
def numberStyle : NumberStyle where
  infinity := "Infinity"
  signedZero := false
  pointZero := false
  exponents := false

def toText : Value → String
  | empty => ""
  | boolean b => if b then "true" else "false"
  | number n => n.format numberStyle
  | text s => s
  | date d => d.toText
  | error marker => marker.toText

end Value

end Formulary
