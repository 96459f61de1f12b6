import Formulary.Calendar.Civil
import Formulary.Number.Reading
import Formulary.Text.Blank

/-!
# Dates

A date is a count of milliseconds since the start of 1970 in universal time. Dates take part in
arithmetic through that count. A text names a date in one of two layouts:

* `YYYY-M[M]-D[D]`, then optionally `T` or a space and `H[H]:MM[:SS[.f[f[f]]]]`, then optionally `Z`;
* `M[M]/D[D]/YYYY`.
-/

namespace Formulary

/-- A moment of the years -262143 to 262142. -/
structure Date where
  millis : Int
  inRange : -8334601228800000 ≤ millis ∧ millis ≤ 8210266876799999
deriving DecidableEq

namespace Date

def ofMillis? (millis : Int) : Option Date :=
  if h : -8334601228800000 ≤ millis ∧ millis ≤ 8210266876799999 then some ⟨millis, h⟩ else none

/-- The largest count that a number may have to stand for a date: 10^8 days. -/
def millisLimit : Number := .ofNat 8640000000000000

/-- The date of a count of milliseconds, whose fraction is dropped. -/
def ofNumber? (millis : Number) : Option Date :=
  if millis.abs.lessOrEqual millisLimit then millis.toInt?.bind ofMillis? else none

def toNumber (date : Date) : Number := .ofInt date.millis

/-! ## Reading -/

/-- A date and a time of day as they are written. -/
structure Fields where
  day : CivilDay
  hour : Nat
  minute : Nat
  second : Nat
  milli : Nat
deriving DecidableEq

def millisPerDay : Int := 86400000

/-- The date that the fields name, if there is such a day and such a time. -/
def ofFields? (f : Fields) : Option Date :=
  if f.day.Exists ∧ f.hour ≤ 23 ∧ f.minute ≤ 59 ∧ f.second ≤ 59 then
    ofMillis? (f.day.toDayNumber * millisPerDay
      + (((f.hour * 60 + f.minute) * 60 + f.second) * 1000 + f.milli : Nat))
  else none

/-- Takes all digits off the front, if their number is as wanted. -/
def takeDigits? (fewest most : Nat) (text : List Char) : Option (List Char × List Char) :=
  let (digits, rest) := text.span isDigit
  if fewest ≤ digits.length ∧ digits.length ≤ most then some (digits, rest) else none

def takeNumber? (fewest most : Nat) (text : List Char) : Option (Nat × List Char) :=
  (takeDigits? fewest most text).map fun (digits, rest) => (Nat.ofDigitChars 10 digits 0, rest)

def takeChar? (c : Char) : List Char → Option (List Char)
  | [] => none
  | first :: rest => if first = c then some rest else none

/-- A fraction of a second in milliseconds: `.5` is 500 and `.05` is 50. -/
def takeMilli? : List Char → Option (Nat × List Char)
  | '.' :: rest => do
    let (digits, rest) ← takeDigits? 1 3 rest
    some (Nat.ofDigitChars 10 digits 0 * 10 ^ (3 - digits.length), rest)
  | rest => some (0, rest)

def takeSecond? : List Char → Option (Nat × Nat × List Char)
  | ':' :: rest => do
    let (second, rest) ← takeNumber? 2 2 rest
    let (milli, rest) ← takeMilli? rest
    some (second, milli, rest)
  | rest => some (0, 0, rest)

/-- The time of day after a date, midnight if there is none. -/
def takeTime? (day : CivilDay) : List Char → Option (Fields × List Char)
  | c :: rest =>
    if c = 'T' ∨ c = ' ' then do
      let (hour, rest) ← takeNumber? 1 2 rest
      let rest ← takeChar? ':' rest
      let (minute, rest) ← takeNumber? 2 2 rest
      let (second, milli, rest) ← takeSecond? rest
      some (⟨day, hour, minute, second, milli⟩, rest)
    else some (⟨day, 0, 0, 0, 0⟩, c :: rest)
  | [] => some (⟨day, 0, 0, 0, 0⟩, [])

/-- The layout that starts with the year. -/
def yearFirst? (text : List Char) : Option Fields := do
  let (year, rest) ← takeNumber? 4 4 text
  let rest ← takeChar? '-' rest
  let (month, rest) ← takeNumber? 1 2 rest
  let rest ← takeChar? '-' rest
  let (day, rest) ← takeNumber? 1 2 rest
  let (fields, rest) ← takeTime? ⟨year, month, day⟩ rest
  if rest = [] ∨ rest = ['Z'] then some fields else none

/-- The layout that ends with the year. -/
def yearLast? (text : List Char) : Option Fields := do
  let (month, rest) ← takeNumber? 1 2 text
  let rest ← takeChar? '/' rest
  let (day, rest) ← takeNumber? 1 2 rest
  let rest ← takeChar? '/' rest
  let (year, rest) ← takeNumber? 4 4 rest
  if rest = [] then some ⟨⟨year, month, day⟩, 0, 0, 0, 0⟩ else none

/-- The date that a text names; blanks around it do not count. -/
def ofText? (text : String) : Option Date :=
  let chars := trimChars text.toList
  (yearFirst? chars <|> yearLast? chars).bind ofFields?

/-! ## Writing -/

/-- Decimal digits with zeros in front up to a width. -/
def paddedDigits (width n : Nat) : List Char :=
  let digits := Nat.toDigits 10 n
  List.replicate (width - digits.length) '0' ++ digits

/-- A year has four digits, and a sign where it is negative or has more digits. -/
def yearChars (year : Int) : List Char :=
  let digits := paddedDigits 4 year.natAbs
  if year < 0 then '-' :: digits else if 9999 < year then '+' :: digits else digits

def toFields (date : Date) : Fields :=
  let time := (date.millis % millisPerDay).toNat
  { day := .ofDayNumber (date.millis / millisPerDay)
    hour := time / 3600000
    minute := time / 60000 % 60
    second := time / 1000 % 60
    milli := time % 1000 }

/-- The text `YYYY-MM-DDTHH:MM:SS.mmmZ`. -/
def toText (date : Date) : String :=
  let f := date.toFields
  String.ofList (yearChars f.day.year ++ '-' :: paddedDigits 2 f.day.month
    ++ '-' :: paddedDigits 2 f.day.day ++ 'T' :: paddedDigits 2 f.hour
    ++ ':' :: paddedDigits 2 f.minute ++ ':' :: paddedDigits 2 f.second
    ++ '.' :: paddedDigits 3 f.milli ++ ['Z'])

end Date

end Formulary
