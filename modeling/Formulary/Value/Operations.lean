import Formulary.Error
import Formulary.Number.Power
import Formulary.Operator
import Formulary.Value.Basic

/-!
# Operations on values

The operators on two values look at their operands in this order: an error marker is the result; a
number that is not a number makes it not a number; two numeric operands are computed with; no data
beside no data or beside a numeric operand gives the empty text; what remains depends on the operator.

Sums, differences and comparisons read texts as numbers or dates. Products, quotients, remainders and
powers refuse dates before all else and read what remains loosely, so that blanks count as 0.
-/

namespace Formulary

namespace Value

/-- An operand as an operator sees it. -/
structure Operand where
  isEmpty : Bool
  isDate : Bool
  /-- Not a number if the operand has no numeric reading. -/
  number : Number

namespace Operand

def isNumeric (x : Operand) : Bool := !x.isEmpty && !x.number.isNaN

/-- The empty text, if both are empty or one is and the other is numeric. -/
def emptyText? (x y : Operand) : Option Value :=
  if (x.isEmpty && y.isEmpty) || (x.isEmpty && y.isNumeric) || (y.isEmpty && x.isNumeric) then
    some (text "")
  else none

end Operand

/-- The numeric reading in sums, differences and comparisons. -/
def strictNumber : Value → Number
  | number n => n
  | boolean b => ofBool b
  | date d => d.toNumber
  | text s => (Number.ofText? s <|> (Date.ofText? s).map Date.toNumber).getD .nan
  | empty | error _ => .nan

/-- The operand of a sum, a difference or a comparison; blanks are neither a number nor a date. -/
def strictReading (v : Value) : Operand :=
  if v.isEmpty then ⟨true, false, .nan⟩
  else if v.isBlank then ⟨false, false, .nan⟩
  else ⟨false, v.asDate?.isSome, v.strictNumber⟩

/-- The operand of a product, a quotient, a remainder or a power. -/
def looseReading (v : Value) : Operand :=
  ⟨v.isEmpty, false, if v.isEmpty then .nan else v.toNumber⟩

/-- The result that error markers and not-a-number settle alone. -/
def settled? (a b : Value) : Option Value :=
  if a.isError then some a
  else if b.isError then some b
  else if a.isNaN || b.isNaN then some (number .nan)
  else none

/-- The date of a count of milliseconds, not-a-number if there is none. -/
def ofMillis (millis : Number) : Value :=
  match Date.ofNumber? millis with
  | some d => date d
  | none => number .nan

/-- `a + b`: a date and a number make a date; what is not numeric is put together as text. -/
def add (a b : Value) : Value :=
  match settled? a b with
  | some v => v
  | none =>
    let x := a.strictReading
    let y := b.strictReading
    if x.isNumeric && y.isNumeric then
      let sum := x.number.add y.number
      if x.isDate != y.isDate then ofMillis sum else number sum
    else match x.emptyText? y with
      | some v => v
      | none =>
        if x.isEmpty then text b.toText
        else if y.isEmpty then text a.toText
        else text (a.toText ++ b.toText)

/-- The symbol in the error of a difference: U+2212. -/
def minusSign : String := "−"

/-- `a - b`: a date less a number is a date, a number less a date is an error. -/
def subtract (a b : Value) : Except FormulaError Value :=
  match settled? a b with
  | some v => .ok v
  | none =>
    let x := a.strictReading
    let y := b.strictReading
    if x.isNumeric && y.isNumeric then
      let difference := x.number.sub y.number
      match x.isDate, y.isDate with
      | true, false => .ok (ofMillis difference)
      | false, true => .error (.typeMismatch minusSign)
      | _, _ => .ok (number difference)
    else match x.emptyText? y with
      | some v => .ok v
      | none => .error (.typeMismatch minusSign)

/-- A comparison of numbers, or of texts if an operand is not numeric. -/
def compare (numeric : Number → Number → Bool) (lexical : String → String → Bool) (a b : Value) :
    Value :=
  match settled? a b with
  | some v => v
  | none =>
    let x := a.strictReading
    let y := b.strictReading
    if x.isNumeric && y.isNumeric then boolean (numeric x.number y.number)
    else (x.emptyText? y).getD (boolean (lexical a.toText b.toText))

def lessThan : Value → Value → Value := compare Number.less fun s t => s < t

def lessOrEqual : Value → Value → Value := compare Number.lessOrEqual fun s t => !(t < s)

def greaterThan (a b : Value) : Value := b.lessThan a

def greaterOrEqual (a b : Value) : Value := b.lessOrEqual a

/-- The operation on numbers of an operator that refuses dates. -/
def scaling? : BinaryOperator → Option (Number → Number → Number)
  | .multiply => some Number.mul
  | .divide => some Number.div
  | .remainder => some Number.rem
  | .power => some Number.pow
  | _ => none

/-- `*`, `/`, `%` and `^` by their symbols; every other symbol is unknown here. -/
def scale (symbol : String) (a b : Value) : Except FormulaError Value :=
  match (BinaryOperator.ofSymbol? symbol).bind scaling? with
  | none => .error (.unknownOperator symbol)
  | some operation =>
    if a.asDate?.isSome || b.asDate?.isSome then .error (.typeMismatch symbol)
    else match settled? a b with
      | some v => .ok v
      | none =>
        let x := a.looseReading
        let y := b.looseReading
        if x.isNumeric && y.isNumeric then .ok (number (operation x.number y.number))
        else match x.emptyText? y with
          | some v => .ok v
          | none => .error (.typeMismatch symbol)

/-- `+a`, the loose reading as a number. -/
def plus (a : Value) : Value := if a.isError then a else number a.toNumber

/-- `-a` -/
def negate (a : Value) : Value := if a.isError then a else number a.toNumber.neg

/-- `!a` -/
def not (a : Value) : Value := boolean !a.isTruthy

/-- `a == b`, without any coercion. -/
def equal (a b : Value) : Value := boolean (a.strictEquals b)

/-- `a != b` -/
def notEqual (a b : Value) : Value := boolean !a.strictEquals b

end Value

/-- The operator's result for two values; `&&` and `||` choose between them. -/
def BinaryOperator.apply (op : BinaryOperator) (a b : Value) : Except FormulaError Value :=
  match op with
  | .add => .ok (a.add b)
  | .subtract => a.subtract b
  | .multiply | .divide | .remainder | .power => Value.scale op.symbol a b
  | .lessThan => .ok (a.lessThan b)
  | .lessEqual => .ok (a.lessOrEqual b)
  | .greaterThan => .ok (a.greaterThan b)
  | .greaterEqual => .ok (a.greaterOrEqual b)
  | .equal | .strictEqual => .ok (a.equal b)
  | .notEqual | .strictNotEqual => .ok (a.notEqual b)
  | .and => .ok (if a.isTruthy then b else a)
  | .or => .ok (if a.isTruthy then a else b)

def UnaryOperator.apply (op : UnaryOperator) (a : Value) : Value :=
  match op with
  | .plus => a.plus
  | .negate => a.negate
  | .not => a.not

end Formulary
