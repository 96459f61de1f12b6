import Formulary.Error
import Formulary.Expr.Basic

/-!
# Diagnostics of formula texts

Where a text stops being a formula and what could have stood there.
-/

namespace Formulary

/-- What the grammar asks for at a place. -/
inductive Expected where
  | expression
  | number
  | colon
  | closeParen
  | endOfInput
  /-- The quote that ends a text or a name. -/
  | closing (quote : Char)
  /-- An operator of two equal characters. -/
  | doubled (c : Char)
deriving DecidableEq, Repr

def Expected.describe : Expected → String
  | expression => "expression"
  | number => "number"
  | colon => "':'"
  | closeParen => "')'"
  | endOfInput => "end of input"
  | closing quote => String.ofList ("closing ".toList ++ [quote])
  | doubled c => String.ofList ['\'', c, c, '\'']

inductive ParseFault where
  | unexpectedToken (found : String) (expected : Expected)
  | unexpectedEnd (expected : Expected)
  | tooDeep
deriving DecidableEq, Repr

/-- A fault and the byte offset at which it shows. -/
structure ParseError where
  fault : ParseFault
  offset : Nat
deriving DecidableEq, Repr

namespace ParseError

def message (error : ParseError) : String :=
  let what := match error.fault with
    | .unexpectedToken found expected =>
      "expected " ++ expected.describe ++ ", found '" ++ found ++ "'"
    | .unexpectedEnd expected => "expected " ++ expected.describe ++ ", found end of input"
    | .tooDeep => "expression nests deeper than " ++ toString Expr.maxDepth ++ " levels"
  what ++ " at offset " ++ toString error.offset

/-- What a formula with this text reports. -/
def toFormulaError (error : ParseError) : FormulaError :=
  match error.fault with
  | .unexpectedToken found _ => .malformed (.unexpected found)
  | .unexpectedEnd _ => .malformed .incomplete
  | .tooDeep => .tooDeep

end ParseError

end Formulary
