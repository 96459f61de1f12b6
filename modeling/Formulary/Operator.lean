/-!
# Operators

The operators of formulas and their symbols. Trees hold symbols; a symbol that names no operator is an
error only where the tree is evaluated or compiled.
-/

namespace Formulary

inductive BinaryOperator where
  | add
  | subtract
  | multiply
  | divide
  | remainder
  | power
  | lessThan
  | lessEqual
  | greaterThan
  | greaterEqual
  | equal
  | strictEqual
  | notEqual
  | strictNotEqual
  | and
  | or
deriving DecidableEq, Repr

namespace BinaryOperator

def all : List BinaryOperator :=
  [add, subtract, multiply, divide, remainder, power, lessThan, lessEqual, greaterThan, greaterEqual,
    equal, strictEqual, notEqual, strictNotEqual, and, or]

def symbol : BinaryOperator → String
  | add => "+"
  | subtract => "-"
  | multiply => "*"
  | divide => "/"
  | remainder => "%"
  | power => "^"
  | lessThan => "<"
  | lessEqual => "<="
  | greaterThan => ">"
  | greaterEqual => ">="
  | equal => "=="
  | strictEqual => "==="
  | notEqual => "!="
  | strictNotEqual => "!=="
  | and => "&&"
  | or => "||"

def ofSymbol? (symbol : String) : Option BinaryOperator := all.find? (·.symbol == symbol)

theorem ofSymbol?_symbol (op : BinaryOperator) : ofSymbol? op.symbol = some op := by
  cases op <;> decide

end BinaryOperator

inductive UnaryOperator where
  /-- Reads its operand as a number. -/
  | plus
  | negate
  | not
deriving DecidableEq, Repr

namespace UnaryOperator

def all : List UnaryOperator := [plus, negate, not]

def symbol : UnaryOperator → String
  | plus => "+"
  | negate => "-"
  | not => "!"

def ofSymbol? (symbol : String) : Option UnaryOperator := all.find? (·.symbol == symbol)

theorem ofSymbol?_symbol (op : UnaryOperator) : ofSymbol? op.symbol = some op := by
  cases op <;> decide

end UnaryOperator

end Formulary
