import Formulary.Catalog
import Formulary.Script.Token

/-!
# Errors of formulas

Errors are causes; `FormulaError.message` words them. The wording of a malformed formula comes from a
message catalog, that of all others is fixed.
-/

namespace Formulary

/-- How many arguments a function takes. -/
structure Arity where
  fewest : Nat
  /-- No bound if absent. -/
  most : Option Nat
deriving DecidableEq, Repr

namespace Arity

def accepts (arity : Arity) (count : Nat) : Bool :=
  arity.fewest ≤ count && arity.most.all (count ≤ ·)

def describe (arity : Arity) : String :=
  match arity.most with
  | some most =>
    if most = arity.fewest then toString most else toString arity.fewest ++ " to " ++ toString most
  | none => "at least " ++ toString arity.fewest

end Arity

/-- Why a text is no formula, or a tree or a code cannot be run. -/
inductive SyntaxFault where
  | unexpected (found : String)
  | incomplete
  | tooDeep
  | unknownOperator (symbol : String)
  /-- A generated code with a fault at a byte offset. -/
  | invalidScript (offset : Nat) (fault : Script.Fault)
deriving DecidableEq

def SyntaxFault.message (catalog : Catalog) : SyntaxFault → String
  | unexpected found => catalog.wording "formula.syntax.found" [found]
  | incomplete => catalog.wording "formula.syntax.end" []
  | tooDeep => catalog.wording "formula.syntax.depth" []
  | unknownOperator symbol => catalog.wording "formula.syntax.operator" [symbol]
  | invalidScript offset fault =>
    catalog.wording "formula.script.invalid" [toString offset, fault.describe]

/-- Why a formula has no value. -/
inductive FormulaError where
  | malformed (fault : SyntaxFault)
  /-- Operands that an operator cannot take. -/
  | typeMismatch (operator : String)
  | unknownVariable (name : String)
  | unknownFunction (name : String)
  | argumentCount (function : String) (expected : Arity) (actual : Nat)
  /-- A failure that a context or a function reports in its own words. -/
  | evaluation (text : String)
deriving DecidableEq

namespace FormulaError

def tooDeep : FormulaError := malformed .tooDeep

def unknownOperator (symbol : String) : FormulaError := malformed (.unknownOperator symbol)

def message (catalog : Catalog) : FormulaError → String
  | malformed fault => fault.message catalog
  | typeMismatch operator => "Type error: invalid operands for '" ++ operator ++ "'"
  | unknownVariable name => "Unknown variable: " ++ name
  | unknownFunction name => "Unknown function: " ++ name
  | argumentCount function expected actual =>
    "Wrong number of arguments for " ++ function ++ ": expected " ++ expected.describe ++ ", got "
      ++ toString actual
  | evaluation text => "Evaluation error: " ++ text

end FormulaError

end Formulary
