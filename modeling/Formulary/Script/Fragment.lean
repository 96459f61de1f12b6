import Formulary.Number.Decimal

/-!
# Fragments of code

How texts, numbers, variables and calls are spelled in generated code.
-/

namespace Formulary

namespace Script

/-- A character inside a quoted text of a code. -/
def quoteChar : Char → List Char
  | '"' => ['\\', '"']
  | '\\' => ['\\', '\\']
  | '\n' => ['\\', 'n']
  | '\r' => ['\\', 'r']
  | '\t' => ['\\', 't']
  | c => [c]

/-- A text as a literal. -/
def textCode (text : String) : String :=
  String.ofList ('"' :: text.toList.flatMap quoteChar ++ ['"'])

/-- Numbers in code are plain decimals with the words `NaN` and `Infinity`. -/
def numberStyle : NumberStyle where
  infinity := "Infinity"
  signedZero := true
  pointZero := false
  exponents := false

def numberCode (n : Number) : String := n.format numberStyle

/-- Each part after a comma. -/
def commaParts (parts : List String) : String := String.join (parts.map (", " ++ ·))

/-- Reads a variable inside the given aggregate calls: `var("name", i, j)`. -/
def variableCode (name : String) (indices : List Nat) : String :=
  "var(" ++ textCode name ++ commaParts (indices.map toString) ++ ")"

/-- Calls a function with arguments given as code: `call("name", a, b)`. -/
def callCode (name : String) (args : List String) : String :=
  "call(" ++ textCode name ++ commaParts args ++ ")"

end Script

end Formulary
