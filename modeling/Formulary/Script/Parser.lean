import Formulary.Expr.Basic
import Formulary.Number.Arithmetic
import Formulary.Script.Basic
import Formulary.Script.Lexeme

/-!
# From code to scripts

From the loosest to the tightest:

    conditional    or ('?' expression ':' expression)?
    or, and        left-associative chains
    equality       a left-associative chain of '==', '===', '!=', '!=='
    prefixed       '!' prefixed | primary
    primary        literal | '(' expression ')' | call

Calls are those of the runtime, each with its own number of arguments, and `var` and `call`, which ask
the context. An expression and the operand of `!` nest one level deeper than what holds them.
-/

namespace Formulary

namespace Script

/-- Reads from the front of the remaining tokens. -/
abbrev Reader (α : Type) := List Lexeme → Except SyntaxFault (α × List Lexeme)

namespace Reader

/-- The next token; there is none after `finish`. -/
def next : List Lexeme → Lexeme
  | lexeme :: _ => lexeme
  | [] => ⟨.finish, 0⟩

/-- Moves past the next token, but not past `finish`. -/
def advance : List Lexeme → List Lexeme
  | ⟨.finish, offset⟩ :: rest => ⟨.finish, offset⟩ :: rest
  | _ :: rest => rest
  | [] => []

/-- The fault of a next token that is not what was wanted. -/
def unexpected (wanted : Wanted) (lexemes : List Lexeme) : SyntaxFault :=
  .invalidScript (next lexemes).offset (.unexpected wanted (next lexemes).token)

/-- Moves past a token that must come next. -/
def expect (token : Token) (wanted : Wanted) (lexemes : List Lexeme) :
    Except SyntaxFault (List Lexeme) :=
  if (next lexemes).token = token then .ok (advance lexemes) else .error (unexpected wanted lexemes)

/-- A text that must come next. -/
def expectText : Reader String
  | ⟨.text s, _⟩ :: rest => .ok (s, rest)
  | lexemes => .error (unexpected .text lexemes)

/-- An aggregate index that must come next: a whole number that is not negative, of 64 bits at most. -/
def expectIndex (lexemes : List Lexeme) : Except SyntaxFault (Nat × List Lexeme) :=
  match lexemes with
  | ⟨.number n, _⟩ :: rest =>
    match n.toInt? with
    | some i =>
      if n.trunc.equals n ∧ (Number.zero false).lessOrEqual n then .ok (min i.toNat (2 ^ (64 : Nat) - 1), rest)
      else .error (unexpected .index lexemes)
    | none => .error (unexpected .index lexemes)
  | _ => .error (unexpected .index lexemes)

/-- The operator of an equality token. -/
def equality? : Token → Option BinaryOperator
  | .equal => some .equal
  | .strictEqual => some .strictEqual
  | .notEqual => some .notEqual
  | .strictNotEqual => some .strictNotEqual
  | _ => none

def and? : Token → Option BinaryOperator
  | .and => some .and
  | _ => none

def or? : Token → Option BinaryOperator
  | .or => some .or
  | _ => none

/-- Goes on with a chain after its part `left`; `fuel` bounds the number of operators. -/
def chainFrom (operator? : Token → Option BinaryOperator) (operand : Reader Script) :
    (fuel : Nat) → (left : Script) → Reader Script
  | 0, left, lexemes => .ok (left, lexemes)
  | fuel + 1, left, lexemes =>
    match operator? (next lexemes).token with
    | none => .ok (left, lexemes)
    | some op => do
      let (right, lexemes) ← operand (advance lexemes)
      chainFrom operator? operand fuel (.binary op left right) lexemes

/-- A left-associative chain of operands. -/
def chain (fuel : Nat) (operator? : Token → Option BinaryOperator) (operand : Reader Script) :
    Reader Script := fun lexemes => do
  let (first, lexemes) ← operand lexemes
  chainFrom operator? operand fuel first lexemes

/-- What follows each of the commas that come next. -/
def afterCommas {α : Type} (item : Reader α) : (fuel : Nat) → List α → Reader (List α)
  | 0, items, lexemes => .ok (items, lexemes)
  | fuel + 1, items, lexemes =>
    if (next lexemes).token = .comma then do
      let (one, lexemes) ← item (advance lexemes)
      afterCommas item fuel (items ++ [one]) lexemes
    else .ok (items, lexemes)

/-- Two expressions with a comma between them. -/
def pair (expression : Reader Script) : Reader (Script × Script) := fun lexemes => do
  let (left, lexemes) ← expression lexemes
  let lexemes ← expect .comma .comma lexemes
  let (right, lexemes) ← expression lexemes
  .ok ((left, right), lexemes)

/-- The operator that a call of the runtime with two arguments stands for. -/
def operation? : String → Option BinaryOperator
  | "add" => some .add
  | "subtract" => some .subtract
  | "less_than" => some .lessThan
  | "less_than_or_equal" => some .lessEqual
  | "greater_than" => some .greaterThan
  | "greater_than_or_equal" => some .greaterEqual
  | _ => none

/-- The operator that a call of the runtime with one argument stands for. -/
def conversion? : String → Option UnaryOperator
  | "plus" => some .plus
  | "negate" => some .negate
  | _ => none

/-- The arguments of a call after its opening parenthesis. -/
def callBody (fuel : Nat) (expression : Reader Script) (name : String) : Reader Script :=
  fun lexemes =>
    if name = "var" then do
      let (variableName, lexemes) ← expectText lexemes
      let (indices, lexemes) ← afterCommas expectIndex fuel [] lexemes
      .ok (.variable variableName indices, lexemes)
    else if name = "call" then do
      let (function, lexemes) ← expectText lexemes
      let (args, lexemes) ← afterCommas expression fuel [] lexemes
      .ok (.call function args, lexemes)
    else if name = "binary_operator" then do
      let (symbol, lexemes) ← expectText lexemes
      let lexemes ← expect .comma .comma lexemes
      let ((left, right), lexemes) ← pair expression lexemes
      .ok (.scale symbol left right, lexemes)
    else match operation? name, conversion? name with
      | some op, _ => do
        let ((left, right), lexemes) ← pair expression lexemes
        .ok (.binary op left right, lexemes)
      | none, some op => do
        let (operand, lexemes) ← expression lexemes
        .ok (.unary op operand, lexemes)
      | none, none => .error (.invalidScript (next lexemes).offset (.unknownFunction name))

/-- A call after its name. -/
def callOf (fuel : Nat) (expression : Reader Script) (name : String) : Reader Script :=
  fun lexemes => do
    let lexemes ← expect .open .open lexemes
    let (script, lexemes) ← callBody fuel expression name lexemes
    let lexemes ← expect .close .close lexemes
    .ok (script, lexemes)

/-- The value that a word stands for alone. -/
def constant? : String → Option Value
  | "true" => some (.boolean true)
  | "false" => some (.boolean false)
  | "NaN" => some (.number .nan)
  | "Infinity" => some (.number (.infinity false))
  | _ => none

def primary (fuel : Nat) (expression : Reader Script) : Reader Script := fun lexemes =>
  match lexemes with
  | ⟨.number n, _⟩ :: rest => .ok (.literal (.number n), rest)
  | ⟨.minus, _⟩ :: ⟨.number n, _⟩ :: rest => .ok (.literal (.number n.neg), rest)
  | ⟨.minus, _⟩ :: rest =>
    if (next rest).token = .word "Infinity" then
      .ok (.literal (.number (.infinity true)), advance rest)
    else .error (unexpected .number rest)
  | ⟨.text s, _⟩ :: rest => .ok (.literal (.text s), rest)
  | ⟨.word name, _⟩ :: rest =>
    match constant? name with
    | some value => .ok (.literal value, rest)
    | none => callOf fuel expression name rest
  | ⟨.open, _⟩ :: rest => do
    let (inner, lexemes) ← expression rest
    let lexemes ← expect .close .close lexemes
    .ok (inner, lexemes)
  | _ => .error (unexpected .expression lexemes)

/-- An operand of the tightest chain, given readers of what nests one level deeper. -/
def operand (fuel : Nat) (prefixed expression : Reader Script) : Reader Script := fun lexemes =>
  if (next lexemes).token = .bang then do
    let (inner, lexemes) ← prefixed (advance lexemes)
    .ok (.unary .not inner, lexemes)
  else primary fuel expression lexemes

/-- The chains of all levels over operands of the tightest. -/
def chains (fuel : Nat) (operand : Reader Script) : Reader Script :=
  chain fuel or? (chain fuel and? (chain fuel equality? operand))

/-- The branches of a conditional, given a reader of what nests one level deeper. -/
def branches (fuel : Nat) (prefixed expression : Reader Script) : Reader Script := fun lexemes => do
  let (condition, lexemes) ← chains fuel (operand fuel prefixed expression) lexemes
  if (next lexemes).token = .question then do
    let (whenTrue, lexemes) ← expression (advance lexemes)
    let lexemes ← expect .colon .colon lexemes
    let (whenFalse, lexemes) ← expression lexemes
    .ok (.conditional condition whenTrue whenFalse, lexemes)
  else .ok (condition, lexemes)

mutual

/-- The operand of `!`, where so many levels of nesting are left. -/
def nestedOperand (fuel : Nat) : (nesting : Nat) → Reader Script
  | 0, _ => .error .tooDeep
  | nesting + 1, lexemes =>
    operand fuel (nestedOperand fuel nesting) (nestedExpression fuel nesting) lexemes

/-- An expression, where so many levels of nesting are left. -/
def nestedExpression (fuel : Nat) : (nesting : Nat) → Reader Script
  | 0, _ => .error .tooDeep
  | nesting + 1, lexemes =>
    branches fuel (nestedOperand fuel nesting) (nestedExpression fuel nesting) lexemes

end

end Reader

/-- The script that tokens spell with at most so many levels of nesting. -/
def ofLexemes (nesting : Nat) (lexemes : List Lexeme) : Except SyntaxFault Script := do
  let (script, rest) ← Reader.nestedExpression lexemes.length nesting lexemes
  if (Reader.next rest).token = .finish then .ok script
  else .error (Reader.unexpected .finish rest)

/-- The nesting that a code may use; generated code needs two levels for each level of its tree. -/
def maxNesting : Nat := 2 * Expr.maxDepth + 2

/-- The script that a code spells. -/
def ofCode (code : String) : Except FormulaError Script :=
  match (lexemes code).bind (ofLexemes maxNesting) with
  | .ok script => .ok script
  | .error fault => .error (.malformed fault)

end Script

end Formulary
