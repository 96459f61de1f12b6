import Formulary.Source.Token

/-!
# From tokens to expressions

From the loosest to the tightest:

    conditional    or ('?' conditional ':' conditional)?
    or … product   left-associative chains of the operators of one level of `levels`
    prefixed       ('+' | '-' | '!') prefixed | power
    power          primary ('^' prefixed)?
    primary        number | text | boolean | name | name '(' arguments? ')' | '(' conditional ')'

A conditional, the operand of a prefix and an exponent nest one level deeper than what holds them, and
nesting is bounded. Chains do not nest, so the depth of the finished tree is checked as well.
-/

namespace Formulary

namespace Parser

/-- Reads from the front of the remaining tokens. -/
abbrev Reader (α : Type) := List Lexeme → Except ParseError (α × List Lexeme)

/-- The operators of the chains, the loosest level first. -/
def levels : List (List BinaryOperator) := [
  [.or],
  [.and],
  [.equal, .strictEqual, .notEqual, .strictNotEqual],
  [.lessThan, .lessEqual, .greaterThan, .greaterEqual],
  [.add, .subtract],
  [.multiply, .divide, .remainder]]

/-- The operator of the next token, if it is one of those. -/
def nextOperator? (operators : List BinaryOperator) : List Lexeme → Option BinaryOperator
  | ⟨.operator op, _, _, _⟩ :: _ => if operators.contains op then some op else none
  | _ => none

/-- The prefix operator of the next token, if it is one. -/
def nextPrefix? : List Lexeme → Option UnaryOperator
  | ⟨.operator .add, _, _, _⟩ :: _ => some .plus
  | ⟨.operator .subtract, _, _, _⟩ :: _ => some .negate
  | ⟨.bang, _, _, _⟩ :: _ => some .not
  | _ => none

def isNext (token : Token) : List Lexeme → Bool
  | lexeme :: _ => lexeme.token == token
  | [] => false

section

variable (ending : Ending)

/-- The byte offset of the next token. -/
def offset : List Lexeme → Nat
  | lexeme :: _ => lexeme.offset
  | [] => match ending with
    | .finish offset => offset
    | .fault error => error.offset

/-- The fault of a next token that is not what was expected. -/
def unexpected (expected : Expected) : List Lexeme → ParseError
  | lexeme :: _ => ⟨.unexpectedToken lexeme.written expected, lexeme.offset⟩
  | [] => ⟨.unexpectedEnd expected, offset ending []⟩

def tooDeep {α : Type} : Reader α := fun lexemes => .error ⟨.tooDeep, offset ending lexemes⟩

/-- Moves on to a token that must be readable: a lexical fault there is reported now. -/
def arrive (lexemes : List Lexeme) : Except ParseError (List Lexeme) :=
  match lexemes, ending with
  | [], .fault error => .error error
  | _, _ => .ok lexemes

/-- Moves past the next token. -/
def advance (lexemes : List Lexeme) : Except ParseError (List Lexeme) := arrive ending lexemes.tail

/-- Moves past a token that must come next. -/
def expect (token : Token) (expected : Expected) (lexemes : List Lexeme) :
    Except ParseError (List Lexeme) :=
  if isNext token lexemes then advance ending lexemes else .error (unexpected ending expected lexemes)

/-- Goes on with a chain after its part `left`; `fuel` bounds the number of operators. -/
def chainFrom (operators : List BinaryOperator) (operand : Reader Expr) :
    (fuel : Nat) → (left : Expr) → Reader Expr
  | 0, left, lexemes => .ok (left, lexemes)
  | fuel + 1, left, lexemes =>
    match nextOperator? operators lexemes with
    | none => .ok (left, lexemes)
    | some op => do
      let lexemes ← advance ending lexemes
      let (right, lexemes) ← operand lexemes
      chainFrom operators operand fuel (.binary op.symbol left right) lexemes

/-- A left-associative chain of operands. -/
def chain (fuel : Nat) (operators : List BinaryOperator) (operand : Reader Expr) : Reader Expr :=
  fun lexemes => do
    let (first, lexemes) ← operand lexemes
    chainFrom ending operators operand fuel first lexemes

/-- The chains of all levels over operands of the tightest. -/
def chains (fuel : Nat) (operand : Reader Expr) : Reader Expr :=
  levels.foldr (chain ending fuel) operand

/-- The arguments after the first ones. -/
def argumentsFrom (conditional : Reader Expr) : (fuel : Nat) → List Expr → Reader (List Expr)
  | 0, args, lexemes => .ok (args, lexemes)
  | fuel + 1, args, lexemes =>
    if isNext .comma lexemes then do
      let lexemes ← advance ending lexemes
      let (arg, lexemes) ← conditional lexemes
      argumentsFrom conditional fuel (args ++ [arg]) lexemes
    else .ok (args, lexemes)

/-- The arguments of a call after its opening parenthesis, with the closing one. -/
def arguments (fuel : Nat) (conditional : Reader Expr) : Reader (List Expr) := fun lexemes => do
  let (args, lexemes) ←
    if isNext .close lexemes then .ok ([], lexemes)
    else do
      let (first, lexemes) ← conditional lexemes
      argumentsFrom ending conditional fuel [first] lexemes
  let lexemes ← expect ending .close .closeParen lexemes
  .ok (args, lexemes)

def primary (fuel : Nat) (conditional : Reader Expr) : Reader Expr := fun lexemes =>
  match lexemes with
  | ⟨.number n, _, _, _⟩ :: _ => do .ok (.number n, ← advance ending lexemes)
  | ⟨.text s, _, _, _⟩ :: _ => do .ok (.text s, ← advance ending lexemes)
  | ⟨.boolean b, _, _, _⟩ :: _ => do .ok (.boolean b, ← advance ending lexemes)
  | ⟨.open, _, _, _⟩ :: _ => do
    let (inner, lexemes) ← conditional (← advance ending lexemes)
    .ok (inner, ← expect ending .close .closeParen lexemes)
  | ⟨.name name, _, _, _⟩ :: _ => do
    let lexemes ← advance ending lexemes
    if isNext .open lexemes then do
      let (args, lexemes) ← arguments ending fuel conditional (← advance ending lexemes)
      .ok (.call name args, lexemes)
    else .ok (.variable name, lexemes)
  | _ => .error (unexpected ending .expression lexemes)

/-- An operand of the tightest chains, given readers of what nests one level deeper. -/
def operand (fuel : Nat) (prefixed conditional : Reader Expr) : Reader Expr := fun lexemes =>
  match nextPrefix? lexemes with
  | some op => do
    let (inner, lexemes) ← prefixed (← advance ending lexemes)
    .ok (.unary op.symbol inner, lexemes)
  | none => do
    let (base, lexemes) ← primary ending fuel conditional lexemes
    if isNext (.operator .power) lexemes then do
      let (exponent, lexemes) ← prefixed (← advance ending lexemes)
      .ok (.binary BinaryOperator.power.symbol base exponent, lexemes)
    else .ok (base, lexemes)

/-- The branches of a conditional, given a reader of what nests one level deeper. -/
def branches (fuel : Nat) (prefixed conditional : Reader Expr) : Reader Expr := fun lexemes => do
  let (condition, lexemes) ← chains ending fuel (operand ending fuel prefixed conditional) lexemes
  if isNext .question lexemes then do
    let (whenTrue, lexemes) ← conditional (← advance ending lexemes)
    let lexemes ← expect ending .colon .colon lexemes
    let (whenFalse, lexemes) ← conditional lexemes
    .ok (.conditional condition whenTrue whenFalse, lexemes)
  else .ok (condition, lexemes)

mutual

/-- The operand of a prefix or an exponent, where so many levels of nesting are left. -/
def nestedOperand (fuel : Nat) : (nesting : Nat) → Reader Expr
  | 0, lexemes => tooDeep ending lexemes
  | nesting + 1, lexemes =>
    operand ending fuel (nestedOperand fuel nesting) (nestedConditional fuel nesting) lexemes

/-- A conditional, where so many levels of nesting are left. -/
def nestedConditional (fuel : Nat) : (nesting : Nat) → Reader Expr
  | 0, lexemes => tooDeep ending lexemes
  | nesting + 1, lexemes =>
    branches ending fuel (nestedOperand fuel nesting) (nestedConditional fuel nesting) lexemes

end

end

end Parser

/-- The expression that a text spells. -/
def Expr.ofText? (source : String) : Except ParseError Expr := do
  let ⟨lexemes, ending⟩ := Lexemes.ofText source
  let start ← Parser.arrive ending lexemes
  let (expr, rest) ← Parser.nestedConditional ending lexemes.length Expr.maxDepth start
  if rest.isEmpty then
    if Expr.maxDepth < expr.levels then .error ⟨.tooDeep, 0⟩ else .ok expr
  else .error (Parser.unexpected ending .endOfInput rest)

end Formulary
