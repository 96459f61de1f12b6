import Formulary.Script.Run

/-!
# Compilation

A tree becomes code, with fragments for variables and calls from the context, and the code a script, which
the context loads. The context is told when the code begins and when it has ended, with or without success,
and of each argument of a call, so that it can say which aggregate calls a variable stands in.
-/

namespace Formulary

/-- The code of an operator for the codes of its operands. -/
def BinaryOperator.code (op : BinaryOperator) (left right : String) : String :=
  let runtimeCall := fun name => name ++ "(" ++ left ++ ", " ++ right ++ ")"
  match op with
  | .add => runtimeCall "add"
  | .subtract => runtimeCall "subtract"
  | .lessThan => runtimeCall "less_than"
  | .lessEqual => runtimeCall "less_than_or_equal"
  | .greaterThan => runtimeCall "greater_than"
  | .greaterEqual => runtimeCall "greater_than_or_equal"
  | .multiply | .divide | .remainder | .power =>
    "binary_operator(" ++ Script.textCode op.symbol ++ ", " ++ left ++ ", " ++ right ++ ")"
  | .equal | .strictEqual | .notEqual | .strictNotEqual | .and | .or =>
    left ++ " " ++ op.symbol ++ " " ++ right

def UnaryOperator.code (op : UnaryOperator) (operand : String) : String :=
  match op with
  | .plus => "plus(" ++ operand ++ ")"
  | .negate => "negate(" ++ operand ++ ")"
  | .not => "!" ++ operand

namespace Expr

variable {m : Type → Type} [Monad m]

/-- Parentheses around the code of an operand that is itself a binary operation. -/
def parenthesized (expr : Expr) (code : String) : String :=
  if expr.isBinary then "(" ++ code ++ ")" else code

mutual

/-- The code of a tree. -/
def emit (ctx : Context m) : Expr → Answer m String
  | .boolean b => pure (if b then "true" else "false")
  | .number n => pure (Script.numberCode n)
  | .text s => pure (Script.textCode s)
  | .variable name => do
    let indices ← ExceptT.lift ctx.openIndices
    ctx.variableCode name indices
  | .call name args => do
    let aggregate ← ExceptT.lift (ctx.isAggregate name)
    let codes ← emitArgs ctx ⟨name, aggregate⟩ args
    let indices ← ExceptT.lift ctx.openIndices
    ctx.callCode name codes indices
  | .unary symbol operand =>
    match UnaryOperator.ofSymbol? symbol with
    | none => throw (.unknownOperator symbol)
    | some op => do
      let code ← emit ctx operand
      pure (op.code (operand.parenthesized code))
  | .binary symbol left right =>
    match BinaryOperator.ofSymbol? symbol with
    | none => throw (.unknownOperator symbol)
    | some op => do
      let leftCode ← emit ctx left
      let rightCode ← emit ctx right
      pure (op.code (left.parenthesized leftCode) (right.parenthesized rightCode))
  | .conditional condition whenTrue whenFalse => do
    let conditionCode ← emit ctx condition
    let trueCode ← emit ctx whenTrue
    let falseCode ← emit ctx whenFalse
    pure ("(" ++ conditionCode ++ " ? " ++ trueCode ++ " : " ++ falseCode ++ ")")

/-- The codes of the arguments of a call, each inside a frame that ends also if the code fails. -/
def emitArgs (ctx : Context m) (frame : Frame) : List Expr → Answer m (List String)
  | [] => pure []
  | arg :: rest => do
    let code ← ExceptT.mk do
      ctx.beginFrame frame
      let code ← (emit ctx arg).run
      ctx.endFrame frame.name
      pure code
    let codes ← emitArgs ctx frame rest
    pure (code :: codes)

end

/-- The code of a tree, between the notices of the compilation's begin and end. -/
def toCode (ctx : Context m) (expr : Expr) : Answer m String :=
  ExceptT.mk do
    ctx.beginCompile
    let code ← (if maxDepth < expr.levels then throw .tooDeep else emit ctx expr : Answer m String).run
    ctx.endCompile
    ctx.settleCompile
    pure code

end Expr

/-- A formula compiled in a context. -/
structure Compiled where
  code : String
  script : Script
  /-- Whether the compilation met a call of an aggregate function. -/
  hasAggregates : Bool

namespace Compiled

variable {m : Type → Type} [Monad m]

def ofExpr (ctx : Context m) (expr : Expr) : Answer m Compiled := do
  let code ← expr.toCode ctx
  let script ← ctx.load code
  let hasAggregates ← ExceptT.lift ctx.hasAggregates
  pure ⟨code, script, hasAggregates⟩

/-- In a context that loads code as the script that it is the text of. -/
theorem ofExpr_of_load {ctx : Context m} (hload : ctx.load = Context.loadScript) (expr : Expr) :
    ofExpr ctx expr = (do
      let code ← expr.toCode ctx
      let script ← Answer.ofExcept (Script.ofCode code)
      let hasAggregates ← ExceptT.lift ctx.hasAggregates
      pure ⟨code, script, hasAggregates⟩) := by
  rw [ofExpr, hload]
  rfl

/-- Runs the compiled form in a context, which need not be the one it was compiled in. -/
def call (compiled : Compiled) (ctx : Context m) (bindings : Bindings) : Answer m Value :=
  compiled.script.run ctx bindings

def describe (compiled : Compiled) : String :=
  "CompiledFormula \x7b code: " ++ quotedText compiled.code ++ ", has_aggregates: "
    ++ (if compiled.hasAggregates then "true" else "false") ++ " \x7d"

end Compiled

end Formulary
