import Formulary.Context
import Formulary.Value.Operations

/-!
# Running scripts

A script is run in a context from left to right. The run stops at the first failure, and `&&`, `||` and
conditionals leave out what does not decide.
-/

namespace Formulary

/-- Both operands in turn, or the left one alone if it decides. -/
def BinaryOperator.run {m : Type → Type} [Monad m] (op : BinaryOperator) (left right : Answer m Value) :
    Answer m Value := do
  let a ← left
  match op with
  | .and => if a.isTruthy then right else pure a
  | .or => if a.isTruthy then pure a else right
  | op => do
    let b ← right
    Answer.ofExcept (op.apply a b)

namespace Script

variable {m : Type → Type} [Monad m]

mutual

/-- The value of a script in a context. -/
def run (ctx : Context m) (bindings : Bindings) : Script → Answer m Value
  | literal v => pure v
  | .variable name indices => ctx.lookupScoped name indices bindings
  | call name args => do
    let values ← runAll ctx bindings args
    ctx.call name values
  | unary op operand => do
    let a ← run ctx bindings operand
    pure (op.apply a)
  | binary op left right => op.run (run ctx bindings left) (run ctx bindings right)
  | scale symbol left right => do
    let a ← run ctx bindings left
    let b ← run ctx bindings right
    Answer.ofExcept (Value.scale symbol a b)
  | conditional condition whenTrue whenFalse => do
    let c ← run ctx bindings condition
    if c.isTruthy then run ctx bindings whenTrue else run ctx bindings whenFalse

def runAll (ctx : Context m) (bindings : Bindings) : List Script → Answer m (List Value)
  | [] => pure []
  | script :: rest => do
    let value ← run ctx bindings script
    let values ← runAll ctx bindings rest
    pure (value :: values)

end

end Script

end Formulary
