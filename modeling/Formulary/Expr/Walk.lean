import Formulary.Expr.Basic
import Formulary.Script.Run

/-!
# Walking expressions

The value of an expression in a context, found by recursion on the tree. An operator is resolved before
its operands are looked at, and a node below the deepest level allowed is an error once it is reached.
-/

namespace Formulary

namespace Expr

variable {m : Type → Type} [Monad m]

/-- The value of a tree of which so many levels may be entered. -/
def walk (ctx : Context m) (bindings : Bindings) : (levels : Nat) → Expr → Answer m Value
  | 0, _ => throw .tooDeep
  | levels + 1, expr =>
    match expr with
    | .boolean b => pure (.boolean b)
    | .number n => pure (.number n)
    | .text s => pure (.text s)
    | .variable name => ctx.lookup name bindings
    | .call name args => do
      let values ← args.mapM (walk ctx bindings levels)
      ctx.call name values
    | .unary symbol operand =>
      match UnaryOperator.ofSymbol? symbol with
      | none => throw (.unknownOperator symbol)
      | some op => do
        let a ← walk ctx bindings levels operand
        pure (op.apply a)
    | .binary symbol left right =>
      match BinaryOperator.ofSymbol? symbol with
      | none => throw (.unknownOperator symbol)
      | some op => op.run (walk ctx bindings levels left) (walk ctx bindings levels right)
    | .conditional condition whenTrue whenFalse => do
      let c ← walk ctx bindings levels condition
      if c.isTruthy then walk ctx bindings levels whenTrue
      else walk ctx bindings levels whenFalse

def evaluate (ctx : Context m) (bindings : Bindings) (expr : Expr) : Answer m Value :=
  walk ctx bindings maxDepth expr

end Expr

end Formulary
