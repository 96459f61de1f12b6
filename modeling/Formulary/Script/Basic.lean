import Formulary.Operator
import Formulary.Value.Basic

/-!
# Scripts

What generated code means: a tree of operations, of reads of variables and of calls.
-/

namespace Formulary

inductive Script where
  | literal (v : Value)
  /-- A variable inside the aggregate calls with these indices. -/
  | variable (name : String) (indices : List Nat)
  | call (name : String) (args : List Script)
  | unary (op : UnaryOperator) (operand : Script)
  | binary (op : BinaryOperator) (left right : Script)
  /-- An operation that is named by its symbol, which may name none. -/
  | scale (symbol : String) (left right : Script)
  | conditional (condition whenTrue whenFalse : Script)

end Formulary
