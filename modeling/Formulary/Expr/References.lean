import Formulary.Expr.Basic

/-!
# References

The names that a formula depends on, each once, in the order of their first occurrence: a node comes
before its operands and these come from left to right.
-/

namespace Formulary

/-- The names of variables and of functions in a formula. -/
structure References where
  «variables» : List String
  functions : List String
deriving DecidableEq, Repr

namespace References

def empty : References := ⟨[], []⟩

def isEmpty (refs : References) : Bool := refs.variables.isEmpty && refs.functions.isEmpty

/-- Whether a change to the name can concern the formula. -/
def mentions (refs : References) (name : String) : Bool :=
  refs.variables.contains name || refs.functions.contains name

/-- Puts a name at the end unless it is there. -/
def addName (names : List String) (name : String) : List String :=
  if names.contains name then names else names ++ [name]

/-- Adds what the root of a tree refers to. -/
def addRoot (refs : References) : Expr → References
  | .variable name => ⟨addName refs.variables name, refs.functions⟩
  | .call name _ => ⟨refs.variables, addName refs.functions name⟩
  | _ => refs

def ofExprs (refs : References) : List Expr → References
  | [] => refs
  | expr :: rest => ofExprs (refs.addRoot expr) (expr.children ++ rest)
termination_by pending => Expr.sizeAll pending
decreasing_by exact Expr.sizeAll_children_append_lt expr rest

/-- All names in a formula, collected without recursion into it. -/
def ofExpr (expr : Expr) : References := ofExprs empty [expr]

end References

end Formulary
