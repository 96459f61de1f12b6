import Formulary.Number.Basic

/-!
# Expressions

The tree of a formula, its size and its depth. Both measures are defined by recursion on the tree;
`countNodes` and `levels` compute them over a list of pending trees and so without recursion into a tree
that may be thousands of levels deep. `countNodes_eq_size` and `levels_eq_depth` say that they agree.
-/

namespace Formulary

/-- A formula. Operators are symbols, which may name none. -/
inductive Expr where
  | boolean (b : Bool)
  | number (n : Number)
  | text (s : String)
  | variable (name : String)
  | call (name : String) (args : List Expr)
  | unary (op : String) (operand : Expr)
  | binary (op : String) (left right : Expr)
  | conditional (condition whenTrue whenFalse : Expr)

namespace Expr

instance : Inhabited Expr := ⟨boolean false⟩

/-- The deepest tree that is read from text, walked or compiled. -/
def maxDepth : Nat := 100

/-- The operands of a node in the order of evaluation. -/
def children : Expr → List Expr
  | .boolean _ | .number _ | .text _ | .variable _ => []
  | call _ args => args
  | unary _ operand => [operand]
  | binary _ left right => [left, right]
  | conditional condition whenTrue whenFalse => [condition, whenTrue, whenFalse]

def isBinary : Expr → Bool
  | binary .. => true
  | _ => false

mutual

/-- The number of nodes. -/
def size : Expr → Nat
  | .boolean _ | .number _ | .text _ | .variable _ => 1
  | call _ args => 1 + sizeAll args
  | unary _ operand => 1 + operand.size
  | binary _ left right => 1 + (left.size + right.size)
  | conditional condition whenTrue whenFalse =>
    1 + (condition.size + (whenTrue.size + whenFalse.size))

def sizeAll : List Expr → Nat
  | [] => 0
  | expr :: rest => expr.size + sizeAll rest

end

mutual

/-- The number of nodes on the longest path from the root to a leaf. -/
def depth : Expr → Nat
  | .boolean _ | .number _ | .text _ | .variable _ => 1
  | call _ args => 1 + depthAll args
  | unary _ operand => 1 + operand.depth
  | binary _ left right => 1 + max left.depth right.depth
  | conditional condition whenTrue whenFalse =>
    1 + max condition.depth (max whenTrue.depth whenFalse.depth)

def depthAll : List Expr → Nat
  | [] => 0
  | expr :: rest => max expr.depth (depthAll rest)

end

theorem size_eq (expr : Expr) : expr.size = 1 + sizeAll expr.children := by
  cases expr <;> simp [size, children, sizeAll]

theorem depth_eq (expr : Expr) : expr.depth = 1 + depthAll expr.children := by
  cases expr <;> simp [depth, children, depthAll]

theorem sizeAll_append (xs ys : List Expr) : sizeAll (xs ++ ys) = sizeAll xs + sizeAll ys := by
  induction xs with
  | nil => simp [sizeAll]
  | cons x xs ih => simp [sizeAll, ih, Nat.add_assoc]

/-- Taking the first pending tree apart leaves fewer nodes pending. -/
theorem sizeAll_children_append_lt (expr : Expr) (rest : List Expr) :
    sizeAll (expr.children ++ rest) < sizeAll (expr :: rest) := by
  rw [sizeAll_append, sizeAll, size_eq expr]
  omega

def countNodesFrom (count : Nat) : List Expr → Nat
  | [] => count
  | expr :: rest => countNodesFrom (count + 1) (expr.children ++ rest)
termination_by pending => sizeAll pending
decreasing_by exact sizeAll_children_append_lt expr rest

/-- The number of nodes, counted one by one. -/
def countNodes (expr : Expr) : Nat := countNodesFrom 0 [expr]

def levelsFrom (deepest : Nat) : List (Nat × Expr) → Nat
  | [] => deepest
  | (level, expr) :: rest =>
    levelsFrom (max deepest level) (expr.children.map (level + 1, ·) ++ rest)
termination_by pending => sizeAll (pending.map Prod.snd)
decreasing_by
  simp only [List.map_append, List.map_map, List.map_cons]
  have h : (expr.children.map (Prod.snd ∘ fun x => (level + 1, x))) = expr.children := by
    simp [Function.comp_def]
  rw [h]
  exact sizeAll_children_append_lt expr _

/-- The level of the deepest node, found by visiting each node with its level. -/
def levels (expr : Expr) : Nat := levelsFrom 0 [(1, expr)]

theorem countNodesFrom_eq (count : Nat) (pending : List Expr) :
    countNodesFrom count pending = count + sizeAll pending := by
  fun_induction countNodesFrom count pending with
  | case1 => simp [sizeAll]
  | case2 count expr rest ih =>
    rw [ih, sizeAll_append, sizeAll, size_eq expr]
    omega

theorem countNodes_eq_size (expr : Expr) : expr.countNodes = expr.size := by
  simp [countNodes, countNodesFrom_eq, sizeAll]

/-- The deepest level of pending trees that start at levels of their own. -/
def deepestOf : List (Nat × Expr) → Nat
  | [] => 0
  | (level, expr) :: rest => max (level + expr.depth - 1) (deepestOf rest)

theorem deepestOf_append (xs ys : List (Nat × Expr)) :
    deepestOf (xs ++ ys) = max (deepestOf xs) (deepestOf ys) := by
  induction xs with
  | nil => simp [deepestOf]
  | cons x xs ih => simp [deepestOf, ih, Nat.max_assoc]

theorem depth_pos (expr : Expr) : 0 < expr.depth := by rw [depth_eq]; omega

theorem max_deepestOf_map (level : Nat) (exprs : List Expr) :
    max level (deepestOf (exprs.map (level + 1, ·))) = level + depthAll exprs := by
  induction exprs with
  | nil => simp [deepestOf, depthAll]
  | cons expr rest ih =>
    have := expr.depth_pos
    simp only [List.map_cons, deepestOf, depthAll]
    omega

theorem levelsFrom_eq (deepest : Nat) (pending : List (Nat × Expr)) :
    levelsFrom deepest pending = max deepest (deepestOf pending) := by
  fun_induction levelsFrom deepest pending with
  | case1 => simp [deepestOf]
  | case2 deepest level expr rest ih =>
    have h := max_deepestOf_map level expr.children
    rw [ih, deepestOf_append, deepestOf, depth_eq expr]
    omega

theorem levels_eq_depth (expr : Expr) : expr.levels = expr.depth := by
  simp [levels, levelsFrom_eq, deepestOf]

end Expr

end Formulary
