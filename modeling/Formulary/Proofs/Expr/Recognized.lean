import Formulary.Expr.Basic
import Formulary.Operator

/-!
# Trees of known operators

Induction over trees, with a hypothesis for each argument of a call, and the trees in which every symbol
names an operator.
-/

namespace Formulary

theorem UnaryOperator.symbol_of_ofSymbol? {symbol : String} {op : UnaryOperator}
    (h : ofSymbol? symbol = some op) : op.symbol = symbol := by
  unfold ofSymbol? at h
  simpa using List.find?_some h

theorem BinaryOperator.symbol_of_ofSymbol? {symbol : String} {op : BinaryOperator}
    (h : ofSymbol? symbol = some op) : op.symbol = symbol := by
  unfold ofSymbol? at h
  simpa using List.find?_some h

namespace Expr

/-! ## Induction -/

theorem size_pos (expr : Expr) : 0 < expr.size := by rw [size_eq]; omega

theorem size_le_sizeAll {expr : Expr} {exprs : List Expr} (h : expr ∈ exprs) :
    expr.size ≤ sizeAll exprs := by
  induction exprs with
  | nil => exact nomatch h
  | cons first rest ih =>
    rw [sizeAll]
    rcases List.mem_cons.1 h with rfl | h
    · omega
    · have := ih h
      omega

theorem depth_le_depthAll {expr : Expr} {exprs : List Expr} (h : expr ∈ exprs) :
    expr.depth ≤ depthAll exprs := by
  induction exprs with
  | nil => exact nomatch h
  | cons first rest ih =>
    rw [depthAll]
    rcases List.mem_cons.1 h with rfl | h
    · omega
    · have := ih h
      omega

theorem size_lt_of_mem_children {expr child : Expr} (h : child ∈ expr.children) :
    child.size < expr.size := by
  have := size_le_sizeAll h
  rw [size_eq expr]
  omega

/-- A property of all trees, from its step from the children of a node to the node. -/
theorem inductChildren {P : Expr → Prop}
    (step : ∀ expr : Expr, (∀ child ∈ expr.children, P child) → P expr) (expr : Expr) : P expr := by
  have bounded : ∀ n (expr : Expr), expr.size ≤ n → P expr := by
    intro n
    induction n with
    | zero => intro expr hsize; have := expr.size_pos; omega
    | succ n ih =>
      intro expr hsize
      refine step expr fun child hchild => ih child ?_
      have := size_lt_of_mem_children hchild
      omega
  exact bounded _ expr (Nat.le_refl _)

/-- A property of all trees, from its step at each kind of node. -/
@[elab_as_elim]
theorem induct {P : Expr → Prop} (boolean : ∀ b, P (boolean b)) (number : ∀ n, P (number n))
    (text : ∀ s, P (text s)) («variable» : ∀ name, P (.variable name))
    (call : ∀ name args, (∀ arg ∈ args, P arg) → P (call name args))
    (unary : ∀ symbol operand, P operand → P (unary symbol operand))
    (binary : ∀ symbol left right, P left → P right → P (binary symbol left right))
    (conditional : ∀ condition whenTrue whenFalse, P condition → P whenTrue → P whenFalse →
      P (conditional condition whenTrue whenFalse)) (expr : Expr) : P expr := by
  refine inductChildren (fun expr ih => ?_) expr
  cases expr with
  | boolean b => exact boolean b
  | number n => exact number n
  | text s => exact text s
  | «variable» name => exact «variable» name
  | call name args => exact call name args ih
  | unary symbol operand => exact unary symbol operand (ih _ (by simp [children]))
  | binary symbol left right =>
    exact binary symbol left right (ih _ (by simp [children])) (ih _ (by simp [children]))
  | conditional condition whenTrue whenFalse =>
    exact conditional condition whenTrue whenFalse (ih _ (by simp [children]))
      (ih _ (by simp [children])) (ih _ (by simp [children]))

/-! ## Known operators -/

mutual

/-- Every symbol in the tree names an operator. -/
def Recognized : Expr → Prop
  | .boolean _ | .number _ | .text _ | .variable _ => True
  | call _ args => RecognizedAll args
  | unary symbol operand => (UnaryOperator.ofSymbol? symbol).isSome ∧ operand.Recognized
  | binary symbol left right =>
    (BinaryOperator.ofSymbol? symbol).isSome ∧ left.Recognized ∧ right.Recognized
  | conditional condition whenTrue whenFalse =>
    condition.Recognized ∧ whenTrue.Recognized ∧ whenFalse.Recognized

def RecognizedAll : List Expr → Prop
  | [] => True
  | expr :: rest => expr.Recognized ∧ RecognizedAll rest

end

theorem recognizedAll_iff {exprs : List Expr} :
    RecognizedAll exprs ↔ ∀ expr ∈ exprs, expr.Recognized := by
  induction exprs with
  | nil => simp [RecognizedAll]
  | cons expr rest ih => simp [RecognizedAll, ih]

end Expr

end Formulary
