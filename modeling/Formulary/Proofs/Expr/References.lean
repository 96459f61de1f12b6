import Formulary.Expr.References
import Formulary.Proofs.Expr.Recognized

/-!
# What a tree refers to

`Expr.nodes` lists the nodes of a tree, each before its operands. The references of a tree are the names at its
nodes (`mem_variables_ofExpr`, `mem_functions_ofExpr`), and `References.Covers` says that a list of references
is long enough for a tree and so for its operands.
-/

namespace Formulary

namespace Expr

mutual

/-- The nodes of a tree: a node comes before its operands, and these come from left to right. -/
def nodes : Expr → List Expr
  | boolean b => [boolean b]
  | number n => [number n]
  | text s => [text s]
  | .variable name => [.variable name]
  | call name args => call name args :: nodesAll args
  | unary symbol operand => unary symbol operand :: operand.nodes
  | binary symbol left right => binary symbol left right :: (left.nodes ++ right.nodes)
  | conditional condition whenTrue whenFalse =>
    conditional condition whenTrue whenFalse :: (condition.nodes ++ (whenTrue.nodes ++ whenFalse.nodes))

def nodesAll : List Expr → List Expr
  | [] => []
  | expr :: rest => expr.nodes ++ nodesAll rest

end

theorem nodes_eq (expr : Expr) : expr.nodes = expr :: nodesAll expr.children := by
  cases expr <;> simp [nodes, children, nodesAll]

theorem nodesAll_append (xs ys : List Expr) : nodesAll (xs ++ ys) = nodesAll xs ++ nodesAll ys := by
  induction xs with
  | nil => rfl
  | cons x xs ih => rw [List.cons_append, nodesAll, nodesAll, ih, List.append_assoc]

theorem mem_nodesAll {exprs : List Expr} {node : Expr} :
    node ∈ nodesAll exprs ↔ ∃ expr ∈ exprs, node ∈ expr.nodes := by
  induction exprs with
  | nil => simp [nodesAll]
  | cons expr rest ih => simp [nodesAll, ih]

theorem self_mem_nodes (expr : Expr) : expr ∈ expr.nodes := by
  rw [nodes_eq]
  exact List.mem_cons_self

theorem nodes_subset_of_mem_children {expr child : Expr} (h : child ∈ expr.children) :
    child.nodes ⊆ expr.nodes := by
  intro node hnode
  rw [nodes_eq expr]
  exact List.mem_cons_of_mem _ (mem_nodesAll.2 ⟨child, h, hnode⟩)

end Expr

namespace References

/-- The pending trees are visited node by node. -/
theorem ofExprs_eq_foldl (refs : References) (pending : List Expr) :
    ofExprs refs pending = (Expr.nodesAll pending).foldl addRoot refs := by
  fun_induction ofExprs refs pending with
  | case1 => rfl
  | case2 refs expr rest ih =>
    rw [ih, Expr.nodesAll, Expr.nodes_eq, Expr.nodesAll_append, List.cons_append, List.foldl_cons]

theorem ofExpr_eq_foldl (expr : Expr) : ofExpr expr = expr.nodes.foldl addRoot empty := by
  rw [ofExpr, ofExprs_eq_foldl, Expr.nodesAll, Expr.nodesAll, List.append_nil]

theorem mem_addName {names : List String} {name added : String} :
    name ∈ addName names added ↔ name ∈ names ∨ name = added := by
  unfold addName
  split
  · next h => exact ⟨.inl, fun hname => hname.elim id fun heq => heq ▸ List.contains_iff_mem.1 h⟩
  · rw [List.mem_append, List.mem_singleton]

theorem mem_variables_addRoot {refs : References} {node : Expr} {name : String} :
    name ∈ (refs.addRoot node).variables ↔ name ∈ refs.variables ∨ node = .variable name := by
  cases node with
  | «variable» added => simp [addRoot, mem_addName, eq_comm]
  | _ => simp [addRoot]

theorem mem_functions_addRoot {refs : References} {node : Expr} {name : String} :
    name ∈ (refs.addRoot node).functions ↔ name ∈ refs.functions ∨ ∃ args, node = .call name args := by
  cases node with
  | call added args => simp [addRoot, mem_addName, eq_comm]
  | _ => simp [addRoot]

theorem mem_variables_foldl {refs : References} {visited : List Expr} {name : String} :
    name ∈ (visited.foldl addRoot refs).variables ↔ name ∈ refs.variables ∨ .variable name ∈ visited := by
  induction visited generalizing refs with
  | nil => simp
  | cons node visited ih => rw [List.foldl_cons, ih, mem_variables_addRoot, List.mem_cons, or_assoc, eq_comm]

theorem mem_functions_foldl {refs : References} {visited : List Expr} {name : String} :
    name ∈ (visited.foldl addRoot refs).functions ↔
      name ∈ refs.functions ∨ ∃ args, .call name args ∈ visited := by
  induction visited generalizing refs with
  | nil => simp
  | cons node visited ih =>
    rw [List.foldl_cons, ih, mem_functions_addRoot, or_assoc, ← exists_or]
    simp only [List.mem_cons, eq_comm]

theorem mem_variables_ofExpr {expr : Expr} {name : String} :
    name ∈ (ofExpr expr).variables ↔ .variable name ∈ expr.nodes := by
  rw [ofExpr_eq_foldl, mem_variables_foldl]
  exact or_iff_right List.not_mem_nil

theorem mem_functions_ofExpr {expr : Expr} {name : String} :
    name ∈ (ofExpr expr).functions ↔ ∃ args, .call name args ∈ expr.nodes := by
  rw [ofExpr_eq_foldl, mem_functions_foldl]
  exact or_iff_right List.not_mem_nil

theorem mentions_iff {refs : References} {name : String} :
    refs.mentions name = true ↔ name ∈ refs.variables ∨ name ∈ refs.functions := by
  simp [mentions]

/-- Every name in the tree is listed. -/
structure Covers (refs : References) (expr : Expr) : Prop where
  «variable» : ∀ name, .variable name ∈ expr.nodes → name ∈ refs.variables
  call : ∀ name args, .call name args ∈ expr.nodes → name ∈ refs.functions

theorem covers_ofExpr (expr : Expr) : (ofExpr expr).Covers expr where
  «variable» _ h := mem_variables_ofExpr.2 h
  call _ args h := mem_functions_ofExpr.2 ⟨args, h⟩

theorem Covers.child {refs : References} {expr child : Expr} (h : refs.Covers expr)
    (hchild : child ∈ expr.children) : refs.Covers child where
  «variable» name hname := h.variable name (Expr.nodes_subset_of_mem_children hchild hname)
  call name args hname := h.call name args (Expr.nodes_subset_of_mem_children hchild hname)

end References

end Formulary
