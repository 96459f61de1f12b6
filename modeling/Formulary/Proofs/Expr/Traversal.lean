import Formulary.Proofs.Expr.References
import Mathlib.Algebra.Ring.Nat
import Mathlib.Data.List.Induction
import Mathlib.Data.List.Nodup

/-!
# Traversals with pending trees

The size and the depth of a tree and its references are found with a list of pending trees, without recursion into
the tree. They are what the recursions over the tree give (`traversals_compute_recursions`): the size and the depth in
whatever order the pending trees are taken, the references in preorder, where each name has its first place.
-/

namespace Formulary

namespace Expr

/-! ## Pending trees in another order -/

theorem sizeAll_eq_sum (exprs : List Expr) : sizeAll exprs = (exprs.map size).sum := by
  induction exprs with
  | nil => rfl
  | cons expr rest ih => rw [sizeAll, ih, List.map_cons, List.sum_cons]

theorem countNodesFrom_perm (count : Nat) {pending pending' : List Expr} (h : pending.Perm pending') :
    countNodesFrom count pending = countNodesFrom count pending' := by
  rw [countNodesFrom_eq, countNodesFrom_eq, sizeAll_eq_sum, sizeAll_eq_sum, (h.map size).sum_nat]

theorem deepestOf_perm {pending pending' : List (Nat × Expr)} (h : pending.Perm pending') :
    deepestOf pending = deepestOf pending' := by
  induction h with
  | nil => rfl
  | cons entry h ih => rw [deepestOf, deepestOf, ih]
  | swap entry entry' rest => simp only [deepestOf, Nat.max_left_comm]
  | trans h h' ih ih' => rw [ih, ih']

theorem levelsFrom_perm (deepest : Nat) {pending pending' : List (Nat × Expr)} (h : pending.Perm pending') :
    levelsFrom deepest pending = levelsFrom deepest pending' := by
  rw [levelsFrom_eq, levelsFrom_eq, deepestOf_perm h]

/-! ## The recursions -/

theorem depthAll_eq_foldr (exprs : List Expr) : depthAll exprs = (exprs.map depth).foldr max 0 := by
  induction exprs with
  | nil => rfl
  | cons expr rest ih => rw [depthAll, ih, List.map_cons, List.foldr_cons]

theorem nodesAll_eq_flatMap (exprs : List Expr) : nodesAll exprs = exprs.flatMap nodes := by
  induction exprs with
  | nil => rfl
  | cons expr rest ih => rw [nodesAll, ih, List.flatMap_cons]

theorem countNodes_eq_sum (expr : Expr) : expr.countNodes = 1 + (expr.children.map countNodes).sum := by
  rw [funext countNodes_eq_size, size_eq, sizeAll_eq_sum]

theorem levels_eq_foldr (expr : Expr) : expr.levels = 1 + (expr.children.map levels).foldr max 0 := by
  rw [funext levels_eq_depth, depth_eq, depthAll_eq_foldr]

/-! ## Names in preorder -/

/-- The name of a variable. -/
def variableName? : Expr → Option String
  | .variable name => some name
  | _ => none

/-- The name of the function that is called. -/
def functionName? : Expr → Option String
  | .call name _ => some name
  | _ => none

end Expr

namespace References

/-- Adding names one by one keeps the first of each. -/
theorem foldl_addName (names : List String) : names.foldl addName [] = names.eraseDups := by
  induction names using List.reverseRecOn with
  | nil => rfl
  | append_singleton names name ih =>
    rw [List.foldl_append, ih, List.foldl_cons, List.foldl_nil, List.eraseDups_append, addName]
    by_cases h : name ∈ names
    · simp [List.removeAll, h]
    · simp [List.removeAll, h, List.eraseDups_cons]

theorem nodup_addName {names : List String} (h : names.Nodup) (name : String) : (addName names name).Nodup := by
  unfold addName
  split
  · exact h
  · next hnew =>
    rw [List.contains_iff_mem] at hnew
    refine h.append (List.nodup_singleton name) ?_
    rwa [List.disjoint_singleton]

theorem nodup_eraseDups (names : List String) : names.eraseDups.Nodup := by
  rw [← foldl_addName]
  exact List.foldlRecOn names addName List.nodup_nil fun _ h name _ => nodup_addName h name

/-- A list that grows by the names at the nodes holds those of all visited ones. -/
theorem listed_foldl (listed : References → List String) (name? : Expr → Option String)
    (hstep : ∀ refs node, listed (addRoot refs node) = (name? node).toList.foldl addName (listed refs))
    (refs : References) (visited : List Expr) :
    listed (visited.foldl addRoot refs) = (visited.filterMap name?).foldl addName (listed refs) := by
  induction visited generalizing refs with
  | nil => rfl
  | cons node visited ih =>
    rw [List.foldl_cons, ih, hstep, List.filterMap_cons]
    cases name? node <;> rfl

theorem variables_ofExpr (expr : Expr) :
    (ofExpr expr).variables = (expr.nodes.filterMap Expr.variableName?).eraseDups := by
  have hstep : ∀ refs node, (addRoot refs node).variables =
      (Expr.variableName? node).toList.foldl addName refs.variables := by
    intro refs node
    cases node <;> rfl
  rw [ofExpr_eq_foldl, ← foldl_addName]
  exact listed_foldl References.variables _ hstep empty expr.nodes

theorem functions_ofExpr (expr : Expr) :
    (ofExpr expr).functions = (expr.nodes.filterMap Expr.functionName?).eraseDups := by
  have hstep : ∀ refs node, (addRoot refs node).functions =
      (Expr.functionName? node).toList.foldl addName refs.functions := by
    intro refs node
    cases node <;> rfl
  rw [ofExpr_eq_foldl, ← foldl_addName]
  exact listed_foldl References.functions _ hstep empty expr.nodes

end References

/-- **Traversals.** The number of nodes is one more than those of the children together, and the depth one more than
the greatest of theirs; a list of pending trees gives the same in any order. The references are the names of the
variables and of the functions that the nodes have in preorder, each at its first place only, and they mention the
names at nodes. -/
theorem traversals_compute_recursions (expr : Expr) :
    expr.countNodes = 1 + (expr.children.map Expr.countNodes).sum ∧
      expr.levels = 1 + (expr.children.map Expr.levels).foldr max 0 ∧
      (∀ count (pending pending' : List Expr), pending.Perm pending' →
        Expr.countNodesFrom count pending = Expr.countNodesFrom count pending') ∧
      (∀ deepest (pending pending' : List (Nat × Expr)), pending.Perm pending' →
        Expr.levelsFrom deepest pending = Expr.levelsFrom deepest pending') ∧
      expr.nodes = expr :: expr.children.flatMap Expr.nodes ∧
      (References.ofExpr expr).variables = (expr.nodes.filterMap Expr.variableName?).eraseDups ∧
      (References.ofExpr expr).functions = (expr.nodes.filterMap Expr.functionName?).eraseDups ∧
      (References.ofExpr expr).variables.Nodup ∧ (References.ofExpr expr).functions.Nodup ∧
      ∀ name, (References.ofExpr expr).mentions name = true ↔
        .variable name ∈ expr.nodes ∨ ∃ args, .call name args ∈ expr.nodes := by
  refine ⟨expr.countNodes_eq_sum, expr.levels_eq_foldr, fun count _ _ h => Expr.countNodesFrom_perm count h,
    fun deepest _ _ h => Expr.levelsFrom_perm deepest h, ?_, References.variables_ofExpr expr,
    References.functions_ofExpr expr, ?_, ?_, fun name => ?_⟩
  · rw [← Expr.nodesAll_eq_flatMap, ← Expr.nodes_eq]
  · rw [References.variables_ofExpr]
    exact References.nodup_eraseDups _
  · rw [References.functions_ofExpr]
    exact References.nodup_eraseDups _
  · rw [References.mentions_iff, References.mem_variables_ofExpr, References.mem_functions_ofExpr]

end Formulary
