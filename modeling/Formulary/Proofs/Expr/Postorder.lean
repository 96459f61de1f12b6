import Formulary.Proofs.Expr.Recognized

/-!
# Nodes in postorder

The nodes of a tree, children from left to right and then the node, each with the subtree below it. A subtree takes up
as many places in a row as it has nodes, the last of which is its root's (`Expr.exists_fills`). So what stands at the
places of some trees belongs to them with all that is below it (`Fills.size_le`).
-/

namespace Formulary

namespace Expr

mutual

/-- The subtrees of a tree in postorder. -/
def postorder : Expr → List Expr
  | .boolean b => [.boolean b]
  | .number n => [.number n]
  | .text s => [.text s]
  | .variable name => [.variable name]
  | .call name args => postorderAll args ++ [.call name args]
  | .unary op operand => operand.postorder ++ [.unary op operand]
  | .binary op left right => left.postorder ++ (right.postorder ++ [.binary op left right])
  | .conditional condition whenTrue whenFalse =>
    condition.postorder ++ (whenTrue.postorder ++ (whenFalse.postorder ++
      [.conditional condition whenTrue whenFalse]))

def postorderAll : List Expr → List Expr
  | [] => []
  | expr :: rest => expr.postorder ++ postorderAll rest

end

theorem postorder_eq (expr : Expr) : expr.postorder = postorderAll expr.children ++ [expr] := by
  cases expr <;> simp [postorder, postorderAll, children]

theorem sizeAll_singleton (expr : Expr) : sizeAll [expr] = expr.size := Nat.add_zero _

@[simp] theorem postorderAll_singleton (expr : Expr) : postorderAll [expr] = expr.postorder := List.append_nil _

theorem postorderAll_append (xs ys : List Expr) : postorderAll (xs ++ ys) = postorderAll xs ++ postorderAll ys := by
  induction xs with
  | nil => rfl
  | cons x xs ih => rw [List.cons_append, postorderAll, postorderAll, ih, List.append_assoc]

theorem length_postorderAll_of {exprs : List Expr} (h : ∀ expr ∈ exprs, expr.postorder.length = expr.size) :
    (postorderAll exprs).length = sizeAll exprs := by
  induction exprs with
  | nil => rfl
  | cons expr rest ih =>
    rw [postorderAll, List.length_append, h expr List.mem_cons_self,
      ih fun e he => h e (List.mem_cons_of_mem _ he), sizeAll]

theorem length_postorder (expr : Expr) : expr.postorder.length = expr.size := by
  induction expr using inductChildren with
  | step expr ih => rw [postorder_eq, List.length_append, length_postorderAll_of ih, size_eq, Nat.add_comm]; rfl

theorem length_postorderAll (exprs : List Expr) : (postorderAll exprs).length = sizeAll exprs :=
  length_postorderAll_of fun expr _ => length_postorder expr

end Expr

/-- The trees take up the places from `start` on up to `stop`. -/
structure Fills (order : List Expr) (start stop : Nat) (trees : List Expr) : Prop where
  exists_eq : ∃ before after, order = before ++ (Expr.postorderAll trees ++ after) ∧ before.length = start
  stop_eq : stop = start + Expr.sizeAll trees

namespace Fills

variable {order : List Expr} {start stop : Nat}

theorem self (trees : List Expr) : Fills (Expr.postorderAll trees) 0 (Expr.sizeAll trees) trees :=
  ⟨⟨[], [], by simp, rfl⟩, (Nat.zero_add _).symm⟩

theorem append {xs ys : List Expr} (h : Fills order start stop (xs ++ ys)) :
    ∃ middle, Fills order start middle xs ∧ Fills order middle stop ys := by
  obtain ⟨⟨before, after, heq, hlength⟩, hstop⟩ := h
  rw [Expr.postorderAll_append, List.append_assoc] at heq
  rw [Expr.sizeAll_append, ← Nat.add_assoc] at hstop
  refine ⟨start + Expr.sizeAll xs, ⟨⟨before, _, heq, hlength⟩, rfl⟩,
    ⟨⟨before ++ Expr.postorderAll xs, after, ?_, ?_⟩, hstop⟩⟩
  · rw [heq, List.append_assoc]
  · rw [List.length_append, Expr.length_postorderAll, hlength]

theorem concat {xs ys : List Expr} {middle : Nat} (hxs : Fills order start middle xs)
    (hys : Fills order middle stop ys) : Fills order start stop (xs ++ ys) := by
  obtain ⟨⟨before, after, heq, hlength⟩, hmiddle⟩ := hxs
  obtain ⟨⟨before', after', heq', hlength'⟩, hstop⟩ := hys
  have hbefore : before ++ Expr.postorderAll xs = before' :=
    List.append_inj_left ((List.append_assoc _ _ _).trans (heq.symm.trans heq'))
      (by rw [List.length_append, Expr.length_postorderAll]; omega)
  refine ⟨⟨before, after', ?_, hlength⟩, ?_⟩
  · rw [heq', ← hbefore, Expr.postorderAll_append]
    simp only [List.append_assoc]
  · rw [Expr.sizeAll_append]
    omega

theorem start_unique {trees : List Expr} {start' : Nat} (h : Fills order start stop trees)
    (h' : Fills order start' stop trees) : start = start' := by
  have := h.stop_eq
  have := h'.stop_eq
  omega

theorem cons {x : Expr} {xs : List Expr} (h : Fills order start stop (x :: xs)) :
    ∃ middle, Fills order start middle [x] ∧ Fills order middle stop xs :=
  @append order start stop [x] xs h

/-- A tree ends with its root, before which its children stand. -/
theorem root {expr : Expr} (h : Fills order start stop [expr]) :
    ∃ place, stop = place + 1 ∧ order[place]? = some expr ∧ Fills order start place expr.children := by
  obtain ⟨⟨before, after, heq, hlength⟩, hstop⟩ := h
  rw [Expr.postorderAll_singleton, Expr.postorder_eq, List.append_assoc] at heq
  refine ⟨start + Expr.sizeAll expr.children, ?_, ?_, ⟨⟨before, _, heq, hlength⟩, rfl⟩⟩
  · rw [hstop, Expr.sizeAll, Expr.sizeAll, Expr.size_eq]
    omega
  · rw [heq, ← List.append_assoc, List.getElem?_append_right (by simp [hlength, Expr.length_postorderAll])]
    simp [hlength, Expr.length_postorderAll]

/-- Places within places. -/
theorem trans {trees inner : List Expr} {first last : Nat} (h : Fills order start stop trees)
    (hinner : Fills (Expr.postorderAll trees) first last inner) : Fills order (start + first) (start + last) inner := by
  obtain ⟨⟨before, after, heq, hlength⟩, -⟩ := h
  obtain ⟨⟨before', after', heq', hlength'⟩, hlast⟩ := hinner
  refine ⟨⟨before ++ before', after' ++ after, ?_, ?_⟩, ?_⟩
  · rw [heq, heq']
    simp only [List.append_assoc]
  · rw [List.length_append, hlength, hlength']
  · rw [hlast, Nat.add_assoc]

theorem getElem? {trees : List Expr} {i : Nat} (h : Fills order start stop trees) (hi : i < Expr.sizeAll trees) :
    order[start + i]? = (Expr.postorderAll trees)[i]? := by
  obtain ⟨⟨before, after, heq, hlength⟩, -⟩ := h
  rw [heq, List.getElem?_append_right (by omega), hlength, Nat.add_sub_cancel_left,
    List.getElem?_append_left (by rwa [Expr.length_postorderAll])]

end Fills

namespace Expr

theorem exists_fills_all {trees : List Expr} {i : Nat} {node : Expr} (h : (postorderAll trees)[i]? = some node)
    (hall : ∀ tree ∈ trees, ∀ i, tree.postorder[i]? = some node → ∃ start, Fills tree.postorder start (i + 1) [node]) :
    ∃ start, Fills (postorderAll trees) start (i + 1) [node] := by
  have hlt : i < sizeAll trees := by
    rw [← length_postorderAll]
    exact (List.getElem?_eq_some_iff.1 h).1
  induction trees generalizing i with
  | nil => exact absurd hlt (Nat.not_lt_zero i)
  | cons tree rest ih =>
    obtain ⟨middle, hfirst, hrest⟩ := (Fills.self (tree :: rest)).cons
    obtain rfl := hfirst.stop_eq
    rw [sizeAll] at hlt
    have hsize := sizeAll_singleton tree
    by_cases hi : i < tree.size
    · have hnode := hfirst.getElem? (i := i) (by omega)
      rw [Nat.zero_add, h, postorderAll_singleton] at hnode
      obtain ⟨start, hfills⟩ := hall tree List.mem_cons_self i hnode.symm
      rw [← postorderAll_singleton] at hfills
      exact ⟨_, by simpa using hfirst.trans hfills⟩
    · have hnode := hrest.getElem? (i := i - tree.size) (by omega)
      rw [show 0 + sizeAll [tree] + (i - tree.size) = i by omega, h] at hnode
      obtain ⟨start, hfills⟩ := ih hnode.symm (fun t ht => hall t (List.mem_cons_of_mem _ ht)) (by omega)
      have hinner := hrest.trans hfills
      rw [show 0 + sizeAll [tree] + (i - tree.size + 1) = i + 1 by omega] at hinner
      exact ⟨_, hinner⟩

/-- **Subtrees.** The subtree of each node takes up the places up to that of the node. -/
theorem exists_fills {expr node : Expr} {i : Nat} (h : expr.postorder[i]? = some node) :
    ∃ start, Fills expr.postorder start (i + 1) [node] := by
  induction expr using inductChildren generalizing i with
  | step expr ih =>
    have hself := Fills.self [expr]
    obtain ⟨place, hplace, hroot, hchildren⟩ := hself.root
    rw [postorderAll_singleton] at hself hroot hchildren
    by_cases hi : i < place
    · have hsize := hchildren.stop_eq
      have hnode := hchildren.getElem? (i := i) (by omega)
      rw [Nat.zero_add, h] at hnode
      obtain ⟨start, hfills⟩ := exists_fills_all hnode.symm fun child hchild i => ih child hchild
      exact ⟨_, by simpa using hchildren.trans hfills⟩
    · have hlt := (List.getElem?_eq_some_iff.1 h).1
      rw [length_postorder] at hlt
      have hsize := sizeAll_singleton expr
      obtain rfl : i = place := by omega
      obtain rfl := Option.some.inj (h.symm.trans hroot)
      exact ⟨0, by rwa [← hplace]⟩

end Expr

/-- What stands among some trees belongs to them with its subtree. -/
theorem Fills.size_le {order trees : List Expr} {start stop i : Nat} {node : Expr}
    (h : Fills order start stop trees) (hnode : order[i]? = some node) (hstart : start ≤ i) (hstop : i < stop) :
    start + node.size ≤ i + 1 := by
  have hlt := h.stop_eq
  have hsame := h.getElem? (i := i - start) (by omega)
  rw [Nat.add_sub_cancel' hstart, hnode] at hsame
  obtain ⟨first, hfills⟩ := Expr.exists_fills_all hsame.symm fun _ _ _ => Expr.exists_fills
  have hsize := Expr.sizeAll_singleton node
  have := hfills.stop_eq
  omega

end Formulary
