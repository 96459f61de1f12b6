import Formulary.Workspace.Formula

/-!
# Formulas with any parser and any context

What a formula does with its source, its tree and its compiled form depends neither on the grammar nor on what its
context is. `FormulaAccess` leaves both open: it reaches a formula, reads sources in some way, and has some
context. A formula in a workspace is one instance (`Workspace.formulaAccess`), and all that can be asked of it
there is what the open form of the same request asks (`Workspace.tree_eq`, `compiled_eq` and so on).
-/

namespace Formulary

/-- How a computation reaches a formula, a parser and the formula's context. -/
structure FormulaAccess (m : Type → Type) where
  read : m Formula
  update : (Formula → Formula) → m Unit
  /-- Reads a source that is not blank. -/
  parse : (source : String) → Answer m Expr
  /-- The context that the formula is attached to, or a first one if it has none. -/
  context : m (Context m)

namespace FormulaAccess

variable {m : Type → Type} [Monad m] (access : FormulaAccess m)

/-! ## Changes -/

def invalidate : m Unit := access.update ({ · with tree := none, compiled := none })

def invalidateCode : m Unit := access.update ({ · with compiled := none, outdated := false })

def setSource (source : String) : m Unit := do
  access.update ({ · with source := source })
  access.invalidate

/-- Another context takes the place of the formula's by a move. -/
def setContext (move : m Unit) : m Unit := do
  move
  access.invalidateCode

/-- The formula hears an event of its context. -/
def hear (event : ChangeEvent) : m Unit :=
  if event.outdatesCode then access.update ({ · with outdated := true }) else pure ()

/-- Forgets a compiled form that is outdated. -/
def dropOutdated : m Unit :=
  access.update fun f => if f.outdated then { f with compiled := none, outdated := false } else f

/-! ## Reads -/

/-- Reads a source, a blank one without a tree. -/
def readSource (source : String) : Answer m (Option Expr) :=
  if isBlankText source then pure none
  else do
    let expr ← access.parse source
    pure (some expr)

def tree : Answer m (Option Expr) := ExceptT.mk do
  let f ← access.read
  match f.tree with
  | some found => pure found
  | none => do
    let found ← (access.readSource f.source).run
    access.update ({ · with tree := some found })
    pure found

def compile : Answer m (Option Compiled) := do
  match ← access.tree with
  | none => pure none
  | some expr =>
    let ctx ← ExceptT.lift access.context
    some <$> Compiled.ofExpr ctx expr

def compiled : Answer m (Option Compiled) := ExceptT.mk do
  access.dropOutdated
  let f ← access.read
  match f.compiled with
  | some found => pure found
  | none => do
    let found ← access.compile.run
    access.update ({ · with compiled := some found })
    pure found

def hasAggregates : m Bool := do
  match ← access.compiled.run with
  | .ok (some form) => pure form.hasAggregates
  | .ok none | .error _ => pure false

def evaluate (strategy : Strategy) (bindings : Bindings) : Answer m Value :=
  match strategy with
  | .compiled => do
    match ← access.compiled with
    | none => pure .empty
    | some form => form.call (← ExceptT.lift access.context) bindings
  | .direct => do
    match ← access.tree with
    | none => pure .empty
    | some expr => expr.evaluate (← ExceptT.lift access.context) bindings
  | .flattened => do
    match ← access.tree with
    | none => pure .empty
    | some expr => expr.evaluatePostfix (← ExceptT.lift access.context) bindings

def run (bindings : Bindings) : Answer m Value := do
  let f ← ExceptT.lift access.read
  access.evaluate f.strategy bindings

def references : Answer m References := do
  match ← access.tree with
  | none => pure .empty
  | some expr => pure (.ofExpr expr)

end FormulaAccess

/-! ## Formulas of a workspace -/

namespace Workspace

/-- A formula of a workspace, with the grammar of formulas and a host for its context. -/
def formulaAccess (id : Nat) : FormulaAccess WorkspaceM where
  read := do return (← get).formula id
  update change := modify (·.updateFormula id change)
  parse source := do
    ExceptT.lift (modify (·.record (.parsed source)))
    Answer.ofExcept <|
      match Expr.ofText? source with
      | .ok expr => .ok expr
      | .error error => .error error.toFormulaError
  context := formulaContext id

variable (id : Nat)

theorem readSource_eq (source : String) : readSource source = (formulaAccess id).readSource source := by
  unfold readSource FormulaAccess.readSource
  split
  · rfl
  · rewrite [formulaAccess, bind_assoc]
    refine congrArg _ (funext fun _ => ?_)
    cases Expr.ofText? source with
    | ok expr => rfl
    | error error => rfl

theorem tree_eq : tree id = (formulaAccess id).tree := by
  unfold tree FormulaAccess.tree
  simp only [readSource_eq id]
  rfl

theorem compile_eq : compile id = (formulaAccess id).compile := by
  unfold compile FormulaAccess.compile
  rewrite [tree_eq]
  rfl

theorem compiled_eq : compiled id = (formulaAccess id).compiled := by
  unfold compiled FormulaAccess.compiled
  rewrite [compile_eq]
  rfl

theorem hasAggregates_eq : hasAggregates id = (formulaAccess id).hasAggregates := by
  unfold hasAggregates FormulaAccess.hasAggregates
  rewrite [compiled_eq]
  rfl

theorem evaluate_eq (strategy : Strategy) (bindings : Bindings) :
    evaluate id strategy bindings = (formulaAccess id).evaluate strategy bindings := by
  unfold evaluate FormulaAccess.evaluate
  rewrite [compiled_eq, tree_eq]
  rfl

theorem run_eq (bindings : Bindings) : run id bindings = (formulaAccess id).run bindings := by
  unfold run FormulaAccess.run
  simp only [evaluate_eq]
  rfl

theorem references_eq : references id = (formulaAccess id).references := by
  unfold references FormulaAccess.references
  rewrite [tree_eq]
  rfl

/-- A formula hears an event and passes it on. -/
theorem deliver_eq (w : Workspace) (event : ChangeEvent) :
    deliver event w (.formula id) = event.forwarded.foldl (fun w event => w.deliverFrom id event)
      (((formulaAccess id).hear event).run w).2 := by
  cases event <;> rfl

end Workspace

end Formulary
