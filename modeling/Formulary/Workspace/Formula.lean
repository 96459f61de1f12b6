import Formulary.Expr.References
import Formulary.Expr.Walk
import Formulary.Postfix.Run
import Formulary.Source.Parser
import Formulary.Workspace.Basic

/-!
# Formulas in a workspace

A formula reads its source when the tree is first needed, and compiles the tree when the compiled form is;
it keeps what it found, also an error, for as long as it counts. A new source ends both, a new host or
a change of the host's namespace the compiled form only. A formula without a host gets an empty one
when it needs one.
-/

namespace Formulary

namespace Workspace

/-- Ends the formula's subscription to its host. -/
def detach (w : Workspace) (id : Nat) : Workspace :=
  match (w.formula id).attachment with
  | none => w
  | some attachment =>
    let freed := w.updateHost attachment.host fun host =>
      { host with channel := host.channel.erase attachment.subscription }
    freed.updateFormula id ({ · with attachment := none })

/-- Attaches the formula to another host. -/
def attach (w : Workspace) (id hostId : Nat) : Workspace :=
  let w := w.detach id
  let subscription := (w.host hostId).channel.next
  let heard := w.updateHost hostId fun host =>
    { host with channel := host.channel.insert (.formula id) }
  heard.updateFormula id ({ · with attachment := some ⟨hostId, subscription⟩ })

/-- The tree and the compiled form count no longer. -/
def invalidate (w : Workspace) (id : Nat) : Workspace :=
  w.updateFormula id ({ · with tree := none, compiled := none })

/-- The compiled form counts no longer. -/
def invalidateCode (w : Workspace) (id : Nat) : Workspace :=
  w.updateFormula id ({ · with compiled := none, outdated := false })

def setSource (w : Workspace) (id : Nat) (source : String) : Workspace :=
  (w.updateFormula id ({ · with source := source })).invalidate id

/-- Attaches the formula to a host, or to none. -/
def setHost (w : Workspace) (id : Nat) (hostId : Option Nat) : Workspace :=
  let moved := match hostId with
    | some hostId => w.attach id hostId
    | none => w.detach id
  moved.invalidateCode id

def setStrategy (w : Workspace) (id : Nat) (strategy : Strategy) : Workspace :=
  w.updateFormula id ({ · with strategy := strategy })

/-- The formula gets the number `formulas.next`. -/
def addFormula (w : Workspace) (source : String) (strategy : Strategy) (hostId : Option Nat) :
    Workspace :=
  let id := w.formulas.next
  let added := { w with formulas := w.formulas.insert (.ofSource source strategy) }
  match hostId with
  | some hostId => added.setHost id (some hostId)
  | none => added

/-- Takes the formula out of the workspace. -/
def dropFormula (w : Workspace) (id : Nat) : Workspace :=
  let detached := w.detach id
  { detached with formulas := detached.formulas.erase id }

/-- Forgets a compiled form that is outdated. -/
def dropOutdated (w : Workspace) (id : Nat) : Workspace :=
  w.updateFormula id fun f => if f.outdated then { f with compiled := none, outdated := false } else f

/-- The number of the host of a formula, which gets an empty one if it has none. -/
def ensureHost (id : Nat) : WorkspaceM Nat := do
  match ((← get).formula id).attachment with
  | some attachment => pure attachment.host
  | none => do
    let hostId := (← get).hosts.next
    modify fun w => (w.addHost .plain .empty).attach id hostId
    pure hostId

/-- The context in which a formula is run. -/
def formulaContext (id : Nat) : WorkspaceM (Context WorkspaceM) := do
  hostContext (← ensureHost id)

/-- Reads a source, a blank one without a tree. -/
def readSource (source : String) : Answer WorkspaceM (Option Expr) :=
  if isBlankText source then pure none
  else do
    ExceptT.lift (modify (·.record (.parsed source)))
    Answer.ofExcept <|
      match Expr.ofText? source with
      | .ok expr => .ok (some expr)
      | .error error => .error error.toFormulaError

/-- The tree of a formula. -/
def tree (id : Nat) : Answer WorkspaceM (Option Expr) := ExceptT.mk do
  let f := (← get).formula id
  match f.tree with
  | some found => pure found
  | none => do
    let found ← (readSource f.source).run
    modify (·.updateFormula id ({ · with tree := some found }))
    pure found

/-- Compiles the tree of a formula. -/
def compile (id : Nat) : Answer WorkspaceM (Option Compiled) := do
  match ← tree id with
  | none => pure none
  | some expr =>
    let ctx ← ExceptT.lift (formulaContext id)
    some <$> Compiled.ofExpr ctx expr

/-- The compiled form of a formula. -/
def compiled (id : Nat) : Answer WorkspaceM (Option Compiled) := ExceptT.mk do
  modify (·.dropOutdated id)
  match ((← get).formula id).compiled with
  | some found => pure found
  | none => do
    let found ← (compile id).run
    modify (·.updateFormula id ({ · with compiled := some found }))
    pure found

/-- Whether the formula calls an aggregate function; one that does not compile calls none. -/
def hasAggregates (id : Nat) : WorkspaceM Bool := do
  match ← (compiled id).run with
  | .ok (some form) => pure form.hasAggregates
  | .ok none | .error _ => pure false

/-- The value of a formula, no data if its source is blank. -/
def evaluate (id : Nat) (strategy : Strategy) (bindings : Bindings) : Answer WorkspaceM Value :=
  match strategy with
  | .compiled => do
    match ← compiled id with
    | none => pure .empty
    | some form => form.call (← ExceptT.lift (formulaContext id)) bindings
  | .direct => do
    match ← tree id with
    | none => pure .empty
    | some expr => expr.evaluate (← ExceptT.lift (formulaContext id)) bindings
  | .flattened => do
    match ← tree id with
    | none => pure .empty
    | some expr => expr.evaluatePostfix (← ExceptT.lift (formulaContext id)) bindings

/-- The value of a formula by its own strategy. -/
def run (id : Nat) (bindings : Bindings) : Answer WorkspaceM Value := do
  evaluate id ((← get).formula id).strategy bindings

/-- Runs the compiled form in a host that need not be the formula's. -/
def callCompiled (id hostId : Nat) (bindings : Bindings) : Answer WorkspaceM (Option Value) := do
  match ← compiled id with
  | none => pure none
  | some form => some <$> form.call (← ExceptT.lift (hostContext hostId)) bindings

/-- The names that a formula refers to. -/
def references (id : Nat) : Answer WorkspaceM References := do
  match ← tree id with
  | none => pure .empty
  | some expr => pure (.ofExpr expr)

end Workspace

end Formulary
