import Formulary.Event.Basic
import Formulary.Function.Builtin
import Formulary.Sheet.Scope

/-!
# Sheets

Named values and functions in memory. A change of a sheet goes with the event that tells of it, or with none
if nothing has changed.

A sheet is a context wherever a computation can reach it: `Sheet.context` reads and changes it through a
`SheetAccess`, to which it also announces what its functions do.
-/

namespace Formulary

structure Sheet where
  «variables» : Dictionary Value
  functions : Registry
  scope : Scope

namespace Sheet

def ofFunctions (functions : Registry) : Sheet := ⟨.empty, functions, .initial⟩

/-- No variables and no functions. -/
def empty : Sheet := ofFunctions .empty

instance : Inhabited Sheet := ⟨empty⟩

/-- The built-in functions and no variables. -/
def standard : Sheet := ofFunctions .standard

def setVariable (sheet : Sheet) (name : String) (value : Value) : Sheet :=
  { sheet with «variables» := sheet.variables.insert name value }

/-- A new name changes the namespace, a new value of a known one only what depends on it. -/
def setEvent (sheet : Sheet) (name : String) : ChangeEvent :=
  if sheet.variables.contains name then .dependentChanged (some name) else .namespaceChanged name

def removeVariable (sheet : Sheet) (name : String) : Sheet :=
  { sheet with «variables» := sheet.variables.erase name }

/-- The removal of an unknown name is no event. -/
def removeEvent? (sheet : Sheet) (name : String) : Option ChangeEvent :=
  if sheet.variables.contains name then some (.namespaceChanged name) else none

def register (sheet : Sheet) (f : Function) : Sheet :=
  { sheet with functions := sheet.functions.register f }

/-- The value of a variable, which a binding of its name hides. -/
def valueOf (sheet : Sheet) (bindings : Bindings) (name : String) : Except FormulaError Value :=
  match bindings.find? name with
  | some value => .ok value
  | none => Context.boundValue name sheet.variables

def isAggregate (sheet : Sheet) (name : String) : Bool :=
  (sheet.functions.find? name).any Function.aggregate

/-- The function that a call with so many arguments is of. -/
def functionFor (sheet : Sheet) (name : String) (count : Nat) : Except FormulaError Function :=
  match sheet.functions.find? name with
  | none => .error (.unknownFunction name)
  | some f => (f.checkArity count).map fun _ => f

end Sheet

/-- What a sheet lets be known while a formula runs. -/
inductive Notice where
  | changed (event : ChangeEvent)
  /-- A function has counted its calls up to this one. -/
  | counted (functionName : String) (calls : Nat)
deriving DecidableEq, Repr

/-- How a computation reaches a sheet. -/
structure SheetAccess (m : Type → Type) where
  read : m Sheet
  update : (Sheet → Sheet) → m Unit
  announce : Notice → m Unit

namespace SheetAccess

/-- Access for a computation whose only state is the sheet; nobody hears the notices. -/
def own : SheetAccess (StateM Sheet) where
  read := get
  update := modify
  announce _ := pure ()

variable {m : Type → Type} [Monad m]

/-- Changes the scope only. -/
def updateScope (access : SheetAccess m) (change : Scope → Scope) : m Unit :=
  access.update fun sheet => { sheet with scope := change sheet.scope }

def setVariable (access : SheetAccess m) (name : String) (value : Value) : m Unit := do
  let sheet ← access.read
  access.update (·.setVariable name value)
  access.announce (.changed (sheet.setEvent name))

def removeVariable (access : SheetAccess m) (name : String) : m Unit := do
  let sheet ← access.read
  access.update (·.removeVariable name)
  match sheet.removeEvent? name with
  | some event => access.announce (.changed event)
  | none => pure ()

def register (access : SheetAccess m) (f : Function) : m Unit := do
  access.update (·.register f)
  access.announce (.changed (.namespaceChanged f.name))

/-- Sets variables, one after the other, and then answers. -/
def setAndAnswer (access : SheetAccess m)
    (outcome : List (String × Value) × Except FormulaError Value) : Answer m Value := do
  ExceptT.lift (outcome.1.forM fun change => access.setVariable change.1 change.2)
  Answer.ofExcept outcome.2

/-- Calls a function, whether or not it takes so many arguments. -/
def callBody (access : SheetAccess m) (f : Function) (args : List Value) : Answer m Value :=
  match f.body with
  | .result run => Answer.ofExcept (run args)
  | .setting run => do
    let sheet ← ExceptT.lift access.read
    access.setAndAnswer (run sheet.variables args)
  | .counter calls => ExceptT.lift do
    access.update (·.register { f with body := .counter (calls + 1) })
    access.announce (.counted f.name (calls + 1))
    pure (.number (.ofNat (calls + 1)))

end SheetAccess

/-- The sheet within reach as a context. -/
def Sheet.context {m : Type → Type} [Monad m] (access : SheetAccess m) : Context m where
  lookup name bindings := do
    let sheet ← ExceptT.lift access.read
    Answer.ofExcept (sheet.valueOf bindings name)
  lookupScoped name _ bindings := do
    let sheet ← ExceptT.lift access.read
    Answer.ofExcept (sheet.valueOf bindings name)
  call name args := do
    let sheet ← ExceptT.lift access.read
    let f ← Answer.ofExcept (sheet.functionFor name args.length)
    access.callBody f args
  variableCode name indices := pure (Script.variableCode name indices)
  callCode name args _ := ExceptT.lift do
    let sheet ← access.read
    access.updateScope (·.noteCall (sheet.isAggregate name))
    pure (Script.callCode name args)
  isAggregate name := do
    let sheet ← access.read
    pure (sheet.isAggregate name)
  beginFrame frame := access.updateScope (·.openFrame frame.aggregate)
  endFrame _ := access.updateScope Scope.closeFrame
  openIndices := do
    let sheet ← access.read
    pure sheet.scope.indices
  beginCompile := access.updateScope Scope.begin
  endCompile := access.updateScope Scope.closeAll
  settleCompile := access.updateScope Scope.complete
  hasAggregates := do
    let sheet ← access.read
    pure sheet.scope.hasAggregates
  load := Context.loadScript

end Formulary
