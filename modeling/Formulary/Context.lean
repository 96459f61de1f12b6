import Formulary.Dictionary
import Formulary.Error
import Formulary.Script.Fragment
import Formulary.Script.Parser

/-!
# Contexts

A context gives formulas their variables and functions, the code that reads and calls them, and the script
that generated code stands for. Its answers are computations of a monad `m`, so it may keep a state; `m` is
arbitrary for all that runs formulas, which therefore can tell nothing about a context but its answers.

`Context.ofLookup` makes a context of the two answers that every context must have. `Context.traced`
records what a context is asked.
-/

namespace Formulary

/-- Values of variables that hold for one evaluation. -/
abbrev Bindings := Dictionary Value

/-- An answer of a computation that may fail. -/
abbrev Answer (m : Type → Type) := ExceptT FormulaError m

/-- An answer that is there already. -/
def Answer.ofExcept {m : Type → Type} [Monad m] {α : Type} (result : Except FormulaError α) :
    Answer m α :=
  ExceptT.mk (pure result)

/-- The call of a function, seen from one of its arguments. -/
structure Frame where
  name : String
  aggregate : Bool
deriving DecidableEq, Repr

structure Context (m : Type → Type) where
  /-- The value of a variable. -/
  lookup : (name : String) → Bindings → Answer m Value
  /-- The value of a variable inside the aggregate calls with these indices. -/
  lookupScoped : (name : String) → (indices : List Nat) → Bindings → Answer m Value
  /-- The result of a function for arguments. -/
  call : (name : String) → List Value → Answer m Value
  /-- Code that reads a variable. -/
  variableCode : (name : String) → (indices : List Nat) → Answer m String
  /-- Code that calls a function with arguments given as code. -/
  callCode : (name : String) → (args : List String) → (indices : List Nat) → Answer m String
  isAggregate : (name : String) → m Bool
  /-- The code of an argument begins. -/
  beginFrame : Frame → m Unit
  /-- The code of an argument ends. -/
  endFrame : (name : String) → m Unit
  /-- The indices of the aggregate calls around the current place, from the outside in. -/
  openIndices : m (List Nat)
  beginCompile : m Unit
  endCompile : m Unit
  settleCompile : m Unit
  /-- Whether the last compilation met a call of an aggregate function. -/
  hasAggregates : m Bool
  /-- The script that is run for generated code. -/
  load : (code : String) → Answer m Script

namespace Context

variable {m : Type → Type} [Monad m]

/-- Code stands for the script that it is the text of. -/
def loadScript (code : String) : Answer m Script := Answer.ofExcept (Script.ofCode code)

/-- A context without aggregate functions that looks variables up in one way wherever they stand. -/
def ofLookup (lookup : (name : String) → Bindings → Answer m Value)
    (call : (name : String) → List Value → Answer m Value) : Context m where
  lookup := lookup
  lookupScoped name _ bindings := lookup name bindings
  call := call
  variableCode name indices := pure (Script.variableCode name indices)
  callCode name args _ := pure (Script.callCode name args)
  isAggregate _ := pure false
  beginFrame _ := pure ()
  endFrame _ := pure ()
  openIndices := pure []
  beginCompile := pure ()
  endCompile := pure ()
  settleCompile := pure ()
  hasAggregates := pure false
  load := loadScript

/-- The variable's value among the bindings. -/
def boundValue (name : String) (bindings : Bindings) : Except FormulaError Value :=
  match bindings.find? name with
  | some value => .ok value
  | none => .error (.unknownVariable name)

/-- The code of some variables is given, and that of others fails. -/
def withVariableCode (code : Dictionary String) (failing : List String) (ctx : Context m) :
    Context m :=
  { ctx with
    variableCode := fun name indices =>
      if failing.contains name then Answer.ofExcept (.error (.evaluation ("cannot compile " ++ name)))
      else match code.find? name with
        | some text => pure text
        | none => ctx.variableCode name indices }

end Context

/-- A question to a context that leaves a trace. -/
inductive Request where
  | lookup (name : String)
  | lookupScoped (name : String) (indices : List Nat)
  | call (name : String) (count : Nat)
  | beginCompile
  | endCompile
  | settleCompile
  | beginFrame (name : String) (aggregate : Bool)
  | endFrame (name : String)
  | callCode (name : String) (count : Nat) (indices : List Nat)
deriving DecidableEq, Repr

/-- A list of indices between brackets. -/
def showIndices (indices : List Nat) : String :=
  "[" ++ ", ".intercalate (indices.map toString) ++ "]"

/-- A request on one line. -/
def Request.describe : Request → String
  | lookup name => "var " ++ name
  | lookupScoped name indices => "scoped " ++ name ++ " " ++ showIndices indices
  | call name count => "call " ++ name ++ "/" ++ toString count
  | beginCompile => "will"
  | endCompile => "did"
  | settleCompile => "complete"
  | beginFrame name aggregate => "begin " ++ name ++ (if aggregate then " true" else " false")
  | endFrame name => "end " ++ name
  | callCode name count indices =>
    "compile " ++ name ++ "/" ++ toString count ++ " " ++ showIndices indices

namespace Context

variable {m : Type → Type} [Monad m]

/-- Variables are bindings only, and the one function is `count`; what is asked is recorded. -/
def minimal (record : Request → m Unit) : Context m :=
  ofLookup
    (fun name bindings => do
      ExceptT.lift (record (.lookup name))
      Answer.ofExcept (boundValue name bindings))
    fun name args => do
      ExceptT.lift (record (.call name args.length))
      Answer.ofExcept (if name = "count" then .ok (.number (.ofNat args.length))
        else .error (.unknownFunction name))

/-- Records each question before it is passed on. -/
def traced (record : Request → m Unit) (ctx : Context m) : Context m :=
  { ctx with
    lookup := fun name bindings => do
      ExceptT.lift (record (.lookup name))
      ctx.lookup name bindings
    call := fun name args => do
      ExceptT.lift (record (.call name args.length))
      ctx.call name args
    lookupScoped := fun name indices bindings => do
      ExceptT.lift (record (.lookupScoped name indices))
      ctx.lookupScoped name indices bindings
    callCode := fun name args indices => do
      ExceptT.lift (record (.callCode name args.length indices))
      ctx.callCode name args indices
    beginFrame := fun frame => do
      record (.beginFrame frame.name frame.aggregate)
      ctx.beginFrame frame
    endFrame := fun name => do
      record (.endFrame name)
      ctx.endFrame name
    beginCompile := do record .beginCompile; ctx.beginCompile
    endCompile := do record .endCompile; ctx.endCompile
    settleCompile := do record .settleCompile; ctx.settleCompile }

end Context

end Formulary
