import Formulary.Proofs.Answer

/-!
# What a context notices

A context can tell two computations apart only by what they ask it and in which order. `Context.logged`
keeps the questions with the answers, and `Context.observe` runs a computation in a context that has a
state and shows all there is to see: the result, the exchanges and the state at the end.
-/

namespace Formulary

/-- A question that evaluation asks a context, and its answer. -/
inductive Exchange where
  | lookup (name : String) (bindings : Bindings) (answer : Except FormulaError Value)
  | call (name : String) (args : List Value) (answer : Except FormulaError Value)

def Exchange.answer : Exchange → Except FormulaError Value
  | lookup _ _ answer => answer
  | call _ _ answer => answer

/-- The monad of computations that are listened to. -/
abbrev Dialogue (m : Type → Type) := StateT (List Exchange) m

namespace Dialogue

variable {m : Type → Type} [Monad m] {α : Type}

/-- An answer that leaves no exchange. -/
def silent (answer : Answer m α) : Answer (Dialogue m) α := ExceptT.mk (StateT.lift answer.run)

/-- An answer that is kept as an exchange. -/
def heard (exchange : Except FormulaError Value → Exchange) (answer : Answer m Value) :
    Answer (Dialogue m) Value :=
  ExceptT.mk do
    let result ← StateT.lift answer.run
    modify (· ++ [exchange result])
    pure result

end Dialogue

namespace Context

variable {m : Type → Type} [Monad m]

/-- The context with its exchanges kept. A variable inside aggregate calls is a variable. -/
def logged (ctx : Context m) : Context (Dialogue m) where
  lookup name bindings := Dialogue.heard (.lookup name bindings) (ctx.lookup name bindings)
  lookupScoped name indices bindings :=
    Dialogue.heard (.lookup name bindings) (ctx.lookupScoped name indices bindings)
  call name args := Dialogue.heard (.call name args) (ctx.call name args)
  variableCode name indices := Dialogue.silent (ctx.variableCode name indices)
  callCode name args indices := Dialogue.silent (ctx.callCode name args indices)
  isAggregate name := StateT.lift (ctx.isAggregate name)
  beginFrame frame := StateT.lift (ctx.beginFrame frame)
  endFrame name := StateT.lift (ctx.endFrame name)
  openIndices := StateT.lift ctx.openIndices
  beginCompile := StateT.lift ctx.beginCompile
  endCompile := StateT.lift ctx.endCompile
  settleCompile := StateT.lift ctx.settleCompile
  hasAggregates := StateT.lift ctx.hasAggregates
  load code := Dialogue.silent (ctx.load code)

end Context

/-- All there is to see of a computation. -/
structure Observation (σ : Type) where
  result : Except FormulaError Value
  exchanges : List Exchange
  state : σ

namespace Answer

variable {σ α β : Type}

/-- A computation after the exchanges so far, in a state. -/
def after (answer : Answer (Dialogue (StateM σ)) α) (exchanges : List Exchange) (state : σ) :
    (Except FormulaError α × List Exchange) × σ :=
  (answer.run.run exchanges).run state

/-- The rest of a computation goes on from the exchanges and the state that its beginning leaves. -/
theorem after_bind_ok {answer : Answer (Dialogue (StateM σ)) α}
    {next : α → Answer (Dialogue (StateM σ)) β} {exchanges exchanges' : List Exchange}
    {state state' : σ} {value : α}
    (h : answer.after exchanges state = ((.ok value, exchanges'), state')) :
    (answer >>= next).after exchanges state = (next value).after exchanges' state' := by
  rw [after] at h
  rw [after, ExceptT.run_bind, StateT.run_bind, StateT.run_bind, h]
  rfl

theorem after_bind_error {answer : Answer (Dialogue (StateM σ)) α}
    {next : α → Answer (Dialogue (StateM σ)) β} {exchanges exchanges' : List Exchange}
    {state state' : σ} {error : FormulaError}
    (h : answer.after exchanges state = ((.error error, exchanges'), state')) :
    (answer >>= next).after exchanges state = ((.error error, exchanges'), state') := by
  rw [after] at h
  rw [after, ExceptT.run_bind, StateT.run_bind, StateT.run_bind, h]
  rfl

theorem after_heard (exchange : Except FormulaError Value → Exchange)
    (answer : Answer (StateM σ) Value) (exchanges : List Exchange) (state : σ) :
    (Dialogue.heard exchange answer).after exchanges state =
      (((answer.run.run state).1, exchanges ++ [exchange (answer.run.run state).1]),
        (answer.run.run state).2) := rfl

end Answer

namespace Context

variable {σ : Type}

/-- A computation in a context, seen from a state. -/
def observe (ctx : Context (StateM σ)) (state : σ)
    (evaluate : Context (Dialogue (StateM σ)) → Answer (Dialogue (StateM σ)) Value) : Observation σ :=
  let ((result, exchanges), state) := (evaluate ctx.logged).after [] state
  ⟨result, exchanges, state⟩

end Context

end Formulary
