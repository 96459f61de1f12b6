import Formulary.Proofs.Answer

/-!
# Audits of contexts

`Context.audited` notes everything that its context is asked or told, with all that is given to it. An audit
of a computation is its result, what was noted in the meantime and the state it ends in; `Audits` says that
a computation has an audit, and that it runs the same where nothing is noted. Audits are put together in the
order of the computations (`Audits.bind_ok`), and a failure is the end of them (`Audits.bind_error`).
-/

namespace Formulary

/-- Anything that a context is asked or told. -/
inductive Query where
  | lookup (name : String) (bindings : Bindings)
  | lookupScoped (name : String) (indices : List Nat) (bindings : Bindings)
  | call (name : String) (args : List Value)
  | variableCode (name : String) (indices : List Nat)
  | callCode (name : String) (codes : List String) (indices : List Nat)
  | isAggregate (name : String)
  | beginFrame (frame : Frame)
  | endFrame (name : String)
  | openIndices
  | beginCompile
  | endCompile
  | settleCompile
  | hasAggregates
  | load (code : String)

/-- The monad of computations in which queries are noted. -/
abbrev Audited (m : Type → Type) := StateT (List Query) m

namespace Audited

variable {m : Type → Type} [Monad m] {α : Type}

/-- Notes a query and does what it asks for. -/
def note (query : Query) (action : m α) : Audited m α := do
  modify (· ++ [query])
  StateT.lift action

/-- The same for a query whose answer may fail. -/
def noteAnswer (query : Query) (answer : Answer m α) : Answer (Audited m) α :=
  ExceptT.mk (note query answer.run)

end Audited

namespace Context

variable {m : Type → Type} [Monad m]

open Audited in
/-- The context with its queries noted. -/
def audited (ctx : Context m) : Context (Audited m) where
  lookup name bindings := noteAnswer (.lookup name bindings) (ctx.lookup name bindings)
  lookupScoped name indices bindings :=
    noteAnswer (.lookupScoped name indices bindings) (ctx.lookupScoped name indices bindings)
  call name args := noteAnswer (.call name args) (ctx.call name args)
  variableCode name indices := noteAnswer (.variableCode name indices) (ctx.variableCode name indices)
  callCode name codes indices :=
    noteAnswer (.callCode name codes indices) (ctx.callCode name codes indices)
  isAggregate name := note (.isAggregate name) (ctx.isAggregate name)
  beginFrame frame := note (.beginFrame frame) (ctx.beginFrame frame)
  endFrame name := note (.endFrame name) (ctx.endFrame name)
  openIndices := note .openIndices ctx.openIndices
  beginCompile := note .beginCompile ctx.beginCompile
  endCompile := note .endCompile ctx.endCompile
  settleCompile := note .settleCompile ctx.settleCompile
  hasAggregates := note .hasAggregates ctx.hasAggregates
  load code := noteAnswer (.load code) (ctx.load code)

end Context

/-- All that there is to see of a computation in a context. -/
structure Audit (σ α : Type) where
  result : Except FormulaError α
  queries : List Query
  state : σ

variable {σ α β : Type}

/-- The audit of a computation that starts in a state. -/
def Answer.audit (answer : Answer (Audited (StateM σ)) α) (state : σ) : Audit σ α :=
  let ((result, queries), state') := (answer.run.run []).run state
  ⟨result, queries, state'⟩

/-- A computation and its audited form run alike from a state, and the audit is what there is to see. What was
noted before stays in front. -/
structure Audits (plain : Answer (StateM σ) α) (audited : Answer (Audited (StateM σ)) α) (state : σ)
    (audit : Audit σ α) : Prop where
  runIn_eq : plain.runIn state = (audit.result, audit.state)
  run_eq : ∀ before : List Query,
    (audited.run.run before).run state = ((audit.result, before ++ audit.queries), audit.state)

namespace Audits

variable {plain : Answer (StateM σ) α} {audited : Answer (Audited (StateM σ)) α} {state : σ}

theorem audit_eq {audit : Audit σ α} (h : Audits plain audited state audit) :
    audited.audit state = audit := by
  rw [Answer.audit, h.run_eq []]
  rfl

theorem ofExcept (result : Except FormulaError α) (state : σ) :
    Audits (.ofExcept result) (.ofExcept result) state ⟨result, [], state⟩ where
  runIn_eq := rfl
  run_eq before := by
    rw [List.append_nil]
    rfl

theorem pure (value : α) (state : σ) :
    Audits (Pure.pure value) (Pure.pure value) state ⟨.ok value, [], state⟩ :=
  ofExcept (.ok value) state

theorem throw (error : FormulaError) (state : σ) :
    Audits (α := α) (throwThe FormulaError error) (throwThe FormulaError error) state
      ⟨.error error, [], state⟩ :=
  ofExcept (.error error) state

theorem noteAnswer (query : Query) (answer : Answer (StateM σ) α) (state : σ) :
    Audits answer (Audited.noteAnswer query answer) state
      ⟨(answer.runIn state).1, [query], (answer.runIn state).2⟩ where
  runIn_eq := rfl
  run_eq _ := rfl

theorem note (query : Query) (action : StateM σ α) (state : σ) :
    Audits (ExceptT.lift action) (ExceptT.lift (Audited.note query action)) state
      ⟨.ok (action.run state).1, [query], (action.run state).2⟩ where
  runIn_eq := rfl
  run_eq _ := rfl

variable {next : α → Answer (StateM σ) β} {audited' : α → Answer (Audited (StateM σ)) β}

theorem bind_ok {value : α} {queries : List Query} {state' : σ} {rest : Audit σ β}
    (h : Audits plain audited state ⟨.ok value, queries, state'⟩)
    (hnext : Audits (next value) (audited' value) state' rest) :
    Audits (plain >>= next) (audited >>= audited') state
      ⟨rest.result, queries ++ rest.queries, rest.state⟩ where
  runIn_eq := (Answer.runIn_bind_ok h.runIn_eq).trans hnext.runIn_eq
  run_eq before := by
    rw [ExceptT.run_bind, StateT.run_bind, StateT.run_bind, h.run_eq, ← List.append_assoc]
    exact hnext.run_eq (before ++ queries)

theorem bind_error {error : FormulaError} {queries : List Query} {state' : σ}
    (h : Audits plain audited state ⟨.error error, queries, state'⟩) :
    Audits (plain >>= next) (audited >>= audited') state ⟨.error error, queries, state'⟩ where
  runIn_eq := Answer.runIn_bind_error h.runIn_eq
  run_eq before := by
    rw [ExceptT.run_bind, StateT.run_bind, StateT.run_bind, h.run_eq]
    rfl

/-- Between two actions that are done whether the computation fails or not. -/
theorem between (first : Query) (last : List Query) (start finish : StateM σ Unit)
    (finish' : Audited (StateM σ) Unit) {audit : Audit σ α}
    (h : Audits plain audited (start.run state).2 audit)
    (hfinish : ∀ before state', (finish'.run before).run state' =
      (((), before ++ last), (finish.run state').2)) :
    Audits (ExceptT.mk do start; let result ← plain.run; finish; Pure.pure result)
      (ExceptT.mk do
        Audited.note first start
        let result ← audited.run
        finish'
        Pure.pure result) state
      ⟨audit.result, first :: (audit.queries ++ last), (finish.run audit.state).2⟩ where
  runIn_eq := by
    have hrun : Answer.runIn (ExceptT.mk do start; let result ← plain.run; finish; Pure.pure result) state =
      ((plain.runIn (start.run state).2).1, (finish.run (plain.runIn (start.run state).2).2).2) := rfl
    rw [hrun, h.runIn_eq]
  run_eq before := by
    have hrun : ∀ run : Audited (StateM σ) (Except FormulaError α),
        ((do
          Audited.note first start
          let result ← run
          finish'
          Pure.pure result : Audited (StateM σ) (Except FormulaError α)).run before).run state =
        let ran := (run.run (before ++ [first])).run (start.run state).2
        let finished := (finish'.run ran.1.2).run ran.2
        ((ran.1.1, finished.1.2), finished.2) := fun _ => rfl
    rw [ExceptT.run_mk, hrun, h.run_eq]
    simp only [hfinish, List.append_assoc, List.cons_append, List.nil_append]

end Audits

end Formulary
