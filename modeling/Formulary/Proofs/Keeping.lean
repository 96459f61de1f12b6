import Formulary.Proofs.Alike
import Formulary.Proofs.Postfix.Simulation
import Formulary.Sheet.Basic
import Mathlib.Order.Defs.Unbundled

/-!
# What computations do to a state

`Keeps R action`: whatever the state, the action leads to one that is related to it. For a preorder `R` this holds
of what is put together from actions that keep it; so if every answer of a context keeps `R`, then so do the
evaluation of a tree and its compilation (`Context.EachValue.walk`, `Context.Each.ofExpr`), and every answer of a
sheet does if the access to the sheet does (`Sheet.context_each`).
-/

namespace Formulary

variable {σ : Type} {R : σ → σ → Prop} {α β : Type}

/-- The action leads from every state to one in relation to it. -/
def Keeps (R : σ → σ → Prop) (action : StateM σ α) : Prop := ∀ state, R state (action.run state).2

theorem Keeps.mono {R' : σ → σ → Prop} {action : StateM σ α} (h : Keeps R action)
    (hle : ∀ state state', R state state' → R' state state') : Keeps R' action :=
  fun state => hle _ _ (h state)

section Preorder

variable [IsPreorder σ R] {action : StateM σ α}

theorem keeps_pure (value : α) : Keeps R (pure value) := fun state => refl_of R state

theorem Keeps.bind {next : α → StateM σ β} (h : Keeps R action) (hnext : ∀ value, Keeps R (next value)) :
    Keeps R (action >>= next) :=
  fun state => trans_of R (h state) (hnext _ _)

theorem Keeps.forM {items : List α} {action : α → StateM σ Unit} (h : ∀ item, Keeps R (action item)) :
    Keeps R (items.forM action) := by
  induction items with
  | nil => exact keeps_pure ()
  | cons item items ih => exact (h item).bind fun _ => ih

/-- An answer goes on only if it has not failed. -/
theorem Keeps.andThen {answer : Answer (StateM σ) α} {next : α → Answer (StateM σ) β} (h : Keeps R answer.run)
    (hnext : ∀ value, Keeps R (next value).run) : Keeps R (answer >>= next).run := by
  rw [ExceptT.run_bind]
  refine h.bind fun result => ?_
  cases result with
  | ok value => exact hnext value
  | error error => exact keeps_pure _

theorem keeps_ofExcept (result : Except FormulaError α) :
    Keeps R (Answer.ofExcept result : Answer (StateM σ) α).run := keeps_pure result

theorem Keeps.lift (h : Keeps R action) : Keeps R (ExceptT.lift action : Answer (StateM σ) α).run :=
  h.bind fun value => keeps_pure (Except.ok value)

/-- An action that keeps `R` is alike to itself as seen from any state before. -/
theorem Keeps.alike (h : Keeps R action) (start : σ) :
    Alike (fun state state' => state = state' ∧ R start state) action action := by
  rintro state _ ⟨rfl, hstate⟩
  exact ⟨rfl, rfl, trans_of R hstate (h state)⟩

theorem keeps_of_alike
    (h : ∀ start, Alike (fun state state' => state = state' ∧ R start state) action action) : Keeps R action :=
  fun state => (h state state state ⟨rfl, refl_of R state⟩).2.2

end Preorder

/-! ## Contexts -/

namespace Context

variable {m n : Type → Type}

/-- Every answer that evaluation asks for has the property. -/
structure EachValue (P : ∀ {α : Type}, m α → Prop) (ctx : Context m) : Prop where
  lookup : ∀ name bindings, P (ctx.lookup name bindings).run
  lookupScoped : ∀ name indices bindings, P (ctx.lookupScoped name indices bindings).run
  call : ∀ name args, P (ctx.call name args).run

/-- Every answer of the context has the property. -/
structure Each (P : ∀ {α : Type}, m α → Prop) (ctx : Context m) : Prop extends ctx.EachValue P where
  variableCode : ∀ name indices, P (ctx.variableCode name indices).run
  callCode : ∀ name codes indices, P (ctx.callCode name codes indices).run
  isAggregate : ∀ name, P (ctx.isAggregate name)
  beginFrame : ∀ frame, P (ctx.beginFrame frame)
  endFrame : ∀ name, P (ctx.endFrame name)
  openIndices : P ctx.openIndices
  beginCompile : P ctx.beginCompile
  endCompile : P ctx.endCompile
  settleCompile : P ctx.settleCompile
  hasAggregates : P ctx.hasAggregates
  load : ∀ code, P (ctx.load code).run

/-- What all computations have, the answers have. -/
theorem each_of_forall {P : ∀ {α : Type}, m α → Prop} (h : ∀ {α : Type} (action : m α), P action) (ctx : Context m) :
    ctx.Each P where
  lookup _ _ := h _
  lookupScoped _ _ _ := h _
  call _ _ := h _
  variableCode _ _ := h _
  callCode _ _ _ := h _
  isAggregate _ := h _
  beginFrame _ := h _
  endFrame _ := h _
  openIndices := h _
  beginCompile := h _
  endCompile := h _
  settleCompile := h _
  hasAggregates := h _
  load _ := h _

/-- The context as it is for computations of another monad. -/
def carried (carry : ∀ {α : Type}, m α → n α) (ctx : Context m) : Context n where
  lookup name bindings := ExceptT.mk (carry (ctx.lookup name bindings).run)
  lookupScoped name indices bindings := ExceptT.mk (carry (ctx.lookupScoped name indices bindings).run)
  call name args := ExceptT.mk (carry (ctx.call name args).run)
  variableCode name indices := ExceptT.mk (carry (ctx.variableCode name indices).run)
  callCode name codes indices := ExceptT.mk (carry (ctx.callCode name codes indices).run)
  isAggregate name := carry (ctx.isAggregate name)
  beginFrame frame := carry (ctx.beginFrame frame)
  endFrame name := carry (ctx.endFrame name)
  openIndices := carry ctx.openIndices
  beginCompile := carry ctx.beginCompile
  endCompile := carry ctx.endCompile
  settleCompile := carry ctx.settleCompile
  hasAggregates := carry ctx.hasAggregates
  load code := ExceptT.mk (carry (ctx.load code).run)

theorem Each.carried {P : ∀ {α : Type}, m α → Prop} {Q : ∀ {α : Type}, n α → Prop} {ctx : Context m}
    (h : ctx.Each P) {carry : ∀ {α : Type}, m α → n α}
    (hcarry : ∀ {α : Type} (action : m α), P action → Q (carry action)) : (ctx.carried carry).Each Q where
  lookup name bindings := hcarry _ (h.lookup name bindings)
  lookupScoped name indices bindings := hcarry _ (h.lookupScoped name indices bindings)
  call name args := hcarry _ (h.call name args)
  variableCode name indices := hcarry _ (h.variableCode name indices)
  callCode name codes indices := hcarry _ (h.callCode name codes indices)
  isAggregate name := hcarry _ (h.isAggregate name)
  beginFrame frame := hcarry _ (h.beginFrame frame)
  endFrame name := hcarry _ (h.endFrame name)
  openIndices := hcarry _ h.openIndices
  beginCompile := hcarry _ h.beginCompile
  endCompile := hcarry _ h.endCompile
  settleCompile := hcarry _ h.settleCompile
  hasAggregates := hcarry _ h.hasAggregates
  load code := hcarry _ (h.load code)

section Keeps

variable [IsPreorder σ R] {ctx : Context (StateM σ)} (bindings : Bindings) (expr : Expr)

theorem EachValue.evaluatesAlike (h : ctx.EachValue (Keeps R)) (start : σ) :
    ctx.EvaluatesAlike (fun state state' => state = state' ∧ R start state) ctx where
  lookup name bindings := (h.lookup name bindings).alike start
  lookupScoped name indices bindings := (h.lookupScoped name indices bindings).alike start
  call name args := (h.call name args).alike start

theorem EachValue.walk (h : ctx.EachValue (Keeps R)) (levels : Nat) : Keeps R (expr.walk ctx bindings levels).run :=
  keeps_of_alike fun start => expr.walk_alike (h.evaluatesAlike start) bindings levels

theorem EachValue.evaluatePostfix (h : ctx.EachValue (Keeps R)) :
    Keeps R (expr.evaluatePostfix ctx bindings).run := by
  rw [Postfix.evaluatePostfix_eq_walk ctx bindings (Nat.le_refl expr.depth)]
  exact h.walk bindings expr expr.depth

theorem EachValue.script (h : ctx.EachValue (Keeps R)) (script : Script) :
    Keeps R (script.run ctx bindings).run :=
  keeps_of_alike fun start => script.run_alike bindings (h.evaluatesAlike start)

variable (h : ctx.Each (Keeps R))

include h

theorem Each.emitsAlike (start : σ) :
    ctx.EmitsAlike (fun state state' => state = state' ∧ R start state) ctx where
  variableCode name indices := (h.variableCode name indices).alike start
  callCode name codes indices := (h.callCode name codes indices).alike start
  isAggregate name := (h.isAggregate name).alike start
  beginFrame frame := (h.beginFrame frame).alike start
  endFrame name := (h.endFrame name).alike start
  openIndices := h.openIndices.alike start

theorem Each.emit : Keeps R (expr.emit ctx).run :=
  keeps_of_alike fun start => expr.emit_alike (h.emitsAlike start)

theorem Each.ofExpr : Keeps R (Compiled.ofExpr ctx expr).run := by
  have hemission : Keeps R
      (if Expr.maxDepth < expr.levels then throw .tooDeep else expr.emit ctx : Answer (StateM σ) String).run := by
    split
    · exact keeps_pure _
    · exact h.emit expr
  have hcode : Keeps R (expr.toCode ctx).run :=
    h.beginCompile.bind fun _ => hemission.bind fun _ => h.endCompile.bind fun _ =>
      h.settleCompile.bind fun _ => keeps_pure _
  exact hcode.andThen fun code => (h.load code).andThen fun script =>
    h.hasAggregates.lift.andThen fun flag => keeps_ofExcept (.ok _)

theorem Each.traced {record : Request → StateM σ Unit} (hrecord : ∀ request, Keeps R (record request)) :
    (ctx.traced record).Each (Keeps R) where
  lookup name bindings := (hrecord _).lift.andThen fun _ => h.lookup name bindings
  lookupScoped name indices bindings := (hrecord _).lift.andThen fun _ => h.lookupScoped name indices bindings
  call name args := (hrecord _).lift.andThen fun _ => h.call name args
  variableCode := h.variableCode
  callCode name codes indices := (hrecord _).lift.andThen fun _ => h.callCode name codes indices
  isAggregate := h.isAggregate
  beginFrame frame := (hrecord _).bind fun _ => h.beginFrame frame
  endFrame name := (hrecord _).bind fun _ => h.endFrame name
  openIndices := h.openIndices
  beginCompile := (hrecord _).bind fun _ => h.beginCompile
  endCompile := (hrecord _).bind fun _ => h.endCompile
  settleCompile := (hrecord _).bind fun _ => h.settleCompile
  hasAggregates := h.hasAggregates
  load := h.load

theorem Each.withVariableCode (code : Dictionary String) (failing : List String) :
    (ctx.withVariableCode code failing).Each (Keeps R) where
  lookup := h.lookup
  lookupScoped := h.lookupScoped
  call := h.call
  variableCode name indices := by
    dsimp only [Context.withVariableCode]
    split
    · exact keeps_ofExcept _
    · split
      · exact keeps_ofExcept (.ok _)
      · exact h.variableCode name indices
  callCode := h.callCode
  isAggregate := h.isAggregate
  beginFrame := h.beginFrame
  endFrame := h.endFrame
  openIndices := h.openIndices
  beginCompile := h.beginCompile
  endCompile := h.endCompile
  settleCompile := h.settleCompile
  hasAggregates := h.hasAggregates
  load := h.load

end Keeps

section

variable [IsPreorder σ R]

theorem ofLookup_each {lookup : (name : String) → Bindings → Answer (StateM σ) Value}
    {call : (name : String) → List Value → Answer (StateM σ) Value}
    (hlookup : ∀ name bindings, Keeps R (lookup name bindings).run)
    (hcall : ∀ name args, Keeps R (call name args).run) : (Context.ofLookup lookup call).Each (Keeps R) where
  lookup := hlookup
  lookupScoped name _ bindings := hlookup name bindings
  call := hcall
  variableCode _ _ := keeps_ofExcept (.ok _)
  callCode _ _ _ := keeps_ofExcept (.ok _)
  isAggregate _ := keeps_pure _
  beginFrame _ := keeps_pure _
  endFrame _ := keeps_pure _
  openIndices := keeps_pure _
  beginCompile := keeps_pure _
  endCompile := keeps_pure _
  settleCompile := keeps_pure _
  hasAggregates := keeps_pure _
  load _ := keeps_ofExcept _

theorem minimal_each {record : Request → StateM σ Unit} (hrecord : ∀ request, Keeps R (record request)) :
    (Context.minimal record).Each (Keeps R) :=
  ofLookup_each (fun _ _ => (hrecord _).lift.andThen fun _ => keeps_ofExcept _)
    fun _ _ => (hrecord _).lift.andThen fun _ => keeps_ofExcept _

end

end Context

/-! ## Sheets -/

/-- All that is done by way of the access keeps `R`. -/
structure SheetAccess.Keeping (R : σ → σ → Prop) (access : SheetAccess (StateM σ)) : Prop where
  read : Keeps R access.read
  update : ∀ change, Keeps R (access.update change)
  announce : ∀ notice, Keeps R (access.announce notice)

section Sheet

variable [IsPreorder σ R] {access : SheetAccess (StateM σ)}

theorem SheetAccess.setAndAnswer_keeps (h : ∀ name value, Keeps R (access.setVariable name value))
    (outcome : List (String × Value) × Except FormulaError Value) : Keeps R (access.setAndAnswer outcome).run := by
  unfold SheetAccess.setAndAnswer
  have hchanges : Keeps R (outcome.1.forM fun change => access.setVariable change.1 change.2) :=
    Keeps.forM fun change => h change.1 change.2
  exact hchanges.lift.andThen fun _ => keeps_ofExcept _

variable (h : access.Keeping R)

include h

theorem SheetAccess.Keeping.setVariable (name : String) (value : Value) :
    Keeps R (access.setVariable name value) :=
  h.read.bind fun _ => (h.update _).bind fun _ => h.announce _

theorem SheetAccess.Keeping.removeVariable (name : String) : Keeps R (access.removeVariable name) := by
  unfold SheetAccess.removeVariable
  refine h.read.bind fun sheet => (h.update _).bind fun _ => ?_
  cases sheet.removeEvent? name with
  | some event => exact h.announce _
  | none => exact keeps_pure ()

theorem SheetAccess.Keeping.register (f : Function) : Keeps R (access.register f) :=
  (h.update _).bind fun _ => h.announce _

theorem SheetAccess.Keeping.setAndAnswer (outcome : List (String × Value) × Except FormulaError Value) :
    Keeps R (access.setAndAnswer outcome).run := setAndAnswer_keeps h.setVariable outcome

theorem SheetAccess.Keeping.callBody (f : Function) (args : List Value) : Keeps R (access.callBody f args).run := by
  unfold SheetAccess.callBody
  cases f.body with
  | result run => exact keeps_ofExcept _
  | setting run => exact h.read.lift.andThen fun sheet => h.setAndAnswer _
  | counter calls =>
    refine Keeps.lift ?_
    exact (h.update _).bind fun _ => (h.announce _).bind fun _ => keeps_pure _

theorem Sheet.context_each : (Sheet.context access).Each (Keeps R) where
  lookup name bindings := by
    dsimp only [Sheet.context]
    exact h.read.lift.andThen fun sheet => keeps_ofExcept _
  lookupScoped name indices bindings := by
    dsimp only [Sheet.context]
    exact h.read.lift.andThen fun sheet => keeps_ofExcept _
  call name args := by
    dsimp only [Sheet.context]
    refine h.read.lift.andThen fun sheet => ?_
    exact (keeps_ofExcept _).andThen fun f => h.callBody f args
  variableCode name indices := keeps_ofExcept (.ok _)
  callCode name codes indices := by
    dsimp only [Sheet.context]
    exact (h.read.bind fun sheet => (h.update _).bind fun _ => keeps_pure _).lift
  isAggregate name := h.read.bind fun sheet => keeps_pure _
  beginFrame frame := h.update _
  endFrame name := h.update _
  openIndices := h.read.bind fun sheet => keeps_pure _
  beginCompile := h.update _
  endCompile := h.update _
  settleCompile := h.update _
  hasAggregates := h.read.bind fun sheet => keeps_pure _
  load _ := keeps_ofExcept _

end Sheet

end Formulary
