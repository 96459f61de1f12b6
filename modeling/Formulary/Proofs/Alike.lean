import Formulary.Proofs.Answer
import Formulary.Proofs.Expr.Recognized
import Formulary.Compiled
import Formulary.Expr.Walk

/-!
# Computations that run alike

Two computations are alike with respect to a relation of their states if they give the same result and
keep the relation. Contexts whose answers are alike let formulas run alike (`walk_alike`, `run_alike`) and
compile alike (`ofExpr_alike`).
-/

namespace Formulary

variable {σ τ : Type}

/-- From related states, the same result and related states. -/
def Alike {α : Type} (R : σ → τ → Prop) (a : StateM σ α) (b : StateM τ α) : Prop :=
  ∀ state state', R state state' →
    (a.run state).1 = (b.run state').1 ∧ R (a.run state).2 (b.run state').2

/-- The same for computations that may fail. -/
def Answer.Alike {α : Type} (R : σ → τ → Prop) (a : Answer (StateM σ) α) (b : Answer (StateM τ) α) : Prop :=
  ∀ state state', R state state' →
    (a.runIn state).1 = (b.runIn state').1 ∧ R (a.runIn state).2 (b.runIn state').2

section

variable {R : σ → τ → Prop} {α β : Type}

theorem alike_pure (value : α) : Alike R (pure value) (pure value) := fun _ _ h => ⟨rfl, h⟩

theorem Alike.bind {a : StateM σ α} {b : StateM τ α} {next : α → StateM σ β} {next' : α → StateM τ β}
    (h : Alike R a b) (hnext : ∀ value, Alike R (next value) (next' value)) :
    Alike R (a >>= next) (b >>= next') := by
  intro state state' hR
  obtain ⟨hvalue, hafter⟩ := h state state' hR
  have ha : a.run state = ((b.run state').1, (a.run state).2) := Prod.ext hvalue rfl
  rw [StateT.run_bind, StateT.run_bind, ha]
  exact hnext _ _ _ hafter

theorem alike_forM {xs : List α} {f : α → StateM σ Unit} {g : α → StateM τ Unit}
    (h : ∀ x, Alike R (f x) (g x)) : Alike R (xs.forM f) (xs.forM g) := by
  induction xs with
  | nil => exact alike_pure ()
  | cons x xs ih => exact (h x).bind fun _ => ih

namespace Answer

theorem alike_pure (value : α) : Answer.Alike R (pure value) (pure value) := fun _ _ h => ⟨rfl, h⟩

theorem alike_throw (error : FormulaError) :
    Answer.Alike R (throw error : Answer (StateM σ) α) (throw error) := fun _ _ h => ⟨rfl, h⟩

theorem alike_ofExcept (result : Except FormulaError α) :
    Answer.Alike R (ofExcept result) (ofExcept result) := fun _ _ h => ⟨rfl, h⟩

theorem alike_mk {a : StateM σ (Except FormulaError α)} {b : StateM τ (Except FormulaError α)}
    (h : Formulary.Alike R a b) : Answer.Alike R (ExceptT.mk a) (ExceptT.mk b) := h

theorem alike_lift {a : StateM σ α} {b : StateM τ α} (h : Formulary.Alike R a b) :
    Answer.Alike R (ExceptT.lift a) (ExceptT.lift b) := by
  intro state state' hR
  obtain ⟨hvalue, hafter⟩ := h state state' hR
  exact ⟨congrArg Except.ok hvalue, hafter⟩

theorem Alike.bind {a : Answer (StateM σ) α} {b : Answer (StateM τ) α}
    {next : α → Answer (StateM σ) β} {next' : α → Answer (StateM τ) β} (h : Answer.Alike R a b)
    (hnext : ∀ value, Answer.Alike R (next value) (next' value)) :
    Answer.Alike R (a >>= next) (b >>= next') := by
  intro state state' hR
  obtain ⟨hvalue, hafter⟩ := h state state' hR
  cases hresult : (b.runIn state').1 with
  | ok value =>
    have ha : a.runIn state = (.ok value, (a.runIn state).2) := Prod.ext (hvalue.trans hresult) rfl
    have hb : b.runIn state' = (.ok value, (b.runIn state').2) := Prod.ext hresult rfl
    rw [runIn_bind_ok ha, runIn_bind_ok hb]
    exact hnext value _ _ hafter
  | error error =>
    have ha : a.runIn state = (.error error, (a.runIn state).2) := Prod.ext (hvalue.trans hresult) rfl
    have hb : b.runIn state' = (.error error, (b.runIn state').2) := Prod.ext hresult rfl
    rw [runIn_bind_error ha, runIn_bind_error hb]
    exact ⟨rfl, hafter⟩

theorem alike_mapM {xs : List α} {f : α → Answer (StateM σ) β} {g : α → Answer (StateM τ) β}
    (h : ∀ x ∈ xs, Answer.Alike R (f x) (g x)) : Answer.Alike R (xs.mapM f) (xs.mapM g) := by
  induction xs with
  | nil => exact alike_pure []
  | cons x xs ih =>
    rw [List.mapM_cons, List.mapM_cons]
    refine (h x List.mem_cons_self).bind fun value => ?_
    exact (ih fun y hy => h y (List.mem_cons_of_mem x hy)).bind fun values => alike_pure _

end Answer

end

/-! ## Contexts -/

/-- Formulas get the same values and results. -/
structure Context.EvaluatesAlike (R : σ → τ → Prop) (ctx : Context (StateM σ)) (ctx' : Context (StateM τ)) :
    Prop where
  lookup : ∀ name bindings, Answer.Alike R (ctx.lookup name bindings) (ctx'.lookup name bindings)
  lookupScoped : ∀ name indices bindings,
    Answer.Alike R (ctx.lookupScoped name indices bindings) (ctx'.lookupScoped name indices bindings)
  call : ∀ name args, Answer.Alike R (ctx.call name args) (ctx'.call name args)

/-- Trees get the same code once a compilation has begun. -/
structure Context.EmitsAlike (R : σ → τ → Prop) (ctx : Context (StateM σ)) (ctx' : Context (StateM τ)) :
    Prop where
  variableCode : ∀ name indices,
    Answer.Alike R (ctx.variableCode name indices) (ctx'.variableCode name indices)
  callCode : ∀ name codes indices,
    Answer.Alike R (ctx.callCode name codes indices) (ctx'.callCode name codes indices)
  isAggregate : ∀ name, Alike R (ctx.isAggregate name) (ctx'.isAggregate name)
  beginFrame : ∀ frame, Alike R (ctx.beginFrame frame) (ctx'.beginFrame frame)
  endFrame : ∀ name, Alike R (ctx.endFrame name) (ctx'.endFrame name)
  openIndices : Alike R ctx.openIndices ctx'.openIndices

/-- Formulas get the same compiled form. -/
structure Context.CompilesAlike (R : σ → τ → Prop) (ctx : Context (StateM σ)) (ctx' : Context (StateM τ)) :
    Prop extends ctx.EmitsAlike R ctx' where
  beginCompile : Alike R ctx.beginCompile ctx'.beginCompile
  endCompile : Alike R ctx.endCompile ctx'.endCompile
  settleCompile : Alike R ctx.settleCompile ctx'.settleCompile
  hasAggregates : Alike R ctx.hasAggregates ctx'.hasAggregates
  load : ∀ code, Answer.Alike R (ctx.load code) (ctx'.load code)

section Evaluation

variable {R : σ → τ → Prop} {ctx : Context (StateM σ)} {ctx' : Context (StateM τ)}
  (h : ctx.EvaluatesAlike R ctx') (bindings : Bindings)

theorem BinaryOperator.alike_run (op : BinaryOperator) {left right : Answer (StateM σ) Value}
    {left' right' : Answer (StateM τ) Value} (hleft : Answer.Alike R left left')
    (hright : Answer.Alike R right right') : Answer.Alike R (op.run left right) (op.run left' right') := by
  unfold BinaryOperator.run
  refine hleft.bind fun a => ?_
  cases op with
  | and =>
    dsimp only
    cases a.isTruthy with
    | true => exact hright
    | false => exact Answer.alike_pure a
  | or =>
    dsimp only
    cases a.isTruthy with
    | true => exact Answer.alike_pure a
    | false => exact hright
  | _ => exact hright.bind fun b => Answer.alike_ofExcept _

include h

theorem Expr.walk_alike (levels : Nat) (expr : Expr) :
    Answer.Alike R (expr.walk ctx bindings levels) (expr.walk ctx' bindings levels) := by
  induction levels generalizing expr with
  | zero => exact Answer.alike_throw _
  | succ levels ih =>
    cases expr with
    | boolean | number | text => exact Answer.alike_pure _
    | «variable» name => exact h.lookup name bindings
    | call name args =>
      exact (Answer.alike_mapM fun arg _ => ih arg).bind fun values => h.call name values
    | unary symbol operand =>
      unfold walk
      dsimp only
      cases UnaryOperator.ofSymbol? symbol with
      | none => exact Answer.alike_throw _
      | some op => exact (ih operand).bind fun a => Answer.alike_pure _
    | binary symbol left right =>
      unfold walk
      dsimp only
      cases BinaryOperator.ofSymbol? symbol with
      | none => exact Answer.alike_throw _
      | some op => exact op.alike_run (ih left) (ih right)
    | conditional condition whenTrue whenFalse =>
      refine (ih condition).bind fun c => ?_
      cases c.isTruthy with
      | true => exact ih whenTrue
      | false => exact ih whenFalse

omit h

mutual

theorem Script.run_alike (h : ctx.EvaluatesAlike R ctx') (script : Script) :
    Answer.Alike R (script.run ctx bindings) (script.run ctx' bindings) := by
  cases script with
  | literal v => exact Answer.alike_pure v
  | «variable» name indices => exact h.lookupScoped name indices bindings
  | call name args => exact (runAll_alike h args).bind fun values => h.call name values
  | unary op operand => exact (run_alike h operand).bind fun a => Answer.alike_pure _
  | binary op left right => exact op.alike_run (run_alike h left) (run_alike h right)
  | scale symbol left right =>
    exact (run_alike h left).bind fun a => (run_alike h right).bind fun b => Answer.alike_ofExcept _
  | conditional condition whenTrue whenFalse =>
    refine (run_alike h condition).bind fun c => ?_
    cases c.isTruthy with
    | true => exact run_alike h whenTrue
    | false => exact run_alike h whenFalse

theorem Script.runAll_alike (h : ctx.EvaluatesAlike R ctx') (scripts : List Script) :
    Answer.Alike R (Script.runAll ctx bindings scripts) (Script.runAll ctx' bindings scripts) := by
  cases scripts with
  | nil => exact Answer.alike_pure []
  | cons script rest =>
    exact (Script.run_alike h script).bind fun value =>
      (Script.runAll_alike h rest).bind fun values => Answer.alike_pure _

end

end Evaluation

section Compilation

variable {R : σ → τ → Prop} {ctx : Context (StateM σ)} {ctx' : Context (StateM τ)}

section Emission

variable (h : ctx.EmitsAlike R ctx')

include h

theorem Expr.emitArgs_alike {args : List Expr}
    (hargs : ∀ arg ∈ args, Answer.Alike R (arg.emit ctx) (arg.emit ctx')) (frame : Frame) :
    Answer.Alike R (Expr.emitArgs ctx frame args) (Expr.emitArgs ctx' frame args) := by
  induction args with
  | nil => exact Answer.alike_pure []
  | cons arg args ih =>
    unfold Expr.emitArgs
    have hframed : Answer.Alike R
        (ExceptT.mk do
          ctx.beginFrame frame
          let code ← (arg.emit ctx).run
          ctx.endFrame frame.name
          pure code)
        (ExceptT.mk do
          ctx'.beginFrame frame
          let code ← (arg.emit ctx').run
          ctx'.endFrame frame.name
          pure code) := by
      refine Answer.alike_mk ((h.beginFrame frame).bind fun _ => ?_)
      exact Alike.bind (hargs arg List.mem_cons_self) fun code =>
        (h.endFrame frame.name).bind fun _ => alike_pure code
    refine hframed.bind fun code => ?_
    exact (ih fun arg' harg => hargs arg' (List.mem_cons_of_mem _ harg)).bind fun codes =>
      Answer.alike_pure _

theorem Expr.emit_alike (expr : Expr) : Answer.Alike R (expr.emit ctx) (expr.emit ctx') := by
  induction expr using Expr.induct with
  | boolean | number | text => exact Answer.alike_pure _
  | «variable» name =>
    exact (Answer.alike_lift h.openIndices).bind fun indices => h.variableCode name indices
  | call name args ih =>
    refine (Answer.alike_lift (h.isAggregate name)).bind fun aggregate => ?_
    refine (Expr.emitArgs_alike h ih ⟨name, aggregate⟩).bind fun codes => ?_
    exact (Answer.alike_lift h.openIndices).bind fun indices => h.callCode name codes indices
  | unary symbol operand ih =>
    unfold emit
    cases UnaryOperator.ofSymbol? symbol with
    | none => exact Answer.alike_throw _
    | some op => exact ih.bind fun code => Answer.alike_pure _
  | binary symbol left right ihl ihr =>
    unfold emit
    cases BinaryOperator.ofSymbol? symbol with
    | none => exact Answer.alike_throw _
    | some op => exact ihl.bind fun code => ihr.bind fun code' => Answer.alike_pure _
  | conditional condition whenTrue whenFalse ihc iht ihf =>
    exact ihc.bind fun code => iht.bind fun code' => ihf.bind fun code'' => Answer.alike_pure _

end Emission

variable (h : ctx.CompilesAlike R ctx')

include h

theorem Expr.toCode_alike (expr : Expr) : Answer.Alike R (expr.toCode ctx) (expr.toCode ctx') := by
  refine Answer.alike_mk (h.beginCompile.bind fun _ => ?_)
  have hcode : Answer.Alike R (if maxDepth < expr.levels then throw .tooDeep else expr.emit ctx)
      (if maxDepth < expr.levels then throw .tooDeep else expr.emit ctx') := by
    split
    · exact Answer.alike_throw _
    · exact expr.emit_alike h.toEmitsAlike
  refine Alike.bind hcode fun code => ?_
  exact h.endCompile.bind fun _ => h.settleCompile.bind fun _ => alike_pure code

/-- **Compilation.** -/
theorem Compiled.ofExpr_alike (expr : Expr) :
    Answer.Alike R (Compiled.ofExpr ctx expr) (Compiled.ofExpr ctx' expr) := by
  refine (expr.toCode_alike h).bind fun code => ?_
  refine (h.load code).bind fun script => ?_
  exact (Answer.alike_lift h.hasAggregates).bind fun flag => Answer.alike_pure _

end Compilation

/-! ## Traces -/

section Trace

variable {R : σ → τ → Prop} {ctx : Context (StateM σ)} {ctx' : Context (StateM τ)}
  {record : Request → StateM σ Unit}
  (hrecord : ∀ request state state', R state state' → R ((record request).run state).2 state')

include hrecord

theorem Alike.recorded {α : Type} {a : StateM σ α} {b : StateM τ α} (h : Alike R a b) (request : Request) :
    Alike R (do record request; a) b :=
  fun _ _ hR => h _ _ (hrecord request _ _ hR)

theorem Answer.Alike.recorded {α : Type} {a : Answer (StateM σ) α} {b : Answer (StateM τ) α}
    (h : Answer.Alike R a b) (request : Request) :
    Answer.Alike R (do ExceptT.lift (record request); a) b := by
  intro state state' hR
  rw [runIn_bind_ok (runIn_lift (record request) state)]
  exact h _ _ (hrecord request _ _ hR)

/-- To record what is asked changes nothing where the record is not related. -/
theorem Context.EvaluatesAlike.traced (h : ctx.EvaluatesAlike R ctx') :
    (ctx.traced record).EvaluatesAlike R ctx' where
  lookup name bindings := (h.lookup name bindings).recorded hrecord _
  lookupScoped name indices bindings := (h.lookupScoped name indices bindings).recorded hrecord _
  call name args := (h.call name args).recorded hrecord _

theorem Context.CompilesAlike.traced (h : ctx.CompilesAlike R ctx') :
    (ctx.traced record).CompilesAlike R ctx' where
  variableCode := h.variableCode
  callCode name codes indices := (h.callCode name codes indices).recorded hrecord _
  isAggregate := h.isAggregate
  beginFrame frame := (h.beginFrame frame).recorded hrecord _
  endFrame name := (h.endFrame name).recorded hrecord _
  openIndices := h.openIndices
  beginCompile := h.beginCompile.recorded hrecord _
  endCompile := h.endCompile.recorded hrecord _
  settleCompile := h.settleCompile.recorded hrecord _
  hasAggregates := h.hasAggregates
  load := h.load

end Trace

end Formulary
