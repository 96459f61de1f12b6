import Formulary.Proofs.Compiled.Emission
import Formulary.Proofs.Expr.References

/-!
# Contexts that agree on the references of a tree

Two contexts agree on some references if they answer alike whatever concerns the names listed there. A tree that
refers to no other name has the same walk (`Expr.walk_congr`) and the same code (`Expr.emit_congr`) in both, and
its script runs the same (`Emitted.run_congr`).

`Context.limited` is a context that answers no other questions at all.
-/

namespace Formulary

variable {m : Type → Type} [Monad m]

/-- What the first context answers with the first bindings about the listed names, the second one answers with
the second bindings. -/
structure Context.AgreesOn (refs : References) (ctx : Context m) (bindings : Bindings) (ctx' : Context m)
    (bindings' : Bindings) : Prop where
  lookup : ∀ name ∈ refs.variables, ctx.lookup name bindings = ctx'.lookup name bindings'
  lookupScoped : ∀ name ∈ refs.variables, ∀ indices,
    ctx.lookupScoped name indices bindings = ctx'.lookupScoped name indices bindings'
  call : ∀ name ∈ refs.functions, ctx.call name = ctx'.call name
  variableCode : ∀ name ∈ refs.variables, ctx.variableCode name = ctx'.variableCode name
  callCode : ∀ name ∈ refs.functions, ctx.callCode name = ctx'.callCode name
  isAggregate : ∀ name ∈ refs.functions, ctx.isAggregate name = ctx'.isAggregate name
  beginFrame : ∀ name ∈ refs.functions, ∀ aggregate,
    ctx.beginFrame ⟨name, aggregate⟩ = ctx'.beginFrame ⟨name, aggregate⟩
  endFrame : ∀ name ∈ refs.functions, ctx.endFrame name = ctx'.endFrame name
  openIndices : ctx.openIndices = ctx'.openIndices

section Congruence

variable {refs : References} {ctx ctx' : Context m} {bindings bindings' : Bindings}
  (h : ctx.AgreesOn refs bindings ctx' bindings') {expr : Expr} (hcovers : refs.Covers expr)

theorem mapM_congr [LawfulMonad m] {α β : Type} {items : List α} {f g : α → Answer m β}
    (hitems : ∀ item ∈ items, f item = g item) : items.mapM f = items.mapM g := by
  induction items with
  | nil => rfl
  | cons item items ih =>
    rw [List.mapM_cons, List.mapM_cons, hitems item List.mem_cons_self,
      ih fun item' h => hitems item' (List.mem_cons_of_mem _ h)]

include h hcovers

theorem Expr.walk_congr [LawfulMonad m] (levels : Nat) :
    expr.walk ctx bindings levels = expr.walk ctx' bindings' levels := by
  induction levels generalizing expr with
  | zero => rfl
  | succ levels ih =>
    cases expr with
    | boolean | number | text => rfl
    | «variable» name => exact h.lookup name (hcovers.variable name (self_mem_nodes _))
    | call name args =>
      have hargs : args.mapM (walk ctx bindings levels) = args.mapM (walk ctx' bindings' levels) :=
        mapM_congr fun arg harg => ih (hcovers.child harg)
      rw [walk, walk, h.call name (hcovers.call name args (self_mem_nodes _)), hargs]
    | unary symbol operand =>
      rw [walk, walk, ih (hcovers.child (by simp [children]))]
    | binary symbol left right =>
      rw [walk, walk, ih (hcovers.child (by simp [children])), ih (hcovers.child (by simp [children]))]
    | conditional condition whenTrue whenFalse =>
      rw [walk, walk, ih (hcovers.child (by simp [children])), ih (hcovers.child (by simp [children])),
        ih (hcovers.child (by simp [children]))]

omit hcovers in
theorem Expr.emitArgs_congr {args : List Expr} (hargs : ∀ arg ∈ args, arg.emit ctx = arg.emit ctx')
    {name : String} (hname : name ∈ refs.functions) (aggregate : Bool) :
    emitArgs ctx ⟨name, aggregate⟩ args = emitArgs ctx' ⟨name, aggregate⟩ args := by
  induction args with
  | nil => rw [emitArgs, emitArgs]
  | cons arg args ih =>
    rw [emitArgs, emitArgs, hargs arg List.mem_cons_self, h.beginFrame name hname, h.endFrame name hname,
      ih fun arg' harg => hargs arg' (List.mem_cons_of_mem _ harg)]

theorem Expr.emit_congr : expr.emit ctx = expr.emit ctx' := by
  induction expr using Expr.induct with
  | boolean | number | text => rw [emit, emit]
  | «variable» name =>
    rw [emit, emit, h.openIndices, h.variableCode name (hcovers.variable name (self_mem_nodes _))]
  | call name args ih =>
    have hname := hcovers.call name args (self_mem_nodes _)
    have hargs : ∀ arg ∈ args, arg.emit ctx = arg.emit ctx' := fun arg harg => ih arg harg (hcovers.child harg)
    rw [emit, emit, h.isAggregate name hname, h.openIndices, h.callCode name hname]
    refine bind_congr fun aggregate => ?_
    rw [emitArgs_congr h hargs hname]
  | unary symbol operand ih => rw [emit, emit, ih (hcovers.child (by simp [children]))]
  | binary symbol left right ihl ihr =>
    rw [emit, emit, ihl (hcovers.child (by simp [children])), ihr (hcovers.child (by simp [children]))]
  | conditional condition whenTrue whenFalse ihc iht ihf =>
    rw [emit, emit, ihc (hcovers.child (by simp [children])), iht (hcovers.child (by simp [children])),
      ihf (hcovers.child (by simp [children]))]

omit h hcovers in
theorem Emitted.runAll_congr {args : List Emission}
    (hargs : ∀ arg ∈ args, arg.script.run ctx bindings = arg.script.run ctx' bindings') :
    Script.runAll ctx bindings (args.map Emission.script) =
      Script.runAll ctx' bindings' (args.map Emission.script) := by
  induction args with
  | nil => rfl
  | cons arg args ih =>
    rw [List.map_cons, Script.runAll, Script.runAll, hargs arg List.mem_cons_self,
      ih fun arg' harg => hargs arg' (List.mem_cons_of_mem _ harg)]

/-- The script of a tree asks only for names that the tree refers to. -/
theorem Emitted.run_congr {code : String} {script : Script} (hemitted : Emitted expr code script) :
    script.run ctx bindings = script.run ctx' bindings' := by
  induction hemitted with
  | boolean | number | text => rfl
  | «variable» name => exact h.lookupScoped name (hcovers.variable name (Expr.self_mem_nodes _)) _
  | call name hargs ih =>
    rw [Script.run, Script.run, h.call name (hcovers.call name _ (Expr.self_mem_nodes _)),
      runAll_congr fun arg harg => ih arg harg (hcovers.child (List.mem_map_of_mem harg))]
  | unary hop hoperand ih =>
    rw [Script.run, Script.run, ih (hcovers.child (by simp [Expr.children]))]
  | binary hop hleft hright ihl ihr =>
    rw [run_script, run_script, ihl (hcovers.child (by simp [Expr.children])),
      ihr (hcovers.child (by simp [Expr.children]))]
  | conditional hcondition htrue hfalse ihc iht ihf =>
    rw [Script.run, Script.run, ihc (hcovers.child (by simp [Expr.children])),
      iht (hcovers.child (by simp [Expr.children])), ihf (hcovers.child (by simp [Expr.children]))]

end Congruence

/-- A context that answers only for the listed names, and with its own bindings. -/
def Context.limited (refs : References) (bindings : Bindings) (ctx : Context m) : Context m where
  lookup name _ :=
    if name ∈ refs.variables then ctx.lookup name bindings else throw (.unknownVariable name)
  lookupScoped name indices _ :=
    if name ∈ refs.variables then ctx.lookupScoped name indices bindings else throw (.unknownVariable name)
  call name args := if name ∈ refs.functions then ctx.call name args else throw (.unknownFunction name)
  variableCode name indices :=
    if name ∈ refs.variables then ctx.variableCode name indices else throw (.unknownVariable name)
  callCode name codes indices :=
    if name ∈ refs.functions then ctx.callCode name codes indices else throw (.unknownFunction name)
  isAggregate name := if name ∈ refs.functions then ctx.isAggregate name else pure false
  beginFrame frame := if frame.name ∈ refs.functions then ctx.beginFrame frame else pure ()
  endFrame name := if name ∈ refs.functions then ctx.endFrame name else pure ()
  openIndices := ctx.openIndices
  beginCompile := ctx.beginCompile
  endCompile := ctx.endCompile
  settleCompile := ctx.settleCompile
  hasAggregates := ctx.hasAggregates
  load := ctx.load

theorem Context.agreesOn_limited (refs : References) (ctx : Context m) (bindings bindings' : Bindings) :
    (ctx.limited refs bindings).AgreesOn refs bindings' ctx bindings where
  lookup _ h := if_pos h
  lookupScoped _ h _ := if_pos h
  call _ h := funext fun _ => if_pos h
  variableCode _ h := funext fun _ => if_pos h
  callCode _ h := funext fun _ => funext fun _ => if_pos h
  isAggregate _ h := if_pos h
  beginFrame _ h _ := if_pos h
  endFrame _ h := if_pos h
  openIndices := rfl

end Formulary
