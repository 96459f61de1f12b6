import Formulary.Proofs.Facade.Watch

/-!
# What watching leaves as it is

If two ways to reach a formula serve alike, then all that is asked of the formula is answered alike, and so is it
changed (`FormulaAccess.ServesAlike`). A watched formula serves like the formula itself: only the history comes in
addition (`FormulaAccess.watched_servesAlike`).
-/

namespace Formulary

variable {σ τ : Type} {R : σ → τ → Prop}

/-- The two accesses give the same, and contexts that are alike. -/
structure FormulaAccess.ServesAlike (R : σ → τ → Prop) (access : FormulaAccess (StateM σ))
    (access' : FormulaAccess (StateM τ)) : Prop where
  read : Alike R access.read access'.read
  update : ∀ change, Alike R (access.update change) (access'.update change)
  parse : ∀ source, Answer.Alike R (access.parse source) (access'.parse source)
  context : ∀ state state', R state state' →
    (access.context.run state).1.EvaluatesAlike R (access'.context.run state').1 ∧
      (access.context.run state).1.CompilesAlike R (access'.context.run state').1 ∧
        R (access.context.run state).2 (access'.context.run state').2

namespace FormulaAccess.ServesAlike

variable {access : FormulaAccess (StateM σ)} {access' : FormulaAccess (StateM τ)} (h : access.ServesAlike R access')

include h

/-- What is done in turn with the contexts that are found. -/
theorem inContext {α : Type} {next : Context (StateM σ) → Answer (StateM σ) α}
    {next' : Context (StateM τ) → Answer (StateM τ) α}
    (hnext : ∀ ctx ctx', ctx.EvaluatesAlike R ctx' → ctx.CompilesAlike R ctx' →
      Answer.Alike R (next ctx) (next' ctx')) :
    Answer.Alike R (ExceptT.lift access.context >>= next) (ExceptT.lift access'.context >>= next') := by
  intro state state' hR
  obtain ⟨hevaluates, hcompiles, hafter⟩ := h.context state state' hR
  rw [Answer.runIn_bind_ok (Answer.runIn_lift access.context state),
    Answer.runIn_bind_ok (Answer.runIn_lift access'.context state')]
  exact hnext _ _ hevaluates hcompiles _ _ hafter

theorem tree : Answer.Alike R access.tree access'.tree := by
  have hreads (source : String) : Answer.Alike R (access.readSource source) (access'.readSource source) := by
    unfold FormulaAccess.readSource
    split
    · exact Answer.alike_pure _
    · exact (h.parse source).bind fun expr => Answer.alike_pure _
  refine Answer.alike_mk (h.read.bind fun f => ?_)
  cases f.tree with
  | some found => exact alike_pure found
  | none => exact Alike.bind (hreads f.source) fun found => (h.update _).bind fun _ => alike_pure found

theorem compile : Answer.Alike R access.compile access'.compile := by
  refine h.tree.bind fun found => ?_
  cases found with
  | none => exact Answer.alike_pure none
  | some expr =>
    refine h.inContext fun ctx ctx' _ hcompiles => ?_
    rw [map_eq_pure_bind, map_eq_pure_bind]
    exact (Compiled.ofExpr_alike hcompiles expr).bind fun form => Answer.alike_pure (some form)

theorem compiled : Answer.Alike R access.compiled access'.compiled := by
  refine Answer.alike_mk ((h.update _).bind fun _ => h.read.bind fun f => ?_)
  cases f.compiled with
  | some found => exact alike_pure found
  | none => exact Alike.bind h.compile fun found => (h.update _).bind fun _ => alike_pure found

theorem hasAggregates : Alike R access.hasAggregates access'.hasAggregates := by
  refine Alike.bind h.compiled fun found => ?_
  cases found with
  | ok form => cases form <;> exact alike_pure _
  | error error => exact alike_pure false

theorem evaluate (strategy : Strategy) (bindings : Bindings) :
    Answer.Alike R (access.evaluate strategy bindings) (access'.evaluate strategy bindings) := by
  cases strategy with
  | compiled =>
    refine h.compiled.bind fun found => ?_
    cases found with
    | none => exact Answer.alike_pure Value.empty
    | some form => exact h.inContext fun _ _ hevaluates _ => form.script.run_alike bindings hevaluates
  | direct =>
    refine h.tree.bind fun found => ?_
    cases found with
    | none => exact Answer.alike_pure Value.empty
    | some expr => exact h.inContext fun _ _ hevaluates _ => expr.walk_alike hevaluates bindings _
  | flattened =>
    refine h.tree.bind fun found => ?_
    cases found with
    | none => exact Answer.alike_pure Value.empty
    | some expr =>
      refine h.inContext fun ctx ctx' hevaluates _ => ?_
      rw [Postfix.evaluatePostfix_eq_walk ctx bindings (Nat.le_refl expr.depth),
        Postfix.evaluatePostfix_eq_walk ctx' bindings (Nat.le_refl expr.depth)]
      exact expr.walk_alike hevaluates bindings expr.depth

theorem run (bindings : Bindings) : Answer.Alike R (access.run bindings) (access'.run bindings) :=
  (Answer.alike_lift h.read).bind fun f => h.evaluate f.strategy bindings

theorem references : Answer.Alike R access.references access'.references := by
  refine h.tree.bind fun found => ?_
  cases found with
  | none => exact Answer.alike_pure References.empty
  | some expr => exact Answer.alike_pure (References.ofExpr expr)

theorem hear (event : ChangeEvent) : Alike R (access.hear event) (access'.hear event) := by
  unfold FormulaAccess.hear
  split
  · exact h.update _
  · exact alike_pure ()

end FormulaAccess.ServesAlike

namespace Site

variable (site : Site σ)

theorem watch_alike {α : Type} (action : StateM σ α) :
    Alike (fun seen state => seen.1 = state) (site.watch action) action := by
  rintro ⟨state, history⟩ _ rfl
  exact ⟨rfl, rfl⟩

end Site

namespace FormulaAccess

variable (access : FormulaAccess (StateM σ)) (site : Site σ)

theorem watchedContext_evaluatesAlike (ctx : Context (StateM σ)) :
    (watchedContext site ctx).EvaluatesAlike (fun seen state => seen.1 = state) ctx where
  lookup name bindings := site.watch_alike (ctx.lookup name bindings).run
  lookupScoped name indices bindings := site.watch_alike (ctx.lookupScoped name indices bindings).run
  call name args := site.watch_alike (ctx.call name args).run

theorem watchedContext_compilesAlike (ctx : Context (StateM σ)) :
    (watchedContext site ctx).CompilesAlike (fun seen state => seen.1 = state) ctx where
  variableCode name indices := site.watch_alike (ctx.variableCode name indices).run
  callCode name codes indices := site.watch_alike (ctx.callCode name codes indices).run
  isAggregate name := site.watch_alike (ctx.isAggregate name)
  beginFrame frame := site.watch_alike (ctx.beginFrame frame)
  endFrame name := site.watch_alike (ctx.endFrame name)
  openIndices := site.watch_alike ctx.openIndices
  beginCompile := by
    rintro ⟨state, history⟩ _ rfl
    exact ⟨rfl, rfl⟩
  endCompile := site.watch_alike ctx.endCompile
  settleCompile := site.watch_alike ctx.settleCompile
  hasAggregates := site.watch_alike ctx.hasAggregates
  load code := site.watch_alike (ctx.load code).run

theorem watched_servesAlike : (access.watched site).ServesAlike (fun seen state => seen.1 = state) access where
  read := site.watch_alike access.read
  update change := site.watch_alike (access.update change)
  parse source := by
    rintro ⟨state, history⟩ _ rfl
    exact ⟨rfl, rfl⟩
  context := by
    rintro ⟨state, history⟩ _ rfl
    exact ⟨watchedContext_evaluatesAlike site _, watchedContext_compilesAlike site _, rfl⟩

end FormulaAccess

end Formulary
