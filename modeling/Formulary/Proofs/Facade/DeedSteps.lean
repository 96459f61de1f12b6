import Formulary.Proofs.Facade.Erasure
import Formulary.Proofs.Facade.Steps

/-!
# Requests, changes and events in any order

`Deed` is anything that is asked of a formula, done to it or told it, and whatever else goes on that leaves the
formula alone. A list of deeds is a run of the formula: `Deed.outcome` is what comes of it, and `Deed.after` the same
with its history (`Deed.after_fst`). Each deed is made of steps, of which `Deed.purposes` says what they may be for
(`Deed.watched_goes`).
-/

namespace Formulary

open Caches

variable {σ : Type} {access : FormulaAccess (StateM σ)} {site : Site σ}

theorem Keeps.widen {purposes purposes' : List Purpose} {α : Type} {action : StateM (σ × History) α}
    (h : Keeps (site.Goes purposes) action) (hle : purposes ⊆ purposes') : Keeps (site.Goes purposes') action :=
  h.mono fun _ _ hgoes => hgoes.mono hle

theorem Keeps.goes {α : Type} {action : StateM (σ × History) α} (h : Keeps site.Calm action) :
    Keeps (site.Goes [.reading]) action :=
  h.mono fun _ _ => Site.Calm.goes

/-! ## Requests -/

namespace FormulaAccess

variable (h : access.Lawful site)

include h

theorem read_goes (purposes : List Purpose) : Keeps (site.Goes purposes) (access.watched site).read := by
  intro seen hseen
  rw [run_read h hseen]
  exact ⟨hseen, .refl _⟩

theorem tree_goes : Keeps (site.Goes [.reading]) (access.watched site).tree.run := by
  intro seen hseen
  obtain ⟨found, seen', htree, hseen', hsteps, -⟩ := tree_outcome h hseen
  have hafter : ((access.watched site).tree.run.run seen).2 = seen' := congrArg Prod.snd htree
  rw [hafter]
  exact ⟨hseen', hsteps⟩

theorem compiled_goes : Keeps (site.Goes [.reading, .coding]) (access.watched site).compiled.run := by
  intro seen hseen
  obtain ⟨found, seen', hcompiled, hseen', hsteps, -⟩ := compiled_outcome h hseen
  have hafter : ((access.watched site).compiled.run.run seen).2 = seen' := congrArg Prod.snd hcompiled
  rw [hafter]
  exact ⟨hseen', ((steps_renewed _ _).mono (by simp)).trans hsteps⟩

/-- What is done with the context that is found. -/
theorem context_goes {purposes : List Purpose} {α : Type}
    {next : Context (StateM (σ × History)) → Answer (StateM (σ × History)) α}
    (hnext : ∀ ctx : Context (StateM σ), ctx.Each (Keeps site.Drifts) →
      Keeps (site.Goes purposes) (next (watchedContext site ctx)).run) :
    Keeps (site.Goes purposes) (ExceptT.lift (access.watched site).context >>= next).run := by
  intro seen hseen
  obtain ⟨ctx, state, hctx, hcontext, hstate, hcaches⟩ := run_context h hseen
  have hrun : Answer.runIn (ExceptT.lift (access.watched site).context >>= next) seen =
      (next (watchedContext site ctx)).runIn (state, seen.2) :=
    Answer.runIn_bind_ok (by rw [Answer.runIn_lift, hcontext])
  have hview : site.view (state, seen.2) = site.view seen := by rw [Site.view, Site.view, hcaches]
  have hgoes := hnext ctx hctx (state, seen.2) hstate
  rw [hview] at hgoes
  exact (congrArg (fun ran => site.Holds ran.2.1 ∧ Steps purposes (site.view seen) (site.view ran.2)) hrun).mpr hgoes

theorem references_goes : Keeps (site.Goes [.reading]) (access.watched site).references.run :=
  (tree_goes h).andThen fun found => by
    cases found with
    | none => exact keeps_ofExcept (.ok _)
    | some expr => exact keeps_ofExcept (.ok _)

theorem hasAggregates_goes : Keeps (site.Goes [.reading, .coding]) (access.watched site).hasAggregates := by
  refine (compiled_goes h).bind fun found => ?_
  cases found with
  | ok form => cases form <;> exact keeps_pure _
  | error error => exact keeps_pure _

/-- A walk of the tree or its postfix run takes no coding. -/
theorem evaluate_goes_uncompiled {strategy : Strategy} (hstrategy : strategy ≠ .compiled) (bindings : Bindings) :
    Keeps (site.Goes [.reading]) ((access.watched site).evaluate strategy bindings).run := by
  cases strategy with
  | compiled => exact absurd rfl hstrategy
  | direct =>
    refine (tree_goes h).andThen fun found => ?_
    cases found with
    | none => exact keeps_ofExcept (.ok _)
    | some expr => exact context_goes h fun ctx hctx => ((watchedContext_calm hctx).walk bindings expr _).goes
  | flattened =>
    refine (tree_goes h).andThen fun found => ?_
    cases found with
    | none => exact keeps_ofExcept (.ok _)
    | some expr => exact context_goes h fun ctx hctx => ((watchedContext_calm hctx).evaluatePostfix bindings expr).goes

theorem evaluate_goes (strategy : Strategy) (bindings : Bindings) :
    Keeps (site.Goes [.reading, .coding]) ((access.watched site).evaluate strategy bindings).run := by
  by_cases hstrategy : strategy = .compiled
  · subst hstrategy
    refine (compiled_goes h).andThen fun found => ?_
    cases found with
    | none => exact keeps_ofExcept (.ok _)
    | some form =>
      refine context_goes h fun ctx hctx => ?_
      have hcalm : Keeps site.Calm (form.call (watchedContext site ctx) bindings).run :=
        (watchedContext_calm hctx).script bindings form.script
      exact hcalm.goes.widen (by simp)
  · exact (evaluate_goes_uncompiled h hstrategy bindings).widen (by simp)

theorem run_goes (bindings : Bindings) :
    Keeps (site.Goes [.reading, .coding]) ((access.watched site).run bindings).run :=
  (read_goes h _).lift.andThen fun f => evaluate_goes h f.strategy bindings

/-! ## Changes -/

omit h in
/-- A change and the note that is taken of it make one step. -/
theorem noted_goes {action : StateM (σ × History) Unit} {happening : Happening} (change : Formula → Formula)
    (haction : ∀ seen : σ × History, site.Holds seen.1 → ∃ state, action.run seen = ((), state, seen.2) ∧
      site.Holds state ∧ site.formula state = change (site.formula seen.1))
    (hstep : ∀ f history, Step .dropping (f.caches, history) ((change f).caches, history ++ [happening])) :
    Keeps (site.Goes [.dropping]) (do action; Site.note happening) := by
  intro seen hseen
  obtain ⟨state, hrun, hstate, hformula⟩ := haction seen hseen
  have hview : site.view (state, seen.2 ++ [happening]) =
      ((change (site.formula seen.1)).caches, seen.2 ++ [happening]) := by
    rw [Site.view, Site.caches, hformula]
  rw [StateT.run_bind, hrun]
  exact ⟨hstate, .single (hview ▸ hstep (site.formula seen.1) seen.2) List.mem_cons_self⟩

theorem invalidate_goes : Keeps (site.Goes [.dropping]) (do
    (access.watched site).invalidate
    Site.note .treeDropped) :=
  noted_goes ({ · with tree := none, compiled := none }) (run_update h _ fun _ hf => hf) fun f _ => .dropTree f.source

theorem setSource_goes (source : String) : Keeps (site.Goes [.dropping]) (do
    (access.watched site).setSource source
    Site.note .treeDropped) := by
  refine noted_goes ({ · with source := source, tree := none, compiled := none }) (fun seen hseen => ?_)
    fun _ _ => .dropTree source
  obtain ⟨between, hset, hbetween, hchanged⟩ := run_update h ({ · with source := source }) (fun _ hf => hf) seen hseen
  obtain ⟨state, hrun, hstate, hformula⟩ := run_update h ({ · with tree := none, compiled := none }) (fun _ hf => hf)
    (between, seen.2) hbetween
  refine ⟨state, ?_, hstate, by rw [hformula, hchanged]⟩
  rw [setSource, StateT.run_bind, hset]
  exact hrun

theorem invalidateCode_goes : Keeps (site.Goes [.dropping]) (do
    (access.watched site).invalidateCode
    Site.note .codeDropped) :=
  noted_goes ({ · with compiled := none, outdated := false }) (run_update h _ fun _ hf => by cases hf)
    fun _ _ => .dropCode

theorem hear_goes (event : ChangeEvent) : Keeps (site.Goes [.reading]) ((access.watched site).hear event) := by
  unfold hear
  split
  · have hmark : Keeps site.Drifts (access.update ({ · with outdated := true })) := fun state hstate => by
      obtain ⟨hholds, hformula⟩ := h.update ({ · with outdated := true }) state hstate
      exact ⟨hholds, true, by rw [Site.caches, hformula, marked, Bool.or_true]; rfl⟩
    exact (site.watch_calm hmark).goes
  · exact keeps_pure _

end FormulaAccess

/-! ## Deeds -/

/-- What is asked of a formula, done to it or told it. -/
inductive Deed (site : Site σ) where
  | tree
  | references
  | compiled
  | hasAggregates
  | evaluate (strategy : Strategy) (bindings : Bindings)
  | run (bindings : Bindings)
  | setSource (source : String)
  | invalidate
  | invalidateCode
  /-- Another context takes the place of the formula's. -/
  | setContext (move : StateM σ Unit) (hmove : Keeps site.Drifts move)
  | hear (event : ChangeEvent)
  /-- Something else goes on, in the course of which the context may announce what outdates the code. -/
  | elsewhere (action : StateM σ Unit) (haction : Keeps site.Drifts action)

namespace Deed

section Perform

variable {m : Type → Type} [Monad m]

/-- Does the deed to a formula, with a way to do what else goes on, and to note what is dropped. -/
def perform (formula : FormulaAccess m) (embed : StateM σ Unit → m Unit) (note : Happening → m Unit) :
    Deed site → m Unit
  | tree => do let _ ← formula.tree.run
  | references => do let _ ← formula.references.run
  | compiled => do let _ ← formula.compiled.run
  | hasAggregates => do let _ ← formula.hasAggregates
  | evaluate strategy bindings => do let _ ← (formula.evaluate strategy bindings).run
  | run bindings => do let _ ← (formula.run bindings).run
  | setSource source => do
    formula.setSource source
    note .treeDropped
  | invalidate => do
    formula.invalidate
    note .treeDropped
  | invalidateCode => do
    formula.invalidateCode
    note .codeDropped
  | setContext move _ => do
    formula.setContext (embed move)
    note .codeDropped
  | hear event => formula.hear event
  | elsewhere action _ => embed action

end Perform

/-- The deed is done. -/
def plain (access : FormulaAccess (StateM σ)) (deed : Deed site) : StateM σ Unit :=
  deed.perform access id fun _ => pure ()

/-- The deed is done to the watched formula. -/
def watched (access : FormulaAccess (StateM σ)) (deed : Deed site) : StateM (σ × History) Unit :=
  deed.perform (access.watched site) site.watch Site.note

/-- What is left when the deeds have been done in turn. -/
def outcome (access : FormulaAccess (StateM σ)) (deeds : List (Deed site)) (state : σ) : σ :=
  ((deeds.forM fun deed => deed.plain access).run state).2

/-- The same with the history. -/
def after (access : FormulaAccess (StateM σ)) (deeds : List (Deed site)) (seen : σ × History) : σ × History :=
  ((deeds.forM fun deed => deed.watched access).run seen).2

/-- To watch a deed does not change what comes of it. -/
theorem watched_alike (deed : Deed site) :
    Alike (fun seen state => seen.1 = state) (deed.watched access) (deed.plain access) := by
  have hserves := access.watched_servesAlike site
  have hnote (happening : Happening) :
      Alike (fun seen state => seen.1 = state) (Site.note (σ := σ) happening) (pure ()) := fun _ _ h => ⟨rfl, h⟩
  cases deed with
  | tree => exact Alike.bind hserves.tree fun _ => alike_pure ()
  | references => exact Alike.bind hserves.references fun _ => alike_pure ()
  | compiled => exact Alike.bind hserves.compiled fun _ => alike_pure ()
  | hasAggregates => exact hserves.hasAggregates.bind fun _ => alike_pure ()
  | evaluate strategy bindings => exact Alike.bind (hserves.evaluate strategy bindings) fun _ => alike_pure ()
  | run bindings => exact Alike.bind (hserves.run bindings) fun _ => alike_pure ()
  | setSource source => exact ((hserves.update _).bind fun _ => hserves.update _).bind fun _ => hnote _
  | invalidate => exact (hserves.update _).bind fun _ => hnote _
  | invalidateCode => exact (hserves.update _).bind fun _ => hnote _
  | setContext move hmove => exact ((site.watch_alike move).bind fun _ => hserves.update _).bind fun _ => hnote _
  | hear event => exact hserves.hear event
  | elsewhere action haction => exact site.watch_alike action

theorem after_fst (deeds : List (Deed site)) (seen : σ × History) :
    (after access deeds seen).1 = outcome access deeds seen.1 := by
  have halike : Alike (fun seen state => seen.1 = state) (deeds.forM fun deed => deed.watched access)
      (deeds.forM fun deed => deed.plain access) := alike_forM fun deed => deed.watched_alike
  exact (halike seen seen.1 rfl).2

/-- Whether the formula is asked for something that may need its code. -/
def codes : Deed site → Bool
  | compiled | hasAggregates | evaluate .compiled _ | run _ => true
  | tree | references | evaluate .direct _ | evaluate .flattened _ => false
  | setSource _ | invalidate | invalidateCode | setContext _ _ | hear _ | elsewhere _ _ => false

def purposes (deed : Deed site) : List Purpose :=
  if deed.codes then [.reading, .coding] else [.reading, .dropping]

/-- **A deed takes steps.** -/
theorem watched_goes (h : access.Lawful site) (deed : Deed site) :
    Keeps (site.Goes deed.purposes) (deed.watched access) := by
  cases deed with
  | tree => exact ((access.tree_goes h).widen (by simp [purposes, codes])).bind fun _ => keeps_pure _
  | references => exact ((access.references_goes h).widen (by simp [purposes, codes])).bind fun _ => keeps_pure _
  | compiled => exact (access.compiled_goes h).bind fun _ => keeps_pure _
  | hasAggregates => exact (access.hasAggregates_goes h).bind fun _ => keeps_pure _
  | evaluate strategy bindings =>
    cases strategy with
    | compiled => exact (access.evaluate_goes h .compiled bindings).bind fun _ => keeps_pure _
    | direct =>
      have hgoes := access.evaluate_goes_uncompiled h (show Strategy.direct ≠ .compiled by decide) bindings
      exact (hgoes.widen (by simp [purposes, codes])).bind fun _ => keeps_pure _
    | flattened =>
      have hgoes := access.evaluate_goes_uncompiled h (show Strategy.flattened ≠ .compiled by decide) bindings
      exact (hgoes.widen (by simp [purposes, codes])).bind fun _ => keeps_pure _
  | run bindings => exact (access.run_goes h bindings).bind fun _ => keeps_pure _
  | setSource source => exact (access.setSource_goes h source).widen (by simp [purposes, codes])
  | invalidate => exact (access.invalidate_goes h).widen (by simp [purposes, codes])
  | invalidateCode => exact (access.invalidateCode_goes h).widen (by simp [purposes, codes])
  | setContext move hmove =>
    exact ((site.watch_calm hmove).goes.widen (by simp [purposes, codes])).bind fun _ =>
      (access.invalidateCode_goes h).widen (by simp [purposes, codes])
  | hear event => exact (access.hear_goes h event).widen (by simp [purposes, codes])
  | elsewhere action haction => exact (site.watch_calm haction).goes.widen (by simp [purposes, codes])

theorem coding_notMem_purposes {deed : Deed site} (hcodes : deed.codes = false) : .coding ∉ deed.purposes := by
  rw [purposes, hcodes]
  decide

theorem after_goes (h : access.Lawful site) (deeds : List (Deed site)) {seen : σ × History}
    (hseen : site.Holds seen.1) : site.Holds (after access deeds seen).1 ∧
      Steps [.reading, .coding, .dropping] (site.view seen) (site.view (after access deeds seen)) := by
  have hgoes : Keeps (site.Goes [.reading, .coding, .dropping]) (deeds.forM fun deed => deed.watched access) :=
    Keeps.forM fun deed => (deed.watched_goes h).widen <| by
      unfold purposes
      split <;> simp
  exact hgoes seen hseen

end Deed

end Formulary
