import Formulary.Proofs.Facade.AtMostOnce
import Formulary.Proofs.Facade.DeedSteps
import Formulary.Proofs.Facade.Instances

/-!
# Reads never repeat work

However a formula is read, changed and told of events, its parser is called at most once until its tree is dropped,
and its tree is compiled at most once until the compiled form is dropped or outdated. What was found is found again
until then without any work, errors as much as results (`FormulaAccess.reads_never_repeat`). This holds of a formula
with any parser and any context that are lawful, so of formulas beside any state and of those of a workspace, where
the deeds are done by what the workspace has for them (`Workspace.undertake_eq`). It does not hold with a parser that
announces new names (`FormulaAccess.compiles_twice_announcing`).
-/

namespace Formulary

open Caches Happening

variable {σ : Type} {access : FormulaAccess (StateM σ)} {site : Site σ}

namespace FormulaAccess

/-- The request answers what is known, and no work is done for it. -/
def Finds {α : Type} (request : Answer (StateM (σ × History)) α) (found : Except FormulaError α)
    (seen : σ × History) : Prop :=
  (request.runIn seen).1 = found ∧ (request.runIn seen).2.2 = seen.2

theorem Finds.bind_error {α β : Type} {request : Answer (StateM (σ × History)) α} {error : FormulaError}
    {seen : σ × History} (h : Finds request (.error error) seen) (next : α → Answer (StateM (σ × History)) β) :
    Finds (request >>= next) (.error error) seen := by
  have hrun : request.runIn seen = (.error error, (request.runIn seen).2) := Prod.ext h.1 rfl
  rw [Finds, Answer.runIn_bind_error hrun]
  exact ⟨rfl, h.2⟩

/-- Whatever needs the compiled form finds the error. -/
structure FailsCompiled (access : FormulaAccess (StateM σ)) (site : Site σ) (error : FormulaError)
    (seen : σ × History) : Prop where
  compiled : Finds (access.watched site).compiled (.error error) seen
  hasAggregates : Finds (ExceptT.lift (access.watched site).hasAggregates) (.ok false) seen
  evaluateCompiled : ∀ bindings, Finds ((access.watched site).evaluate .compiled bindings) (.error error) seen

/-- Whatever is asked finds the error. -/
structure Fails (access : FormulaAccess (StateM σ)) (site : Site σ) (error : FormulaError) (seen : σ × History) : Prop
    extends access.FailsCompiled site error seen where
  tree : Finds (access.watched site).tree (.error error) seen
  references : Finds (access.watched site).references (.error error) seen
  evaluate : ∀ strategy bindings, Finds ((access.watched site).evaluate strategy bindings) (.error error) seen
  run : ∀ bindings, Finds ((access.watched site).run bindings) (.error error) seen

/-- Where a formula with its history has got, no work has been repeated, and none will be. -/
structure NeverRepeats (access : FormulaAccess (StateM σ)) (site : Site σ) (seen : σ × History) : Prop where
  /-- The parser is called at most once between two drops of the tree. -/
  parsesOnce : seen.2.AtMostOnce parses dropsTree
  /-- It is not called for a blank source. -/
  written : ∀ source, .parsing source ∈ seen.2 → isBlankText source = false
  /-- The tree is compiled at most once between two drops of the compiled form. -/
  compilesOnce : seen.2.AtMostOnce compiles dropsCode
  /-- Only what needs the compiled form has the tree compiled. -/
  uncoded : ∀ deed : Deed site, deed.codes = false →
    (Deed.after access [deed] seen).2.count .compiling = seen.2.count .compiling
  /-- It makes no difference if the formula hears that a value has changed. -/
  unmoved : ∀ (name : Option String) (later : List (Deed site)),
    Deed.after access (.hear (.dependentChanged name) :: later) seen = Deed.after access later seen
  /-- Until the tree is dropped, what is read is what is read later. -/
  tree : ∀ (later : List (Deed site)) (last : σ × History),
    last = Deed.after access later ((access.watched site).tree.runIn seen).2 →
    (last.2.since seen.2).Without dropsTree →
    Finds (access.watched site).tree ((access.watched site).tree.runIn seen).1 last ∧
      ∀ error, ((access.watched site).tree.runIn seen).1 = .error error → access.Fails site error last
  /-- Until the compiled form is dropped, what is compiled is what is found later. -/
  compiled : ∀ (later : List (Deed site)) (last : σ × History),
    last = Deed.after access later ((access.watched site).compiled.runIn seen).2 →
    (last.2.since seen.2).Without dropsCode →
    Finds (access.watched site).compiled ((access.watched site).compiled.runIn seen).1 last ∧
      ∀ error, ((access.watched site).compiled.runIn seen).1 = .error error → access.FailsCompiled site error last

/-! ## What is found again -/

theorem failsCompiled_of_finds {error : FormulaError} {seen : σ × History}
    (hcompiled : Finds (access.watched site).compiled (.error error) seen) :
    access.FailsCompiled site error seen where
  compiled := hcompiled
  hasAggregates := by
    have hrun : (access.watched site).compiled.run.run seen =
        (.error error, ((access.watched site).compiled.runIn seen).2) := Prod.ext hcompiled.1 rfl
    rw [Finds, Answer.runIn_lift, FormulaAccess.hasAggregates, StateT.run_bind, hrun]
    exact ⟨rfl, hcompiled.2⟩
  evaluateCompiled bindings := hcompiled.bind_error _

section Found

variable (h : access.Lawful site) {seen : σ × History} (hseen : site.Holds seen.1)

include h hseen

theorem finds_tree {found : Except FormulaError (Option Expr)} (htree : (site.caches seen.1).tree = some found) :
    Finds (access.watched site).tree found seen := by
  rw [Finds, run_tree_of_some h hseen htree]
  exact ⟨rfl, rfl⟩

theorem finds_compiled {found : Except FormulaError (Option Compiled)} (hfresh : (site.caches seen.1).outdated = false)
    (hcompiled : (site.caches seen.1).compiled = some found) : Finds (access.watched site).compiled found seen := by
  obtain ⟨found', seen', hrun, -, -, -, hkept⟩ := compiled_outcome h hseen
  rw [renewed_of_fresh hfresh] at hkept
  rw [Finds, hrun]
  exact hkept found hcompiled

/-- An error of the tree is one of the compiled form. -/
theorem finds_compiled_of_tree_error {error : FormulaError}
    (htree : (site.caches seen.1).tree = some (.error error)) (hsound : (site.caches seen.1).Sound) :
    Finds (access.watched site).compiled (.error error) seen := by
  obtain ⟨state, hstate, hrenewed, hsome, hnone⟩ := run_compiled h hseen
  have htree : (site.caches state).tree = some (.error error) := by rw [hrenewed, tree_renewed, htree]
  have hsound : (site.caches state).Sound := hrenewed ▸ hsound.renewed
  cases hcompiled : (site.caches state).compiled with
  | some found =>
    obtain ⟨tree, htree', herror⟩ := hsound found hcompiled
    have hfound : found = .error error := herror error (Option.some.inj (htree'.symm.trans htree))
    rw [Finds, hsome found hcompiled, hfound]
    exact ⟨rfl, rfl⟩
  | none =>
    have hread := @run_tree_of_some σ access site h (state, seen.2) hstate (.error error) htree
    obtain ⟨state', hrun, -, -⟩ := hnone hcompiled _ _ (Answer.runIn_bind_error hread) hstate
    rw [Finds, hrun]
    exact ⟨rfl, rfl⟩

theorem fails_of_tree_error {error : FormulaError} (htree : (site.caches seen.1).tree = some (.error error))
    (hsound : (site.caches seen.1).Sound) : access.Fails site error seen := by
  have htree' := finds_tree h hseen htree
  have hcompiled := finds_compiled_of_tree_error h hseen htree hsound
  have hevaluate (strategy : Strategy) (bindings : Bindings) :
      Finds ((access.watched site).evaluate strategy bindings) (.error error) seen := by
    cases strategy with
    | compiled => exact hcompiled.bind_error _
    | direct => exact htree'.bind_error _
    | flattened => exact htree'.bind_error _
  refine { failsCompiled_of_finds hcompiled with
    tree := htree', references := htree'.bind_error _, evaluate := hevaluate, run := fun bindings => ?_ }
  have hrun : ((access.watched site).run bindings).runIn seen =
      ((access.watched site).evaluate (site.formula seen.1).strategy bindings).runIn seen :=
    Answer.runIn_bind_ok (by rw [Answer.runIn_lift, run_read h hseen])
  rw [Finds, hrun]
  exact hevaluate _ bindings

end Found

/-! ## Runs -/

theorem neverRepeats_of_frugal (h : access.Lawful site) {seen : σ × History} (hseen : site.Holds seen.1)
    (hfrugal : Frugal (site.view seen)) : access.NeverRepeats site seen where
  parsesOnce := hfrugal.parsesOnce.once
  written := hfrugal.written
  compilesOnce := hfrugal.compilesOnce.once
  uncoded deed hcodes := (deed.watched_goes h seen hseen).2.count_compiling (Deed.coding_notMem_purposes hcodes)
  unmoved name later := rfl
  tree := by
    rintro later last rfl hwithout
    obtain ⟨found, seen', hrun, hseen', hsteps, hcaches⟩ := tree_outcome h hseen
    rw [hrun] at hwithout ⊢
    obtain ⟨hlast, hlater⟩ := Deed.after_goes h later hseen'
    obtain ⟨more, hmore⟩ := hsteps.grown
    obtain ⟨more', hmore'⟩ := hlater.grown
    have htree := hmore'.tree (hmore.without_since hmore' hwithout).2 found (congrArg Caches.tree hcaches)
    refine ⟨finds_tree h hlast htree, fun error herror => ?_⟩
    rw [show found = .error error from herror] at htree
    exact fails_of_tree_error h hlast htree (hlater.frugal (hsteps.frugal hfrugal)).sound
  compiled := by
    rintro later last rfl hwithout
    obtain ⟨found, seen', hrun, hseen', hsteps, hcompiled, -⟩ := compiled_outcome h hseen
    rw [hrun] at hwithout ⊢
    obtain ⟨hlast, hlater⟩ := Deed.after_goes h later hseen'
    obtain ⟨more, hmore⟩ := hsteps.grown
    obtain ⟨more', hmore'⟩ := hlater.grown
    obtain ⟨hwithoutFirst, hwithoutLast⟩ := hmore.without_since hmore' hwithout
    have hfresh := hmore.fresh hwithoutFirst (outdated_renewed _)
    have hfound := finds_compiled h hlast (hmore'.fresh hwithoutLast hfresh)
      (hmore'.compiled hwithoutLast hfresh found hcompiled)
    refine ⟨hfound, fun error herror => ?_⟩
    rw [show found = .error error from herror] at hfound
    exact failsCompiled_of_finds hfound

end FormulaAccess

end Formulary
