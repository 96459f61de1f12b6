import Formulary.Proofs.Facade.DeedSteps
import Formulary.Proofs.Workspace.ConnectionsKept

/-!
# Formulas in a workspace and elsewhere

Two kinds of formulas that the laws hold of: those of a workspace (`Workspace.formulaAccess_lawful`), and those that
stand beside any state, with any parser that computes with that state and any contexts that do and announce events
(`FormulaAccess.beside_lawful`). A parser that announces events is not lawful (`Workspace.announcingAccess`).
-/

namespace Formulary

/-! ## Formulas of a workspace -/

namespace Workspace

variable {w w' : Workspace} {id : Nat}

/-- Where the formula with this number is. -/
def formulaSite (id : Nat) : Site Workspace := ⟨(·.formula id), fun w => (w.formulas.find? id).isSome⟩

theorem holds_of_find?_eq {change : Formula → Formula}
    (hfind : w'.formulas.find? id = (w.formulas.find? id).map change) (h : (formulaSite id).Holds w) :
    (formulaSite id).Holds w' ∧ w'.formula id = change (w.formula id) := by
  obtain ⟨f, hf⟩ := Option.isSome_iff_exists.mp h
  rw [hf, Option.map_some] at hfind
  refine ⟨Option.isSome_of_eq_some hfind, ?_⟩
  rw [formula_of_find? hf, formula_of_find? hfind]

theorem rests_of_find?_eq {change : Formula → Formula}
    (hfind : w'.formulas.find? id = (w.formulas.find? id).map change)
    (hchange : ∀ f, (change f).caches = f.caches) : (formulaSite id).Rests w w' := by
  intro h
  obtain ⟨hholds, hformula⟩ := holds_of_find?_eq hfind h
  exact ⟨hholds, (congrArg Formula.caches hformula).trans (hchange _)⟩

theorem rests_of_formulas_eq (h : w'.formulas = w.formulas) : (formulaSite id).Rests w w' :=
  @rests_of_find?_eq w w' id (fun f => f) (by simp [h]) fun _ => rfl

theorem detach_rests (other : Nat) : (formulaSite id).Rests w (w.detach other) :=
  rests_of_find?_eq (w.find?_detach other id) fun f => by split <;> rfl

theorem attach_rests (other hostId : Nat) : (formulaSite id).Rests w (w.attach other hostId) := by
  obtain ⟨subscription, hfind⟩ := w.find?_attach other hostId id
  exact rests_of_find?_eq hfind fun f => by split <;> rfl

theorem Notifies.drifts {marked : Nat → Bool} {heard : List (String × ChangeEvent)}
    (h : Notifies w w' marked heard) : (formulaSite id).Drifts w w' := by
  intro hholds
  obtain ⟨hholds', hformula⟩ := holds_of_find?_eq (h.find? id) hholds
  exact ⟨hholds', marked id, congrArg Formula.caches hformula⟩

/-- What a sheet announces reaches the formula as an event, if at all. -/
theorem drifts_keptByHost (hostId : Nat) : KeptByHost (formulaSite id).Drifts hostId where
  record _ _ := (rests_of_formulas_eq rfl).drifts
  update _ _ := (rests_of_formulas_eq rfl).drifts
  publish w event := (w.publish_notifies hostId event).drifts

theorem ensureHost_rests : Keeps (formulaSite id).Rests (ensureHost id) := by
  intro w
  rw [run_ensureHost]
  split
  · exact refl_of (formulaSite id).Rests w
  · have hadded : (formulaSite id).Rests w (w.addHost .plain .empty) := rests_of_formulas_eq rfl
    exact trans_of (formulaSite id).Rests hadded (attach_rests id w.hosts.next)

/-- **A formula of a workspace.** -/
theorem formulaAccess_lawful (id : Nat) : (formulaAccess id).Lawful (formulaSite id) where
  read w _ := rfl
  update change w h := by
    have hfind : (w.updateFormula id change).formulas.find? id = (w.formulas.find? id).map change := by
      simp [find?_updateFormula]
    exact holds_of_find?_eq hfind h
  parse source := by
    have hrecord : Keeps (formulaSite id).Rests (modify (·.record (.parsed source)) : WorkspaceM Unit) :=
      fun w => rests_of_formulas_eq rfl
    exact hrecord.lift.andThen fun _ => keeps_ofExcept _
  context := ensureHost_rests.bind fun hostId => fun w => refl_of (formulaSite id).Rests w
  answers w _ := (drifts_keptByHost ((ensureHost id).run w).1).contextOf _

/-- The same with a parser that sets a variable of a host before it reads a source. If the formula is attached to
the host and the variable is new, its code is outdated while it is read, so this access is not lawful. -/
def announcingAccess (id hostId : Nat) (name : String) (value : Value) : FormulaAccess WorkspaceM :=
  { formulaAccess id with
    parse := fun source => do
      ExceptT.lift ((access hostId).setVariable name value)
      (formulaAccess id).parse source }

/-- The formula is attached to a host or to none. -/
def settingHost (id : Nat) (hostId : Option Nat) : Deed (formulaSite id) :=
  .setContext (modify fun w => match hostId with
    | some hostId => w.attach id hostId
    | none => w.detach id) fun w => by
      cases hostId with
      | none => exact (detach_rests id).drifts
      | some hostId => exact (attach_rests id hostId).drifts

/-- A deed is done to a formula by what the workspace has for it. -/
def undertake (id : Nat) : Deed (formulaSite id) → WorkspaceM Unit
  | .tree => do let _ ← (tree id).run
  | .references => do let _ ← (references id).run
  | .compiled => do let _ ← (compiled id).run
  | .hasAggregates => do let _ ← hasAggregates id
  | .evaluate strategy bindings => do let _ ← (evaluate id strategy bindings).run
  | .run bindings => do let _ ← (run id bindings).run
  | .setSource source => modify (·.setSource id source)
  | .invalidate => modify (·.invalidate id)
  | .invalidateCode => modify (·.invalidateCode id)
  | .setContext move _ => do
    move
    modify (·.invalidateCode id)
  | .hear event => (formulaAccess id).hear event
  | .elsewhere action _ => action

/-- **The workspace does to a formula what the deeds say.** -/
theorem undertake_eq (deed : Deed (formulaSite id)) : undertake id deed = deed.plain (formulaAccess id) := by
  cases deed with
  | tree =>
    rewrite [undertake, tree_eq]
    rfl
  | references =>
    rewrite [undertake, references_eq]
    rfl
  | compiled =>
    rewrite [undertake, compiled_eq]
    rfl
  | hasAggregates =>
    rewrite [undertake, hasAggregates_eq]
    rfl
  | evaluate strategy bindings =>
    rewrite [undertake, evaluate_eq]
    rfl
  | run bindings =>
    rewrite [undertake, run_eq]
    rfl
  | setSource source => rfl
  | invalidate => rfl
  | invalidateCode => rfl
  | setContext move hmove => rfl
  | hear event => rfl
  | elsewhere action haction => rfl

theorem undertake_settingHost (hostId : Option Nat) :
    undertake id (settingHost id hostId) = modify (·.setHost id hostId) := rfl

end Workspace

/-! ## Formulas beside any state -/

section Beside

variable {σ : Type}

/-- A computation that announces events, done where a formula hears them. -/
def Formula.hearing {α : Type} (action : StateM (σ × List ChangeEvent) α) : StateM (Formula × σ) α :=
  fun (f, state) =>
    let (value, state', events) := action.run (state, [])
    (value, { f with outdated := f.outdated || events.any ChangeEvent.outdatesCode }, state')

namespace FormulaAccess

/-- A formula beside a state, with any parser that announces nothing, attached to the context that the state has. -/
def beside (parse : (source : String) → Answer (StateM σ) Expr)
    (contextOf : σ → Context (StateM (σ × List ChangeEvent))) : FormulaAccess (StateM (Formula × σ)) where
  read := do return (← get).1
  update change := modify fun (f, state) => (change f, state)
  parse source := ExceptT.mk fun (f, state) =>
    let (found, state') := (parse source).runIn state
    (found, f, state')
  context := do return (contextOf (← get).2).carried Formula.hearing

def besideSite : Site (Formula × σ) := ⟨Prod.fst, fun _ => True⟩

theorem hearing_keeps {α : Type} (action : StateM (σ × List ChangeEvent) α) :
    Keeps (besideSite (σ := σ)).Drifts (Formula.hearing action) :=
  fun _ _ => ⟨trivial, _, rfl⟩

/-- **A formula with any parser that announces nothing, and any context.** -/
theorem beside_lawful (parse : (source : String) → Answer (StateM σ) Expr)
    (contextOf : σ → Context (StateM (σ × List ChangeEvent))) :
    (beside parse contextOf).Lawful besideSite where
  read _ _ := rfl
  update _ _ _ := ⟨trivial, rfl⟩
  parse _ _ _ := ⟨trivial, rfl⟩
  context _ _ := ⟨trivial, rfl⟩
  answers state _ :=
    (Context.each_of_forall (P := fun _ => True) (fun _ => trivial) (contextOf state.2)).carried
      fun action _ => hearing_keeps action

end FormulaAccess

end Beside

end Formulary
