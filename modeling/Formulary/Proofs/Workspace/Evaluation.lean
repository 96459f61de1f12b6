import Formulary.Proofs.Postfix.Simulation
import Formulary.Proofs.Workspace.Caches

/-!
# Evaluating formulas

A formula is evaluated as its source is in the sheet of its host, by every strategy (`runIn_evaluate`). What its
functions announce is heard by those who listen to the host by the ledger.
-/

namespace Formulary

namespace Ledger

/-- Those from outside who listen to a source. -/
def outsiders (ledger : Ledger) (source : Source) : List String :=
  (ledger.listeners source).filterMap fun
    | .outside name => some name
    | .formula _ => none

/-- What comes of an event when a listener hears it. -/
def heardThrough (ledger : Ledger) (event : ChangeEvent) : Listener → List (String × ChangeEvent)
  | .outside name => [(name, event)]
  | .formula id => event.forwarded.flatMap fun event => (ledger.outsiders (.formula id)).map (·, event)

/-- What comes of an event when a host publishes it. -/
def deliveries (ledger : Ledger) (hostId : Nat) (event : ChangeEvent) : List (String × ChangeEvent) :=
  (ledger.listeners (.host hostId)).flatMap (ledger.heardThrough event)

/-- What comes of a notice when a host gives it. -/
def told (ledger : Ledger) (hostId : Nat) : Notice → List (String × ChangeEvent)
  | .changed event => ledger.deliveries hostId event
  | .counted _ _ => []

end Ledger

namespace Workspace

section Ledger

variable {w : Workspace} {subscriptions : Dictionary Subscription} {ledger : Ledger}
  (h : w.Connected subscriptions ledger)

include h

theorem Connected.values_formula (id : Nat) :
    (w.formula id).channel.values = ledger.outsiders (.formula id) := by
  unfold Ledger.outsiders
  cases hf : w.formulas.find? id with
  | none =>
    rw [h.wired.closed (by simp [channel?, hf]), formula, hf]
    rfl
  | some f =>
    have hchannel : w.channel? (.formula id) = some f.channel.outside := by simp [channel?, hf]
    rw [← h.wired.values hchannel, Channel.values_outside, formula_of_find? hf, List.filterMap_map]
    exact List.filterMap_some.symm

theorem Connected.values_host (id : Nat) : (w.host id).channel.values = ledger.listeners (.host id) := by
  cases hhost : w.hosts.find? id with
  | none =>
    rw [h.wired.closed (by simp [channel?, hhost]), host, hhost]
    rfl
  | some host =>
    have hchannel : w.channel? (.host id) = some host.channel := by simp [channel?, hhost]
    rw [← h.wired.values hchannel, host_of_find? hhost]

/-- Those hear an event who listen by the ledger. -/
theorem Connected.heardFrom_eq (id : Nat) (event : ChangeEvent) :
    w.heardFrom id event = ledger.deliveries id event := by
  have hthrough : w.heardThrough event = ledger.heardThrough event := by
    funext listener
    cases listener with
    | outside => rfl
    | formula id => simp only [heardThrough, Ledger.heardThrough, h.values_formula]
  rw [heardFrom, Ledger.deliveries, h.values_host, hthrough]

theorem Connected.heardOf_eq (id : Nat) (note : Notice) : w.heardOf id note = ledger.told id note := by
  cases note with
  | changed event => exact h.heardFrom_eq id event
  | counted => rfl

end Ledger

/-- A formula has been evaluated, and its functions have left a host these variables and had it give notices. -/
structure Evaluates (w : Workspace) (id hostId : Nat) (left : Dictionary Value) (notices : List Notice)
    (w' : Workspace) : Prop where
  sound : w'.Sound
  values : ∀ other, (w'.host other).sheet.variables =
    if other = hostId then left else (w.host other).sheet.variables
  connected : ∀ {subscriptions ledger}, w.Connected subscriptions ledger →
    w'.Connected subscriptions (settled ledger w w' id)
  tells : ∀ {subscriptions ledger}, w.Connected subscriptions ledger →
    Tells w w' (notices.flatMap ((settled ledger w w' id).told hostId))
  nextHost : w.hosts.next ≤ w'.hosts.next
  formulas : ∀ other, (w'.formulas.find? other).isSome = (w.formulas.find? other).isSome

theorem Settles.evaluates {w w' : Workspace} {id : Nat} (h : Settles w id w') (hostId : Nat) :
    Evaluates w id hostId (w.host hostId).sheet.variables [] w' where
  sound := h.sound
  values other := by
    split
    · next heq => rw [heq, (h.sheets hostId).1]
    · exact (h.sheets other).1
  connected := h.connected
  tells _ := h.tells
  nextHost := h.nextHost
  formulas := h.formulas

theorem Settles.evaluates_within {w w' w'' : Workspace} {id hostId : Nat} {seen : Sheet × List Notice}
    (h : Settles w id w') {subscriptions : Dictionary Subscription} {ledger : Ledger}
    (hconnected : w'.Connected subscriptions ledger) (hwithin : Within w' hostId w'' seen) :
    Evaluates w id hostId seen.1.variables seen.2 w'' := by
  obtain ⟨hsince, hnamed, haggregate⟩ := hwithin
  have hsettled : ∀ ledger, settled ledger w w'' id = settled ledger w w' id := by
    intro ledger
    have hattachment : (w''.formula id).attachment = (w'.formula id).attachment := by
      rw [Workspace.formula, Workspace.formula, hsince.formula]
      cases w'.formulas.find? id <;> rfl
    unfold settled
    rw [hattachment]
  constructor
  case sound => exact hsince.sound h.sound hconnected hnamed (.inl haggregate)
  case values =>
    intro other
    split
    · next heq => rw [heq, hsince.sheet_eq]
    · next hne => rw [hsince.sheet_of_ne hne, (h.sheets other).1]
  case connected =>
    intro subscriptions ledger hw
    rw [hsettled]
    exact hsince.connected (h.connected hw)
  case tells =>
    intro subscriptions ledger hw
    rw [hsettled]
    have htells := h.tells.trans hsince.tells
    rw [List.nil_append, funext ((h.connected hw).heardOf_eq hostId)] at htells
    exact htells
  case nextHost =>
    rw [hsince.nextHost]
    exact h.nextHost
  case formulas =>
    intro other
    rw [hsince.formula, Option.isSome_map, h.formulas]

/-! ## In the context of a host -/

section Host

variable {w : Workspace} (hw : w.Sound) {hostId : Nat} {host : Host} (hhost : w.hosts.find? hostId = some host)
  (bindings : Bindings) {expr : Expr}

include hw hhost

theorem within_start : Within w hostId w (host.sheet, []) :=
  ⟨.refl hhost, (hw.plain hostId host hhost).2, by rw [host_of_find? hhost]⟩

/-- A tree that is walked. -/
theorem runIn_walk : ((expr.evaluate (contextOf hostId host.setup) bindings).runIn w).1 =
      (host.sheet.outcome bindings expr).1 ∧
    Within w hostId ((expr.evaluate (contextOf hostId host.setup) bindings).runIn w).2
      (host.sheet.outcome bindings expr).2 :=
  expr.walk_alike (contextOf_evaluatesAlike (hw.plain hostId host hhost).1) bindings Expr.maxDepth w
    (host.sheet, []) (within_start hw hhost)

/-- A tree that is flattened. -/
theorem runIn_postfix (hdepth : expr.depth ≤ Expr.maxDepth) :
    ((expr.evaluatePostfix (contextOf hostId host.setup) bindings).runIn w).1 =
      (host.sheet.outcome bindings expr).1 ∧
    Within w hostId ((expr.evaluatePostfix (contextOf hostId host.setup) bindings).runIn w).2
      (host.sheet.outcome bindings expr).2 := by
  rw [Postfix.evaluatePostfix_eq_walk _ bindings hdepth]
  exact runIn_walk hw hhost bindings

/-- A compiled form. -/
theorem runIn_call (hdepth : expr.depth ≤ Expr.maxDepth) {form : Compiled}
    (hemitted : Emitted expr form.code form.script) :
    ((form.call (contextOf hostId host.setup) bindings).runIn w).1 = (host.sheet.outcome bindings expr).1 ∧
      Within w hostId ((form.call (contextOf hostId host.setup) bindings).runIn w).2
        (host.sheet.outcome bindings expr).2 := by
  rw [← host.sheet.call_eq_outcome bindings hemitted hdepth]
  exact Script.run_alike bindings (contextOf_evaluatesAlike (hw.plain hostId host hhost).1) form.script w
    (host.sheet, []) (within_start hw hhost)

end Host

/-! ## Formulas -/

/-- The sheet that a formula is evaluated in is that of the host where it is. -/
theorem Connected.sheet_hostOf {w : Workspace} {subscriptions : Dictionary Subscription} {ledger : Ledger}
    (h : w.Connected subscriptions ledger) (f : Formula) : (w.host (w.hostOf f)).sheet = w.sheetOf f := by
  unfold hostOf sheetOf
  cases f.attachment with
  | some attachment => rfl
  | none =>
    dsimp only
    rw [host, h.find?_nextHost]
    rfl

section Evaluate

variable {w : Workspace} {subscriptions : Dictionary Subscription} {ledger : Ledger}
  (hconnected : w.Connected subscriptions ledger) {id : Nat} {f : Formula}
  (hf : w.formulas.find? id = some f) (bindings : Bindings) {expr : Expr}

include hconnected hf

/-- What runs like the tree at a host does so in the context of the formula. -/
theorem runIn_inContext {w₁ : Workspace} (hsettles : Settles w id w₁)
    (run : Context WorkspaceM → Answer WorkspaceM Value)
    (hrun : ∀ {w : Workspace} {hostId : Nat} {host : Host}, w.Sound → w.hosts.find? hostId = some host →
      ((run (contextOf hostId host.setup)).runIn w).1 = (host.sheet.outcome bindings expr).1 ∧
        Within w hostId ((run (contextOf hostId host.setup)).runIn w).2 (host.sheet.outcome bindings expr).2) :
    ∃ w', (do run (← ExceptT.lift (formulaContext id)) : Answer WorkspaceM Value).runIn w₁ =
        (((w.sheetOf f).outcome bindings expr).1, w') ∧
      Evaluates w id (w.hostOf f) ((w.sheetOf f).outcome bindings expr).2.1.variables
        ((w.sheetOf f).outcome bindings expr).2.2 w' := by
  obtain ⟨f₁, hf₁, -⟩ := hsettles.formula
  have hconnected₁ := hsettles.connected hconnected
  obtain ⟨w₂, host, hcontext, hsettles₂, hhost, hagrees⟩ :=
    runIn_formulaContext hsettles.sound hconnected₁ hf₁
  have hhostOf := hsettles.host
  have hsheet := hsettles.sheet
  rw [formula_of_find? hf₁, formula_of_find? hf] at hhostOf hsheet
  -- a host that was made on the way is the one that the formula was said to get
  rw [hhostOf] at hcontext hhost
  obtain ⟨hvariables, hfunctions⟩ := hagrees.trans hsheet
  obtain ⟨hvalue, hleft, hnotices⟩ := Sheet.outcome_congr hvariables hfunctions bindings expr
  obtain ⟨hresult, hwithin⟩ := hrun hsettles₂.sound hhost
  refine ⟨((run (contextOf (w.hostOf f) host.setup)).runIn w₂).2, ?_, ?_⟩
  · rw [Answer.runIn_bind_ok (Answer.runIn_lift _ w₁), hcontext]
    exact Prod.ext (hresult.trans hvalue) rfl
  · rw [← hleft, ← hnotices]
    exact (hsettles.trans hsettles₂).evaluates_within (hsettles₂.connected hconnected₁) hwithin

/-- What runs like the tree needs no compiled form. -/
theorem runIn_byTree (hw : w.Sound) (run : Context WorkspaceM → Expr → Answer WorkspaceM Value)
    (hrun : ∀ {w : Workspace} {hostId : Nat} {host : Host} {expr : Expr}, w.Sound →
      w.hosts.find? hostId = some host → expr.depth ≤ Expr.maxDepth →
      ((run (contextOf hostId host.setup) expr).runIn w).1 = (host.sheet.outcome bindings expr).1 ∧
        Within w hostId ((run (contextOf hostId host.setup) expr).runIn w).2
          (host.sheet.outcome bindings expr).2) :
    ∃ w', (do
        match ← tree id with
        | none => pure .empty
        | some expr => run (← ExceptT.lift (formulaContext id)) expr : Answer WorkspaceM Value).runIn w =
        ((w.sheetOf f).valueOfSource bindings f.source, w') ∧
      Evaluates w id (w.hostOf f) ((w.sheetOf f).leftBySource bindings f.source)
        ((w.sheetOf f).noticesOfSource bindings f.source) w' := by
  obtain ⟨w₁, htree, hsettles⟩ := runIn_tree hw hf
  have hidle := hsettles.evaluates (w.hostOf f)
  rw [hconnected.sheet_hostOf] at hidle
  unfold Sheet.valueOfSource Sheet.leftBySource Sheet.noticesOfSource
  cases hparse : Formula.parse f.source with
  | error error =>
    rw [hparse] at htree
    exact ⟨w₁, Answer.runIn_bind_error htree, hidle⟩
  | ok found =>
    rw [hparse] at htree
    rw [Answer.runIn_bind_ok htree]
    cases found with
    | none => exact ⟨w₁, rfl, hidle⟩
    | some expr =>
      have hdepth := (Formula.parse_sound hparse).2.1
      exact runIn_inContext hconnected hf bindings hsettles (run · expr)
        fun hw hhost => hrun hw hhost hdepth

/-- **Evaluation.** By every strategy a formula has the value of its source in the sheet of its host as it is. -/
theorem runIn_evaluate (hw : w.Sound) (strategy : Strategy) :
    ∃ w', (evaluate id strategy bindings).runIn w = ((w.sheetOf f).valueOfSource bindings f.source, w') ∧
      Evaluates w id (w.hostOf f) ((w.sheetOf f).leftBySource bindings f.source)
        ((w.sheetOf f).noticesOfSource bindings f.source) w' := by
  cases strategy with
  | compiled =>
    obtain ⟨w₁, hcompiled, hsettles⟩ := runIn_compiled hw hconnected hf
    have hidle := hsettles.evaluates (w.hostOf f)
    rw [hconnected.sheet_hostOf] at hidle
    unfold evaluate Sheet.valueOfSource Sheet.leftBySource Sheet.noticesOfSource
    cases hparse : Formula.parse f.source with
    | error error =>
      rw [Sheet.compileSource, hparse] at hcompiled
      exact ⟨w₁, Answer.runIn_bind_error hcompiled, hidle⟩
    | ok found =>
      cases found with
      | none =>
        rw [Sheet.compileSource, hparse] at hcompiled
        exact ⟨w₁, Answer.runIn_bind_ok hcompiled, hidle⟩
      | some expr =>
        obtain ⟨form, hform, hdepth, hemitted⟩ := (w.sheetOf f).exists_compileSource hparse (hw.length id f hf)
        rw [hform] at hcompiled
        dsimp only
        rw [Answer.runIn_bind_ok hcompiled]
        exact runIn_inContext hconnected hf bindings hsettles (form.call · bindings)
          fun hw hhost => runIn_call hw hhost bindings hdepth hemitted
  | direct =>
    exact runIn_byTree hconnected hf bindings hw (fun ctx expr => expr.evaluate ctx bindings)
      fun hw hhost _ => runIn_walk hw hhost bindings
  | flattened =>
    exact runIn_byTree hconnected hf bindings hw (fun ctx expr => expr.evaluatePostfix ctx bindings)
      fun hw hhost hdepth => runIn_postfix hw hhost bindings hdepth

/-- A compiled form runs as the source does in the sheet of whichever host it is run in. -/
theorem runIn_callCompiled (hw : w.Sound) {hostId : Nat} {host : Host}
    (hhost : w.hosts.find? hostId = some host) :
    ∃ w', (callCompiled id hostId bindings).runIn w = (match Formula.parse f.source with
        | .ok none => .ok none
        | .ok (some expr) => (host.sheet.outcome bindings expr).1.map some
        | .error error => .error error, w') ∧
      Evaluates w id hostId (host.sheet.leftBySource bindings f.source)
        (host.sheet.noticesOfSource bindings f.source) w' := by
  obtain ⟨w₁, hcompiled, hsettles⟩ := runIn_compiled hw hconnected hf
  have hidle := hsettles.evaluates hostId
  rw [host_of_find? hhost] at hidle
  unfold callCompiled Sheet.leftBySource Sheet.noticesOfSource
  cases hparse : Formula.parse f.source with
  | error error =>
    rw [Sheet.compileSource, hparse] at hcompiled
    exact ⟨w₁, Answer.runIn_bind_error hcompiled, hidle⟩
  | ok found =>
    cases found with
    | none =>
      rw [Sheet.compileSource, hparse] at hcompiled
      exact ⟨w₁, Answer.runIn_bind_ok hcompiled, hidle⟩
    | some expr =>
      obtain ⟨form, hform, hdepth, hemitted⟩ := (w.sheetOf f).exists_compileSource hparse (hw.length id f hf)
      rw [hform] at hcompiled
      obtain ⟨host', hhost', hvariables, hfunctions⟩ := hsettles.hosts hostId host hhost
      obtain ⟨hvalue, hleft, hnotices⟩ := Sheet.outcome_congr hvariables hfunctions bindings expr
      obtain ⟨hresult, hwithin⟩ := runIn_call hsettles.sound hhost' bindings hdepth hemitted
      refine ⟨((form.call (contextOf hostId host'.setup) bindings).runIn w₁).2, ?_, ?_⟩
      · have hcontext : (hostContext hostId).run w₁ = (contextOf hostId host'.setup, w₁) := by
          rw [← host_of_find? hhost']
          rfl
        dsimp only
        rw [Answer.runIn_bind_ok hcompiled]
        dsimp only
        rw [Answer.runIn_bind_ok (Answer.runIn_lift _ w₁), hcontext, Answer.runIn_map, hresult, hvalue]
      · dsimp only
        rw [← hleft, ← hnotices]
        exact hsettles.evaluates_within (hsettles.connected hconnected) hwithin

end Evaluate

end Workspace

end Formulary
