import Formulary.Proofs.Alike
import Formulary.Proofs.Compiled.Refinement

/-!
# Sheets by themselves

`Sheet.outcome` is what a tree comes to in a sheet that nobody else can reach, and what its functions announce
on the way; `Sheet.compile` is what the tree compiles to there. The scope of a sheet matters to neither
(`outcome_congr`, `compile_congr`).
-/

namespace Formulary

/-- Access to a sheet whose notices are kept. -/
def SheetAccess.heard : SheetAccess (StateM (Sheet × List Notice)) where
  read := do return (← get).1
  update change := modify fun (sheet, notices) => (change sheet, notices)
  announce note := modify fun (sheet, notices) => (sheet, notices ++ [note])

/-- Who sets one variable alike sets several alike. -/
theorem SheetAccess.setAndAnswer_alike {σ τ : Type} {R : σ → τ → Prop} {access : SheetAccess (StateM σ)}
    {access' : SheetAccess (StateM τ)}
    (h : ∀ name value, Alike R (access.setVariable name value) (access'.setVariable name value))
    (outcome : List (String × Value) × Except FormulaError Value) :
    Answer.Alike R (access.setAndAnswer outcome) (access'.setAndAnswer outcome) := by
  have hchanges : Alike R (outcome.1.forM fun change => access.setVariable change.1 change.2)
      (outcome.1.forM fun change => access'.setVariable change.1 change.2) :=
    alike_forM fun change => h change.1 change.2
  unfold setAndAnswer
  exact (Answer.alike_lift hchanges).bind fun _ => Answer.alike_ofExcept _

namespace Sheet

/-- The value of a tree in a sheet, the sheet after that, and the notices. -/
def outcome (sheet : Sheet) (bindings : Bindings) (expr : Expr) :
    Except FormulaError Value × Sheet × List Notice :=
  (expr.evaluate (Sheet.context .heard) bindings).runIn (sheet, [])

/-- The compiled form of a tree in a sheet. -/
def compile (sheet : Sheet) (expr : Expr) : Except FormulaError Compiled :=
  ((Compiled.ofExpr (Sheet.context .own) expr).runIn sheet).1

/-- The function that a call is of is the one of that name. -/
theorem find?_of_functionFor {sheet : Sheet} {name : String} {count : Nat} {f : Function}
    (h : sheet.functionFor name count = .ok f) : sheet.functions.find? name = some f := by
  unfold functionFor at h
  split at h
  · exact nomatch h
  · next g hg =>
    have hfg : g = f := by
      cases harity : g.checkArity count with
      | ok => rw [harity] at h; exact Except.ok.inj h
      | error => rw [harity] at h; exact nomatch h
    rw [hg, hfg]

/-! ## Sheets that differ in their scopes -/

/-- All but the scopes is the same. -/
def SameData (seen seen' : Sheet × List Notice) : Prop :=
  seen.1.variables = seen'.1.variables ∧ seen.1.functions = seen'.1.functions ∧ seen.2 = seen'.2

theorem setVariable_alike_sameData (name : String) (value : Value) :
    Alike SameData (SheetAccess.heard.setVariable name value) (SheetAccess.heard.setVariable name value) := by
  rintro ⟨sheet, notices⟩ ⟨sheet', notices'⟩ ⟨hvariables, hfunctions, hnotices⟩
  refine ⟨rfl, congrArg (fun vs => vs.insert name value) hvariables, hfunctions, ?_⟩
  show notices ++ [.changed (sheet.setEvent name)] = notices' ++ [.changed (sheet'.setEvent name)]
  have hevent : sheet.setEvent name = sheet'.setEvent name := by
    unfold setEvent
    rw [show sheet.variables = sheet'.variables from hvariables]
  rw [hevent, show notices = notices' from hnotices]

theorem callBody_alike_sameData (f : Function) (args : List Value) :
    Answer.Alike SameData (SheetAccess.heard.callBody f args) (SheetAccess.heard.callBody f args) := by
  unfold SheetAccess.callBody
  cases f.body with
  | result run => exact Answer.alike_ofExcept _
  | setting run =>
    rintro ⟨sheet, notices⟩ ⟨sheet', notices'⟩ h
    have hrun : ∀ (sheet : Sheet) notices, Answer.runIn (do
        let sheet ← ExceptT.lift SheetAccess.heard.read
        SheetAccess.heard.setAndAnswer (run sheet.variables args)) (sheet, notices) =
        (SheetAccess.heard.setAndAnswer (run sheet.variables args)).runIn (sheet, notices) := fun _ _ => rfl
    dsimp only
    rw [hrun, hrun, show sheet.variables = sheet'.variables from h.1]
    exact SheetAccess.setAndAnswer_alike setVariable_alike_sameData _ _ _ h
  | counter calls =>
    rintro ⟨sheet, notices⟩ ⟨sheet', notices'⟩ ⟨hvariables, hfunctions, hnotices⟩
    exact ⟨rfl, hvariables, congrArg (Registry.register · { f with body := .counter (calls + 1) }) hfunctions,
      congrArg (· ++ [Notice.counted f.name (calls + 1)]) hnotices⟩

theorem evaluatesAlike_sameData :
    (Sheet.context .heard).EvaluatesAlike SameData (Sheet.context .heard) := by
  have hlookup : ∀ name bindings, Answer.Alike SameData ((Sheet.context .heard).lookup name bindings)
      ((Sheet.context .heard).lookup name bindings) := by
    rintro name bindings ⟨sheet, notices⟩ ⟨sheet', notices'⟩ h
    have hvalue : sheet.valueOf bindings name = sheet'.valueOf bindings name := by
      unfold valueOf
      rw [show sheet.variables = sheet'.variables from h.1]
    exact ⟨hvalue, h⟩
  refine ⟨hlookup, fun name _ bindings => hlookup name bindings, ?_⟩
  rintro name args ⟨sheet, notices⟩ ⟨sheet', notices'⟩ h
  have hfunction : sheet.functionFor name args.length = sheet'.functionFor name args.length := by
    unfold functionFor
    rw [show sheet.functions = sheet'.functions from h.2.1]
  have hcall : ∀ (sheet : Sheet) notices, ((Sheet.context .heard).call name args).runIn (sheet, notices) =
      (Answer.ofExcept (sheet.functionFor name args.length) >>= fun f =>
        SheetAccess.heard.callBody f args).runIn (sheet, notices) := fun _ _ => rfl
  rw [hcall, hcall, ← hfunction]
  exact (Answer.alike_ofExcept _).bind (fun f => callBody_alike_sameData f args) _ _ h

theorem outcome_congr {sheet sheet' : Sheet} (hvariables : sheet.variables = sheet'.variables)
    (hfunctions : sheet.functions = sheet'.functions) (bindings : Bindings) (expr : Expr) :
    (sheet.outcome bindings expr).1 = (sheet'.outcome bindings expr).1 ∧
      (sheet.outcome bindings expr).2.1.variables = (sheet'.outcome bindings expr).2.1.variables ∧
        (sheet.outcome bindings expr).2.2 = (sheet'.outcome bindings expr).2.2 := by
  obtain ⟨hvalue, hleft, -, hnotices⟩ := expr.walk_alike evaluatesAlike_sameData bindings Expr.maxDepth
    (sheet, []) (sheet', []) ⟨hvariables, hfunctions, rfl⟩
  exact ⟨hvalue, hleft, hnotices⟩

/-- In compilation: the same functions are aggregate ones, and the scope has been the same since it began. -/
def SameCompilation (sheet sheet' : Sheet) : Prop :=
  sheet.isAggregate = sheet'.isAggregate ∧ sheet.scope.frames = sheet'.scope.frames ∧
    sheet.scope.nextIndex = sheet'.scope.nextIndex ∧ sheet.scope.pending = sheet'.scope.pending

theorem emitsAlike_sameCompilation :
    (Sheet.context .own).EmitsAlike SameCompilation (Sheet.context .own) where
  variableCode name indices := Answer.alike_pure _
  callCode name codes indices := by
    rintro sheet sheet' ⟨haggregate, hframes, hnext, hpending⟩
    refine ⟨rfl, haggregate, hframes, hnext, ?_⟩
    show (sheet.scope.pending || sheet.isAggregate name) = (sheet'.scope.pending || sheet'.isAggregate name)
    rw [hpending, haggregate]
  isAggregate name := fun sheet sheet' h => ⟨congrFun h.1 name, h⟩
  beginFrame frame := by
    rintro sheet sheet' ⟨haggregate, hframes, hnext, hpending⟩
    refine ⟨rfl, haggregate, ?_⟩
    show (sheet.scope.openFrame frame.aggregate).frames = (sheet'.scope.openFrame frame.aggregate).frames ∧
      (sheet.scope.openFrame frame.aggregate).nextIndex = (sheet'.scope.openFrame frame.aggregate).nextIndex ∧
        (sheet.scope.openFrame frame.aggregate).pending = (sheet'.scope.openFrame frame.aggregate).pending
    cases frame.aggregate <;> simp [Scope.openFrame, hframes, hnext, hpending]
  endFrame name := fun sheet sheet' h => ⟨rfl, h.1, congrArg List.tail h.2.1, h.2.2⟩
  openIndices := fun sheet sheet' h => ⟨congrArg (fun frames => (frames.filterMap id).reverse) h.2.1, h⟩

/-- The code of a tree, once a compilation has begun. -/
def emission (sheet : Sheet) (expr : Expr) : Except FormulaError String × Sheet :=
  (if Expr.maxDepth < expr.levels then throw .tooDeep else expr.emit (Sheet.context .own) :
    Answer (StateM Sheet) String).runIn { sheet with scope := sheet.scope.begin }

theorem runIn_toCode_own (sheet : Sheet) (expr : Expr) :
    (expr.toCode (Sheet.context .own)).runIn sheet = ((sheet.emission expr).1,
      ((Sheet.context .own).settleCompile.run
        ((Sheet.context .own).endCompile.run (sheet.emission expr).2).2).2) := rfl

theorem compile_eq_of_ok {sheet sheet' : Sheet} {expr : Expr} {code : String}
    (h : sheet.emission expr = (.ok code, sheet')) : sheet.compile expr =
      (Script.ofCode code).map fun script => ⟨code, script, sheet'.scope.pending⟩ := by
  have hcode := runIn_toCode_own sheet expr
  rw [h] at hcode
  rw [compile, Compiled.ofExpr_of_load rfl, Answer.runIn_bind_ok hcode]
  cases Script.ofCode code with
  | ok script => rfl
  | error error => rfl

theorem compile_eq_of_error {sheet sheet' : Sheet} {expr : Expr} {error : FormulaError}
    (h : sheet.emission expr = (.error error, sheet')) : sheet.compile expr = .error error := by
  have hcode := runIn_toCode_own sheet expr
  rw [h] at hcode
  rw [compile, Compiled.ofExpr, Answer.runIn_bind_error hcode]

/-- Only the aggregate functions of a sheet matter to the code and to the calls that are noted. -/
theorem emission_congr {sheet sheet' : Sheet} (h : sheet.isAggregate = sheet'.isAggregate) (expr : Expr) :
    (sheet.emission expr).1 = (sheet'.emission expr).1 ∧
      (sheet.emission expr).2.scope.pending = (sheet'.emission expr).2.scope.pending := by
  have hemit : Answer.Alike SameCompilation
      (if Expr.maxDepth < expr.levels then throw .tooDeep else expr.emit (Sheet.context .own))
      (if Expr.maxDepth < expr.levels then throw .tooDeep else expr.emit (Sheet.context .own)) := by
    split
    · exact Answer.alike_throw _
    · exact expr.emit_alike emitsAlike_sameCompilation
  obtain ⟨hresult, -, -, -, hpending⟩ := hemit { sheet with scope := sheet.scope.begin }
    { sheet' with scope := sheet'.scope.begin } ⟨h, rfl, rfl, rfl⟩
  exact ⟨hresult, hpending⟩

theorem compile_congr {sheet sheet' : Sheet} (h : sheet.isAggregate = sheet'.isAggregate) (expr : Expr) :
    sheet.compile expr = sheet'.compile expr := by
  obtain ⟨hresult, hpending⟩ := emission_congr h expr
  cases hcode : (sheet.emission expr).1 with
  | ok code =>
    rw [compile_eq_of_ok (Prod.ext hcode rfl), compile_eq_of_ok (Prod.ext (hresult.symm.trans hcode) rfl)]
    exact congrArg (fun pending => (Script.ofCode code).map fun script => Compiled.mk code script pending)
      hpending
  | error error =>
    rw [compile_eq_of_error (Prod.ext hcode rfl),
      compile_eq_of_error (Prod.ext (hresult.symm.trans hcode) rfl)]

end Sheet

end Formulary
