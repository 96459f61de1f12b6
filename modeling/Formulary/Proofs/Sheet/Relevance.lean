import Formulary.Expr.Walk
import Formulary.Proofs.Compiled.Congruence
import Formulary.Proofs.Compiled.Scopes
import Formulary.Proofs.Postfix.Simulation
import Formulary.Proofs.Sheet.Alone
import Formulary.Workspace.Basic

/-!
# Nothing but the references of a tree matters to it

Two sheets, each with bindings of its own, agree on the references of a tree if the variables listed there have
the same values and the functions listed there are the same and change nothing. Then the tree has the same
value by every strategy and the same code, and no other name is asked for (`references_suffice`).

The two runs are followed side by side: `Twins` is what they have in common between the questions, and
`Abreast` what they also have in common once a compilation has begun.
-/

namespace Formulary

/-- The request is about a listed name, or about none. -/
def Request.Within (refs : References) : Request → Prop
  | lookup name | lookupScoped name _ => name ∈ refs.variables
  | call name _ | beginFrame name _ | endFrame name | callCode name _ _ => name ∈ refs.functions
  | beginCompile | endCompile | settleCompile => True

/-- The value of a tree, found by a strategy. -/
def Expr.evaluateBy {m : Type → Type} [Monad m] (strategy : Strategy) (ctx : Context m) (bindings : Bindings)
    (expr : Expr) : Answer m Value :=
  match strategy with
  | .compiled => do
    let form ← Compiled.ofExpr ctx expr
    form.call ctx bindings
  | .direct => expr.evaluate ctx bindings
  | .flattened => expr.evaluatePostfix ctx bindings

/-- The values of the listed variables are the same, and so are the listed functions, which change nothing. -/
structure References.Agree (refs : References) (bindings bindings' : Bindings) (sheet sheet' : Sheet) : Prop where
  valueOf : ∀ name ∈ refs.variables, sheet.valueOf bindings name = sheet'.valueOf bindings' name
  find? : ∀ name ∈ refs.functions, sheet.functions.find? name = sheet'.functions.find? name
  result : ∀ name ∈ refs.functions, ∀ f, sheet.functions.find? name = some f → ∃ run, f.body = .result run

namespace Sheet

/-- A request is put at the end of the log. -/
def noteRequest (request : Request) : StateM (Sheet × List Request) Unit :=
  modify fun (sheet, log) => (sheet, log ++ [request])

/-- A sheet as a context that keeps a log of what it is asked. -/
def noted : Context (StateM (Sheet × List Request)) := (Sheet.context .besideLog).traced noteRequest

/-- What the evaluation of a tree comes to in a sheet, and all that the sheet is asked for it. -/
def follow (sheet : Sheet) (strategy : Strategy) (bindings : Bindings) (expr : Expr) :
    Except FormulaError Value × List Request :=
  let (result, _, log) := (expr.evaluateBy strategy noted bindings).runIn (sheet, [])
  (result, log)

/-- The log makes no difference to compilation. -/
theorem noted_compilesAlike : noted.CompilesAlike (fun run sheet => run.1 = sheet) (Sheet.context .own) := by
  refine Context.CompilesAlike.traced (fun _ _ _ h => h) ?_
  have hchange : ∀ change : Scope → Scope, Alike (fun run sheet => run.1 = sheet)
      (SheetAccess.besideLog.updateScope change) (SheetAccess.own.updateScope change) := by
    rintro change ⟨sheet, log⟩ _ rfl
    exact ⟨rfl, rfl⟩
  exact {
    variableCode := fun name indices => Answer.alike_pure _
    callCode := by
      rintro name codes indices ⟨sheet, log⟩ _ rfl
      exact ⟨rfl, rfl⟩
    isAggregate := by
      rintro name ⟨sheet, log⟩ _ rfl
      exact ⟨rfl, rfl⟩
    beginFrame := fun frame => hchange _
    endFrame := fun name => hchange _
    openIndices := by
      rintro ⟨sheet, log⟩ _ rfl
      exact ⟨rfl, rfl⟩
    beginCompile := hchange _
    endCompile := hchange _
    settleCompile := hchange _
    hasAggregates := by
      rintro ⟨sheet, log⟩ _ rfl
      exact ⟨rfl, rfl⟩
    load := fun code => Answer.alike_ofExcept (Script.ofCode code) }

end Sheet

/-! ## Two runs side by side -/

variable {refs : References} {bindings bindings' : Bindings}

/-- Two sheets that agree have been asked the same so far, and nothing about other names. -/
structure Twins (refs : References) (bindings bindings' : Bindings) (run run' : Sheet × List Request) :
    Prop where
  agree : refs.Agree bindings bindings' run.1 run'.1
  log_eq : run.2 = run'.2
  within : ∀ request ∈ run.2, request.Within refs

/-- In compilation: their scopes have also been the same since it began. -/
structure Abreast (refs : References) (bindings bindings' : Bindings) (run run' : Sheet × List Request) :
    Prop extends Twins refs bindings bindings' run run' where
  frames_eq : run.1.scope.frames = run'.1.scope.frames
  nextIndex_eq : run.1.scope.nextIndex = run'.1.scope.nextIndex
  pending_eq : run.1.scope.pending = run'.1.scope.pending

theorem isAggregate_agree {sheet sheet' : Sheet} (h : refs.Agree bindings bindings' sheet sheet') {name : String}
    (hname : name ∈ refs.functions) : sheet.isAggregate name = sheet'.isAggregate name := by
  unfold Sheet.isAggregate
  rw [h.find? name hname]

section

variable (request : Request)

theorem Twins.note {run run' : Sheet × List Request} (h : Twins refs bindings bindings' run run')
    (hrequest : request.Within refs) : Twins refs bindings bindings' (run.1, run.2 ++ [request])
      (run'.1, run'.2 ++ [request]) where
  agree := h.agree
  log_eq := by rw [h.log_eq]
  within := by
    intro request' hrequest'
    rcases List.mem_append.1 hrequest' with hbefore | hlast
    · exact h.within request' hbefore
    · exact List.mem_singleton.1 hlast ▸ hrequest

theorem noteRequest_twins (hrequest : request.Within refs) :
    Alike (Twins refs bindings bindings') (Sheet.noteRequest request) (Sheet.noteRequest request) :=
  fun _ _ h => ⟨rfl, h.note request hrequest⟩

theorem noteRequest_abreast (hrequest : request.Within refs) :
    Alike (Abreast refs bindings bindings') (Sheet.noteRequest request) (Sheet.noteRequest request) :=
  fun _ _ h => ⟨rfl, h.toTwins.note request hrequest, h.frames_eq, h.nextIndex_eq, h.pending_eq⟩

end

section Evaluation

variable (refs bindings bindings')

theorem valueOf_twins {name : String} (hname : name ∈ refs.variables) :
    Answer.Alike (Twins refs bindings bindings') ((Sheet.context .besideLog).lookup name bindings)
      ((Sheet.context .besideLog).lookup name bindings') :=
  fun _ _ h => ⟨h.agree.valueOf name hname, h⟩

theorem call_twins {name : String} (hname : name ∈ refs.functions) (args : List Value) :
    Answer.Alike (Twins refs bindings bindings') ((Sheet.context .besideLog).call name args)
      ((Sheet.context .besideLog).call name args) := by
  rintro ⟨sheet, log⟩ ⟨sheet', log'⟩ h
  have hfunction : sheet.functionFor name args.length = sheet'.functionFor name args.length := by
    unfold Sheet.functionFor
    rw [show sheet.functions.find? name = sheet'.functions.find? name from h.agree.find? name hname]
  have hcall : ∀ (sheet : Sheet) log, ((Sheet.context .besideLog).call name args).runIn (sheet, log) =
      (Answer.ofExcept (sheet.functionFor name args.length) >>= fun f =>
        SheetAccess.besideLog.callBody f args).runIn (sheet, log) := fun _ _ => rfl
  rw [hcall, hcall, ← hfunction]
  cases hf : sheet.functionFor name args.length with
  | error error => exact ⟨rfl, h⟩
  | ok f =>
    obtain ⟨run, hrun⟩ := h.agree.result name hname f (Sheet.find?_of_functionFor hf)
    have hbody : SheetAccess.besideLog.callBody f args = Answer.ofExcept (run args) := by
      unfold SheetAccess.callBody
      rw [hrun]
    rw [Answer.ofExcept_ok, pure_bind, hbody]
    exact ⟨rfl, h⟩

theorem limited_evaluatesAlike : (Sheet.noted.limited refs bindings).EvaluatesAlike
    (Twins refs bindings bindings') (Sheet.noted.limited refs bindings') where
  lookup name _ := by
    dsimp only [Context.limited]
    split
    · next hname =>
      exact (Answer.alike_lift (noteRequest_twins (.lookup name) hname)).bind fun _ =>
        valueOf_twins refs bindings bindings' hname
    · exact Answer.alike_throw _
  lookupScoped name indices _ := by
    dsimp only [Context.limited]
    split
    · next hname =>
      exact (Answer.alike_lift (noteRequest_twins (.lookupScoped name indices) hname)).bind fun _ =>
        valueOf_twins refs bindings bindings' hname
    · exact Answer.alike_throw _
  call name args := by
    dsimp only [Context.limited]
    split
    · next hname =>
      exact (Answer.alike_lift (noteRequest_twins (.call name args.length) hname)).bind fun _ =>
        call_twins refs bindings bindings' hname args
    · exact Answer.alike_throw _

end Evaluation

section Compilation

/-- What changes the scope alone in both sheets, and in the same way, keeps them abreast. -/
theorem updateScope_abreast {change : Scope → Scope}
    (hchange : ∀ scope scope' : Scope, scope.frames = scope'.frames → scope.nextIndex = scope'.nextIndex →
      scope.pending = scope'.pending → (change scope).frames = (change scope').frames ∧
        (change scope).nextIndex = (change scope').nextIndex ∧ (change scope).pending = (change scope').pending) :
    Alike (Abreast refs bindings bindings') (SheetAccess.besideLog.updateScope change)
      (SheetAccess.besideLog.updateScope change) := by
  intro run run' h
  obtain ⟨hframes, hnext, hpending⟩ := hchange _ _ h.frames_eq h.nextIndex_eq h.pending_eq
  exact ⟨rfl, ⟨⟨h.agree.valueOf, h.agree.find?, h.agree.result⟩, h.log_eq, h.within⟩, hframes, hnext, hpending⟩

variable (refs bindings bindings') in
theorem limited_emitsAlike : (Sheet.noted.limited refs bindings).EmitsAlike
    (Abreast refs bindings bindings') (Sheet.noted.limited refs bindings') where
  variableCode name indices := by
    dsimp only [Context.limited]
    split
    · exact Answer.alike_pure _
    · exact Answer.alike_throw _
  callCode name codes indices := by
    dsimp only [Context.limited]
    split
    · next hname =>
      refine (Answer.alike_lift (noteRequest_abreast (.callCode name codes.length indices) hname)).bind
        fun _ => ?_
      intro run run' h
      refine ⟨rfl, ⟨⟨h.agree.valueOf, h.agree.find?, h.agree.result⟩, h.log_eq, h.within⟩, h.frames_eq,
        h.nextIndex_eq, ?_⟩
      -- only functions that are referred to are called, and on these the sheets agree
      show (run.1.scope.pending || run.1.isAggregate name) = (run'.1.scope.pending || run'.1.isAggregate name)
      rw [h.pending_eq, isAggregate_agree h.agree hname]
    · exact Answer.alike_throw _
  isAggregate name := by
    dsimp only [Context.limited]
    split
    · next hname => exact fun run run' h => ⟨isAggregate_agree h.agree hname, h⟩
    · exact alike_pure _
  beginFrame frame := by
    dsimp only [Context.limited]
    split
    · next hname =>
      refine (noteRequest_abreast (.beginFrame frame.name frame.aggregate) hname).bind fun _ => ?_
      refine updateScope_abreast fun scope scope' hframes hnext hpending => ?_
      cases frame.aggregate <;> simp [Scope.openFrame, hframes, hnext, hpending]
    · exact alike_pure _
  endFrame name := by
    dsimp only [Context.limited]
    split
    · next hname =>
      refine (noteRequest_abreast (.endFrame name) hname).bind fun _ => ?_
      exact updateScope_abreast fun scope scope' hframes hnext hpending =>
        ⟨congrArg List.tail hframes, hnext, hpending⟩
    · exact alike_pure _
  openIndices := fun run run' h =>
    ⟨congrArg (fun frames => (frames.filterMap id).reverse) h.frames_eq, h⟩

variable {expr : Expr} (hcovers : refs.Covers expr) {run run' : Sheet × List Request}
  (h : Twins refs bindings bindings' run run')

include hcovers h

/-- The code is the same, and the sheets are left with the same flag. -/
theorem toCode_twins :
    ((expr.toCode Sheet.noted).runIn run).1 = ((expr.toCode Sheet.noted).runIn run').1 ∧
      Twins refs bindings bindings' ((expr.toCode Sheet.noted).runIn run).2
        ((expr.toCode Sheet.noted).runIn run').2 ∧
      ((expr.toCode Sheet.noted).runIn run).2.1.scope.hasAggregates =
        ((expr.toCode Sheet.noted).runIn run').2.1.scope.hasAggregates := by
  have hbegun : Abreast refs bindings bindings' (Sheet.noted.beginCompile.run run).2
      (Sheet.noted.beginCompile.run run').2 := by
    have hnoted := h.note .beginCompile trivial
    exact ⟨⟨⟨h.agree.valueOf, h.agree.find?, h.agree.result⟩, hnoted.log_eq, hnoted.within⟩, rfl, rfl, rfl⟩
  have hemit : Answer.Alike (Abreast refs bindings bindings')
      (if Expr.maxDepth < expr.levels then throw .tooDeep else expr.emit Sheet.noted)
      (if Expr.maxDepth < expr.levels then throw .tooDeep else expr.emit Sheet.noted) := by
    have halike := expr.emit_alike (limited_emitsAlike refs bindings bindings')
    rw [Expr.emit_congr (Sheet.noted.agreesOn_limited refs bindings bindings) hcovers,
      Expr.emit_congr (Sheet.noted.agreesOn_limited refs bindings' bindings') hcovers] at halike
    split
    · exact Answer.alike_throw _
    · exact halike
  have hend : Alike (Abreast refs bindings bindings') Sheet.noted.endCompile Sheet.noted.endCompile :=
    (noteRequest_abreast .endCompile trivial).bind fun _ =>
      updateScope_abreast fun _ _ _ hnext hpending => ⟨rfl, hnext, hpending⟩
  have hsettle : Alike (Abreast refs bindings bindings') Sheet.noted.settleCompile Sheet.noted.settleCompile :=
    (noteRequest_abreast .settleCompile trivial).bind fun _ =>
      updateScope_abreast fun _ _ hframes hnext hpending => ⟨hframes, hnext, hpending⟩
  obtain ⟨hcode, hemitted⟩ := hemit _ _ hbegun
  obtain ⟨-, hended⟩ := hend _ _ hemitted
  obtain ⟨-, hsettled⟩ := hsettle _ _ hended
  rw [runIn_compilation, runIn_compilation]
  exact ⟨hcode, hsettled.toTwins, hended.pending_eq⟩

theorem ofExpr_twins :
    ((Compiled.ofExpr Sheet.noted expr).runIn run).1 = ((Compiled.ofExpr Sheet.noted expr).runIn run').1 ∧
      Twins refs bindings bindings' ((Compiled.ofExpr Sheet.noted expr).runIn run).2
        ((Compiled.ofExpr Sheet.noted expr).runIn run').2 := by
  obtain ⟨hresult, hafter, hflag⟩ := toCode_twins hcovers h
  rw [Compiled.ofExpr_of_load rfl]
  cases hcode : ((expr.toCode Sheet.noted).runIn run').1 with
  | error error =>
    rw [Answer.runIn_bind_error (Prod.ext (hresult.trans hcode) rfl),
      Answer.runIn_bind_error (Prod.ext hcode rfl)]
    exact ⟨rfl, hafter⟩
  | ok code =>
    rw [Answer.runIn_bind_ok (Prod.ext (hresult.trans hcode) rfl), Answer.runIn_bind_ok (Prod.ext hcode rfl)]
    cases Script.ofCode code with
    | error error => exact ⟨rfl, hafter⟩
    | ok script => exact ⟨congrArg (fun flag => Except.ok (Compiled.mk code script flag)) hflag, hafter⟩

end Compilation

/-! ## Strategies -/

/-- A compiled form that a sheet has given has a code of the tree and the script of this code. -/
theorem emitted_of_ofExpr {expr : Expr} (hsize : expr.size ≤ 2 ^ 64) {run : Sheet × List Request} {form : Compiled}
    (hform : ((Compiled.ofExpr Sheet.noted expr).runIn run).1 = .ok form) :
    Emitted expr form.code form.script := by
  have hplain := plainFragments_sheet SheetAccess.reaches_own (Sheet.context .own).lookup
    (Sheet.context .own).lookupScoped (Sheet.context .own).call
  have hsame := (Compiled.ofExpr_alike Sheet.noted_compilesAlike expr run run.1 rfl).1
  rcases ofExpr_outcome hplain hsize run.1 with ⟨form', state, hown, -, -, hemitted⟩ | ⟨fault, state, hown, -⟩
  · have heq : Except.ok form = Except.ok form' := hform.symm.trans (hsame.trans (congrArg Prod.fst hown))
    rwa [Except.ok.inj heq]
  · exact nomatch hform.symm.trans (hsame.trans (congrArg Prod.fst hown))

/-- **Strategies.** Every strategy keeps the runs side by side and ends both alike. -/
theorem evaluateBy_twins {expr : Expr} (hcovers : refs.Covers expr) (strategy : Strategy)
    (hsize : strategy = .compiled → expr.size ≤ 2 ^ 64) :
    Answer.Alike (Twins refs bindings bindings') (expr.evaluateBy strategy Sheet.noted bindings)
      (expr.evaluateBy strategy Sheet.noted bindings') := by
  have hlimited := Sheet.noted.agreesOn_limited refs bindings bindings
  have hlimited' := Sheet.noted.agreesOn_limited refs bindings' bindings
  have halike := limited_evaluatesAlike refs bindings bindings'
  have hwalk : ∀ levels, Answer.Alike (Twins refs bindings bindings')
      (expr.walk Sheet.noted bindings levels) (expr.walk Sheet.noted bindings' levels) := by
    intro levels
    rw [← Expr.walk_congr hlimited hcovers levels, ← Expr.walk_congr hlimited' hcovers levels]
    exact expr.walk_alike halike bindings levels
  cases strategy with
  | direct => exact hwalk Expr.maxDepth
  | flattened =>
    dsimp only [Expr.evaluateBy]
    rw [Postfix.evaluatePostfix_eq_walk _ _ (Nat.le_refl expr.depth),
      Postfix.evaluatePostfix_eq_walk _ _ (Nat.le_refl expr.depth)]
    exact hwalk expr.depth
  | compiled =>
    intro run run' h
    obtain ⟨hresult, hafter⟩ := ofExpr_twins hcovers h
    rw [Expr.evaluateBy, Expr.evaluateBy]
    cases hform : ((Compiled.ofExpr Sheet.noted expr).runIn run').1 with
    | error error =>
      rw [Answer.runIn_bind_error (Prod.ext (hresult.trans hform) rfl),
        Answer.runIn_bind_error (Prod.ext hform rfl)]
      exact ⟨rfl, hafter⟩
    | ok form =>
      have hemitted := emitted_of_ofExpr (hsize rfl) hform
      rw [Answer.runIn_bind_ok (Prod.ext (hresult.trans hform) rfl), Answer.runIn_bind_ok (Prod.ext hform rfl),
        Compiled.call, Compiled.call, ← hemitted.run_congr hlimited hcovers,
        ← hemitted.run_congr hlimited' hcovers]
      exact form.script.run_alike bindings halike _ _ hafter

/-! ## Changes of other names -/

/-- A change to what a name stands for, in a sheet or in the bindings of an evaluation. -/
inductive Change (name : String) where
  | setVariable (value : Value)
  | removeVariable
  | register (f : Function) (hname : f.name = name)
  | bind (value : Value)
  | unbind

namespace Change

variable {name : String}

def onSheet : Change name → Sheet → Sheet
  | setVariable value, sheet => sheet.setVariable name value
  | removeVariable, sheet => sheet.removeVariable name
  | register f _, sheet => sheet.register f
  | bind _, sheet | unbind, sheet => sheet

def onBindings : Change name → Bindings → Bindings
  | bind value, bindings => bindings.insert name value
  | unbind, bindings => bindings.erase name
  | setVariable _, bindings | removeVariable, bindings | register _ _, bindings => bindings

variable (change : Change name) {other : String}

theorem find?_variables (h : other ≠ name) (sheet : Sheet) :
    (change.onSheet sheet).variables.find? other = sheet.variables.find? other := by
  cases change with
  | setVariable value => exact sheet.variables.find?_insert_of_ne value h
  | removeVariable => exact sheet.variables.find?_erase_of_ne h
  | register | bind | unbind => rfl

theorem find?_functions (h : other ≠ name) (sheet : Sheet) :
    (change.onSheet sheet).functions.find? other = sheet.functions.find? other := by
  cases change with
  | register f hname => exact sheet.functions.find?_insert_of_ne f (hname ▸ h)
  | setVariable | removeVariable | bind | unbind => rfl

theorem find?_bindings (h : other ≠ name) (bindings : Bindings) :
    (change.onBindings bindings).find? other = bindings.find? other := by
  cases change with
  | bind value => exact bindings.find?_insert_of_ne value h
  | unbind => exact bindings.find?_erase_of_ne h
  | setVariable | removeVariable | register => rfl

/-- A change of a name that is not listed leaves a sheet in agreement with what it was. -/
theorem agree {refs : References} (hmentions : refs.mentions name = false) {sheet : Sheet}
    (hresult : ∀ name ∈ refs.functions, ∀ f, sheet.functions.find? name = some f → ∃ run, f.body = .result run)
    (bindings : Bindings) :
    refs.Agree bindings (change.onBindings bindings) sheet (change.onSheet sheet) where
  valueOf other hother := by
    have hne : other ≠ name := by
      rintro rfl
      exact absurd (References.mentions_iff.2 (.inl hother)) (hmentions ▸ Bool.false_ne_true)
    unfold Sheet.valueOf Context.boundValue
    rw [change.find?_bindings hne, change.find?_variables hne]
  find? other hother := by
    have hne : other ≠ name := by
      rintro rfl
      exact absurd (References.mentions_iff.2 (.inr hother)) (hmentions ▸ Bool.false_ne_true)
    exact (change.find?_functions hne sheet).symm
  result := hresult

end Change

namespace Sheet

variable {expr : Expr} {sheet sheet' : Sheet}

theorem follow_congr (h : (References.ofExpr expr).Agree bindings bindings' sheet sheet') {strategy : Strategy}
    (hsize : strategy = .compiled → expr.size ≤ 2 ^ 64) :
    sheet.follow strategy bindings expr = sheet'.follow strategy bindings' expr ∧
      ∀ request ∈ (sheet.follow strategy bindings expr).2, request.Within (References.ofExpr expr) := by
  obtain ⟨hresult, hafter⟩ := evaluateBy_twins (References.covers_ofExpr expr) strategy hsize (sheet, [])
    (sheet', []) ⟨h, rfl, fun _ hrequest => nomatch hrequest⟩
  exact ⟨Prod.ext hresult hafter.log_eq, hafter.within⟩

/-- **References suffice.** Let two sheets agree on the references of a tree. By every strategy the tree has the
same value or error in both, for which they are asked the same and only about names that the tree refers to.
The code is the same in both, and so is the flag that it leaves and the compiled form. A change of a name that
the tree does not refer to makes no difference. The bound on the size is that of the counter of aggregate
indices. -/
theorem references_suffice (h : (References.ofExpr expr).Agree bindings bindings' sheet sheet') :
    (∀ strategy, (strategy = .compiled → expr.size ≤ 2 ^ 64) →
      sheet.follow strategy bindings expr = sheet'.follow strategy bindings' expr ∧
      (∀ request ∈ (sheet.follow strategy bindings expr).2, request.Within (References.ofExpr expr)) ∧
      ∀ name, (References.ofExpr expr).mentions name = false → ∀ change : Change name,
        (change.onSheet sheet).follow strategy (change.onBindings bindings) expr =
          sheet.follow strategy bindings expr) ∧
    ((expr.toCode (Sheet.context .own)).runIn sheet).1 = ((expr.toCode (Sheet.context .own)).runIn sheet').1 ∧
    ((expr.toCode (Sheet.context .own)).runIn sheet).2.scope.hasAggregates =
      ((expr.toCode (Sheet.context .own)).runIn sheet').2.scope.hasAggregates ∧
    sheet.compile expr = sheet'.compile expr := by
  have hcovers := References.covers_ofExpr expr
  have hstart : Twins (References.ofExpr expr) bindings bindings' (sheet, []) (sheet', []) :=
    ⟨h, rfl, fun _ hrequest => nomatch hrequest⟩
  obtain ⟨hcode, -, hflag⟩ := toCode_twins hcovers hstart
  have hform := (ofExpr_twins hcovers hstart).1
  -- The log is the only difference between the sheets here and those of the two runs.
  have htoCode := expr.toCode_alike noted_compilesAlike (sheet, []) sheet rfl
  have htoCode' := expr.toCode_alike noted_compilesAlike (sheet', []) sheet' rfl
  have hcompile := Compiled.ofExpr_alike noted_compilesAlike expr (sheet, []) sheet rfl
  have hcompile' := Compiled.ofExpr_alike noted_compilesAlike expr (sheet', []) sheet' rfl
  refine ⟨fun strategy hsize => ?_, ?_, ?_, ?_⟩
  · obtain ⟨hsame, hwithin⟩ := follow_congr h hsize
    exact ⟨hsame, hwithin, fun name hname change =>
      (follow_congr (change.agree hname h.result bindings) hsize).1.symm⟩
  · rw [← htoCode.1, ← htoCode'.1, hcode]
  · rw [← htoCode.2, ← htoCode'.2, hflag]
  · exact hcompile.1.symm.trans (hform.trans hcompile'.1)

/-- A binding in place of a variable, and another variable beside it. -/
theorem references_suffice_binding :
    let expr : Expr := .call "sum" [.variable "x"]
    let two : Value := .number (.ofNat 2)
    let sheet := Sheet.standard.setVariable "x" two
    let sheet' := Sheet.standard.setVariable "y" two
    sheet.follow .compiled .empty expr = sheet'.follow .compiled (Dictionary.empty.insert "x" two) expr ∧
      (sheet.removeVariable "y").follow .flattened .empty expr = sheet.follow .flattened .empty expr := by
  intro expr two sheet sheet'
  have hagree : (References.ofExpr expr).Agree .empty (Dictionary.empty.insert "x" two) sheet sheet' := by
    refine ⟨fun name hname => ?_, fun name hname => rfl, fun name hname f hf => ?_⟩
    · obtain rfl : name = "x" := by
        simpa [expr, Expr.nodes, Expr.nodesAll] using References.mem_variables_ofExpr.1 hname
      rfl
    · obtain rfl : name = "sum" := by
        simpa [expr, Expr.nodes, Expr.nodesAll] using References.mem_functions_ofExpr.1 hname
      obtain rfl := Option.some.inj hf
      exact ⟨_, rfl⟩
  obtain ⟨hstrategies, -⟩ := references_suffice hagree
  refine ⟨(hstrategies .compiled fun _ => by decide).1, ?_⟩
  have hmentions : (References.ofExpr expr).mentions "y" = false := by
    rw [Bool.eq_false_iff, Ne, References.mentions_iff, References.mem_variables_ofExpr,
      References.mem_functions_ofExpr]
    simp [expr, Expr.nodes, Expr.nodesAll]
  exact (hstrategies .flattened fun h => absurd h (by decide)).2.2 "y" hmentions .removeVariable

end Sheet

end Formulary
