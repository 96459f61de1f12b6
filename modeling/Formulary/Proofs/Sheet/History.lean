import Formulary.Proofs.Expr.References
import Formulary.Proofs.Sheet.Alone

/-!
# Compilation and what came before it

A compilation begins a scope of its own, so nothing that a scope holds from earlier calls reaches the code or
the flag. When there is code, the scope has noted the call of each name that the tree refers to as a function
(`emit_noted`), and the flag says whether one of these was an aggregate function.
-/

namespace Formulary

namespace Expr

/-- The node is a call of an aggregate function. -/
def callsAggregate (aggregates : String → Bool) : Expr → Bool
  | call name _ => aggregates name
  | _ => false

theorem any_callsAggregate (aggregates : String → Bool) (expr : Expr) :
    expr.nodes.any (callsAggregate aggregates) = true ↔
      ∃ name ∈ (References.ofExpr expr).functions, aggregates name = true := by
  simp only [List.any_eq_true, References.mem_functions_ofExpr]
  constructor
  · rintro ⟨node, hnode, hcalls⟩
    cases node with
    | call name args => exact ⟨name, ⟨args, hnode⟩, hcalls⟩
    | _ => exact nomatch hcalls
  · rintro ⟨name, ⟨args, hnode⟩, haggregate⟩
    exact ⟨.call name args, hnode, haggregate⟩

end Expr

namespace Sheet

/-! ## What a compilation notes -/

/-- From one sheet to the other, the calls at these nodes have been noted. -/
structure Noted (nodes : List Expr) (sheet sheet' : Sheet) : Prop where
  functions : sheet'.functions = sheet.functions
  pending : sheet'.scope.pending =
    (sheet.scope.pending || nodes.any (Expr.callsAggregate sheet.isAggregate))

section

variable {nodes nodes' : List Expr} {sheet sheet' sheet'' : Sheet}

theorem isAggregate_congr (h : sheet'.functions = sheet.functions) : sheet'.isAggregate = sheet.isAggregate := by
  unfold isAggregate
  rw [h]

theorem Noted.append (h : Noted nodes sheet sheet') (h' : Noted nodes' sheet' sheet'') :
    Noted (nodes ++ nodes') sheet sheet'' where
  functions := h'.functions.trans h.functions
  pending := by
    rw [h'.pending, h.pending, isAggregate_congr h.functions, List.any_append, Bool.or_assoc]

theorem noted_nil (hfunctions : sheet'.functions = sheet.functions)
    (hpending : sheet'.scope.pending = sheet.scope.pending) : Noted [] sheet sheet' where
  functions := hfunctions
  pending := by rw [hpending, List.any_nil, Bool.or_false]

/-- A node that is no call leaves no note. -/
theorem Noted.cons {node : Expr} (h : Noted nodes sheet sheet')
    (hnode : node.callsAggregate sheet.isAggregate = false) : Noted (node :: nodes) sheet sheet' where
  functions := h.functions
  pending := by rw [h.pending, List.any_cons, hnode, Bool.false_or]

theorem noted_openFrame (aggregate : Bool) (sheet : Sheet) :
    Noted [] sheet { sheet with scope := sheet.scope.openFrame aggregate } := by
  refine noted_nil rfl ?_
  cases aggregate <;> rfl

theorem emitArgs_noted {args : List Expr} (frame : Frame)
    (hargs : ∀ arg ∈ args, ∀ {sheet sheet' : Sheet} {code : String},
      (arg.emit (Sheet.context .own)).runIn sheet = (.ok code, sheet') → Noted arg.nodes sheet sheet')
    {codes : List String}
    (h : (Expr.emitArgs (Sheet.context .own) frame args).runIn sheet = (.ok codes, sheet')) :
    Noted (Expr.nodesAll args) sheet sheet' := by
  induction args generalizing sheet codes with
  | nil =>
    obtain rfl : sheet = sheet' := congrArg Prod.snd h
    exact noted_nil rfl rfl
  | cons arg args ih =>
    rw [Expr.emitArgs] at h
    obtain ⟨code, ended, hframed, hrest⟩ := Answer.exists_of_runIn_bind_ok h
    obtain ⟨codes', sheet'', hcodes, hdone⟩ := Answer.exists_of_runIn_bind_ok hrest
    obtain rfl : sheet'' = sheet' := congrArg Prod.snd hdone
    rw [runIn_framed] at hframed
    obtain ⟨hcode, hclosed⟩ := Prod.mk.inj hframed
    have harg := hargs arg List.mem_cons_self (Prod.ext hcode rfl)
    have hended : Noted arg.nodes sheet ended := by
      have hopened := (noted_openFrame frame.aggregate sheet).append harg
      rw [← hclosed]
      exact ⟨hopened.functions, hopened.pending⟩
    exact hended.append (ih (fun arg' harg' => hargs arg' (List.mem_cons_of_mem _ harg')) hcodes)

/-- **Success.** The code of a tree leaves a note of each call in the tree. -/
theorem emit_noted (expr : Expr) {code : String}
    (h : (expr.emit (Sheet.context .own)).runIn sheet = (.ok code, sheet')) :
    Noted expr.nodes sheet sheet' := by
  induction expr using Expr.induct generalizing sheet sheet' code with
  | boolean | number | text | «variable» =>
    obtain rfl : sheet = sheet' := congrArg Prod.snd h
    exact (noted_nil rfl rfl).cons rfl
  | call name args ih =>
    rw [Expr.emit, Answer.runIn_bind_ok (Answer.runIn_lift _ sheet)] at h
    obtain ⟨codes, between, hcodes, hcode⟩ := Answer.exists_of_runIn_bind_ok h
    have hargs : Noted (Expr.nodesAll args) sheet between := emitArgs_noted _ (fun arg harg => ih arg harg) hcodes
    rw [Answer.runIn_bind_ok (Answer.runIn_lift _ between)] at hcode
    obtain rfl : { between with scope := between.scope.noteCall (between.isAggregate name) } = sheet' :=
      congrArg Prod.snd hcode
    -- the call leaves its note after those that its arguments have left
    refine ⟨hargs.functions, ?_⟩
    rw [Scope.noteCall, hargs.pending, isAggregate_congr hargs.functions, Expr.nodes, List.any_cons,
      Bool.or_assoc, Bool.or_comm (List.any _ _)]
    rfl
  | unary symbol operand ih =>
    rw [Expr.emit] at h
    cases hop : UnaryOperator.ofSymbol? symbol with
    | none =>
      rw [hop] at h
      cases congrArg Prod.fst h
    | some op =>
      rw [hop] at h
      obtain ⟨code, between, hcode, hdone⟩ := Answer.exists_of_runIn_bind_ok h
      obtain rfl : between = sheet' := congrArg Prod.snd hdone
      exact (ih hcode).cons rfl
  | binary symbol left right ihl ihr =>
    rw [Expr.emit] at h
    cases hop : BinaryOperator.ofSymbol? symbol with
    | none =>
      rw [hop] at h
      cases congrArg Prod.fst h
    | some op =>
      rw [hop] at h
      obtain ⟨leftCode, between, hleft, hrest⟩ := Answer.exists_of_runIn_bind_ok h
      obtain ⟨rightCode, after, hright, hdone⟩ := Answer.exists_of_runIn_bind_ok hrest
      obtain rfl : after = sheet' := congrArg Prod.snd hdone
      exact ((ihl hleft).append (ihr hright)).cons rfl
  | conditional condition whenTrue whenFalse ihc iht ihf =>
    rw [Expr.emit] at h
    obtain ⟨conditionCode, between, hcondition, hrest⟩ := Answer.exists_of_runIn_bind_ok h
    obtain ⟨trueCode, between', htrue, hrest'⟩ := Answer.exists_of_runIn_bind_ok hrest
    obtain ⟨falseCode, after, hfalse, hdone⟩ := Answer.exists_of_runIn_bind_ok hrest'
    obtain rfl : after = sheet' := congrArg Prod.snd hdone
    exact ((ihc hcondition).append ((iht htrue).append (ihf hfalse))).cons rfl

/-- Once there is code, an aggregate call is pending if the tree refers to an aggregate function. -/
theorem pending_emission {expr : Expr} {code : String} (h : sheet.emission expr = (.ok code, sheet')) :
    sheet'.scope.pending = true ↔
      ∃ name ∈ (References.ofExpr expr).functions, sheet.isAggregate name = true := by
  have hemit : (expr.emit (Sheet.context .own)).runIn { sheet with scope := sheet.scope.begin } =
      (.ok code, sheet') := by
    unfold emission at h
    split at h
    · exact nomatch congrArg Prod.fst h
    · exact h
  rw [(emit_noted expr hemit).pending]
  exact expr.any_callsAggregate sheet.isAggregate

end

/-- **Compilation.** Whatever the scope of a sheet has been through, a compilation gives the code or the error
that it gives in a new sheet with the same functions, and leaves the same flag and no open frames. If there is
code, the flag says whether a function that the tree refers to is an aggregate one, and so does the flag of the
compiled form. -/
theorem compilation_without_history (sheet : Sheet) (expr : Expr) :
    let ctx := Sheet.context .own
    let ran := (expr.toCode ctx).runIn sheet
    let anew := (expr.toCode ctx).runIn (.ofFunctions sheet.functions)
    let aggregate := ∃ name ∈ (References.ofExpr expr).functions, sheet.isAggregate name = true
    ran.1 = anew.1 ∧ ran.2.scope.hasAggregates = anew.2.scope.hasAggregates ∧
      ran.2.scope.frames = [] ∧ anew.2.scope.frames = [] ∧
      (∀ code, ran.1 = .ok code → (ran.2.scope.hasAggregates = true ↔ aggregate)) ∧
      sheet.compile expr = (Sheet.ofFunctions sheet.functions).compile expr ∧
      ∀ form, sheet.compile expr = .ok form → (form.hasAggregates = true ↔ aggregate) := by
  intro ctx ran anew aggregate
  have hfunctions : sheet.isAggregate = (Sheet.ofFunctions sheet.functions).isAggregate := rfl
  obtain ⟨hcode, hpending⟩ := emission_congr hfunctions expr
  refine ⟨hcode, hpending, rfl, rfl, fun code hran => ?_, compile_congr hfunctions expr, fun form hform => ?_⟩
  · have hemission : sheet.emission expr = (.ok code, (sheet.emission expr).2) := Prod.ext hran rfl
    have hflag := pending_emission hemission
    exact hflag
  · cases hemission : (sheet.emission expr).1 with
    | ok code =>
      rw [compile_eq_of_ok (Prod.ext hemission rfl)] at hform
      obtain ⟨script, -, rfl⟩ : ∃ script, Script.ofCode code = .ok script ∧
          ⟨code, script, (sheet.emission expr).2.scope.pending⟩ = form := by
        cases hscript : Script.ofCode code with
        | ok script => rw [hscript] at hform; exact ⟨script, rfl, Except.ok.inj hform⟩
        | error error => rw [hscript] at hform; exact nomatch hform
      exact pending_emission (Prod.ext hemission rfl)
    | error error =>
      rw [compile_eq_of_error (Prod.ext hemission rfl)] at hform
      exact nomatch hform

end Sheet

end Formulary
