import Formulary.Proofs.Compiled.Places
import Formulary.Proofs.Compiled.Refinement

/-!
# Aggregate scopes

A sheet keeps open frames and a counter while code is generated. `During` says what they are at a node: the
indices of the open frames are those around the node, and the counter has come to the arguments entered before
it. This is what every request keeps (`During.beginFrame` and those after it), so each node has the code and
the requests of its scope (`emit_scoped`), and the whole tree has those of `Expr.scopeAt`
(`aggregate_scopes`).
-/

namespace Formulary

open Place

/-- The code of arguments is that of emissions with their scripts. -/
theorem exists_emissions {args : List Expr} {scope : Place → List Nat}
    (h : ∀ arg ∈ args, ∀ i, Emitted arg (arg.scopedCode fun place => scope (i :: place))
      (arg.scopedScript fun place => scope (i :: place))) (i : Nat) :
    ∃ emissions : List Emission, emissions.map Emission.expr = args ∧
      emissions.map Emission.code = Expr.scopedCodes scope i args ∧
      emissions.map Emission.script = Expr.scopedScripts scope i args ∧
      ∀ arg ∈ emissions, Emitted arg.expr arg.code arg.script := by
  induction args generalizing i with
  | nil => exact ⟨[], rfl, rfl, rfl, fun _ harg => absurd harg List.not_mem_nil⟩
  | cons arg args ih =>
    obtain ⟨emissions, hexprs, hcodes, hscripts, hall⟩ :=
      ih (fun arg' harg => h arg' (List.mem_cons_of_mem _ harg)) (i + 1)
    refine ⟨⟨arg, arg.scopedCode fun place => scope (i :: place),
      arg.scopedScript fun place => scope (i :: place)⟩ :: emissions, ?_, ?_, ?_, ?_⟩
    · rw [List.map_cons, hexprs]
    · rw [List.map_cons, hcodes, Expr.scopedCodes]
    · rw [List.map_cons, hscripts, Expr.scopedScripts]
    · intro emission hemission
      rcases List.mem_cons.1 hemission with rfl | hemission
      · exact h arg List.mem_cons_self i
      · exact hall emission hemission

/-- The code for given scopes means the script for these scopes. -/
theorem emitted_scoped {expr : Expr} (hrecognized : expr.Recognized) {scope : Place → List Nat}
    (hscope : ∀ place, ∀ i ∈ scope place, i < 2 ^ 53) :
    Emitted expr (expr.scopedCode scope) (expr.scopedScript scope) := by
  induction expr using Expr.induct generalizing scope with
  | boolean b => exact .boolean b
  | number n => exact .number n
  | text s => exact .text s
  | «variable» name =>
    have hlt : ∀ i ∈ scope [], i < 2 ^ 64 := by
      intro i hi
      have := hscope [] i hi
      omega
    have hemitted := Emitted.variable name hlt
    rwa [Script.Spelled.map_readIndex (hscope [])] at hemitted
  | call name args ih =>
    have hargs := Expr.recognizedAll_iff.1 hrecognized
    obtain ⟨emissions, rfl, hcodes, hscripts, hall⟩ := exists_emissions
      (fun arg harg i => ih arg harg (hargs arg harg) fun place => hscope (i :: place)) 0
    have hcall := Emitted.call name hall
    rwa [hcodes, hscripts] at hcall
  | unary symbol operand ih =>
    obtain ⟨hknown, hoperand⟩ := hrecognized
    obtain ⟨op, hop⟩ := Option.isSome_iff_exists.1 hknown
    simp only [Expr.scopedCode, Expr.scopedScript, hop]
    exact .unary hop (ih hoperand fun place => hscope (0 :: place))
  | binary symbol left right ihl ihr =>
    obtain ⟨hknown, hleft, hright⟩ := hrecognized
    obtain ⟨op, hop⟩ := Option.isSome_iff_exists.1 hknown
    simp only [Expr.scopedCode, Expr.scopedScript, hop]
    exact .binary hop (ihl hleft fun place => hscope (0 :: place))
      (ihr hright fun place => hscope (1 :: place))
  | conditional condition whenTrue whenFalse ihc iht ihf =>
    obtain ⟨hcondition, htrue, hfalse⟩ := hrecognized
    exact .conditional (ihc hcondition fun place => hscope (0 :: place))
      (iht htrue fun place => hscope (1 :: place)) (ihf hfalse fun place => hscope (2 :: place))

section Run

variable {m : Type → Type} [Monad m] (ctx : Context m) (bindings : Bindings)

theorem runAll_scopedScripts {args : List Expr} {scope : Place → List Nat}
    (h : ∀ arg ∈ args, ∀ i, (arg.scopedScript fun place => scope (i :: place)).run ctx bindings =
      arg.walkScoped ctx bindings fun place => scope (i :: place)) (i : Nat) :
    Script.runAll ctx bindings (Expr.scopedScripts scope i args) =
      Expr.walkScopedAll ctx bindings scope i args := by
  induction args generalizing i with
  | nil => rfl
  | cons arg args ih =>
    rw [Expr.scopedScripts, Script.runAll, Expr.walkScopedAll, h arg List.mem_cons_self,
      ih fun arg' harg => h arg' (List.mem_cons_of_mem _ harg)]

/-- The script for given scopes asks for each variable in its scope. -/
theorem run_scopedScript {expr : Expr} (hrecognized : expr.Recognized) (scope : Place → List Nat) :
    (expr.scopedScript scope).run ctx bindings = expr.walkScoped ctx bindings scope := by
  induction expr using Expr.induct generalizing scope with
  | boolean | number | text | «variable» => rfl
  | call name args ih =>
    have hargs := Expr.recognizedAll_iff.1 hrecognized
    rw [Expr.scopedScript, Script.run, Expr.walkScoped,
      runAll_scopedScripts ctx bindings fun arg harg i => ih arg harg (hargs arg harg) _]
  | unary symbol operand ih =>
    obtain ⟨hknown, hoperand⟩ := hrecognized
    obtain ⟨op, hop⟩ := Option.isSome_iff_exists.1 hknown
    simp only [Expr.scopedScript, Expr.walkScoped, hop, Script.run, ih hoperand]
  | binary symbol left right ihl ihr =>
    obtain ⟨hknown, hleft, hright⟩ := hrecognized
    obtain ⟨op, hop⟩ := Option.isSome_iff_exists.1 hknown
    simp only [Expr.scopedScript, Expr.walkScoped, hop, Emitted.run_script, ihl hleft, ihr hright]
  | conditional condition whenTrue whenFalse ihc iht ihf =>
    obtain ⟨hcondition, htrue, hfalse⟩ := hrecognized
    rw [Expr.scopedScript, Script.run, Expr.walkScoped, ihc hcondition, iht htrue, ihf hfalse]

end Run

theorem Expr.length_scopedCodes (scope : Place → List Nat) (i : Nat) (args : List Expr) :
    (scopedCodes scope i args).length = args.length := by
  induction args generalizing i with
  | nil => rfl
  | cons arg args ih => rw [scopedCodes, List.length_cons, ih, List.length_cons]

/-! ## Generating code in a sheet -/

variable {σ : Type}

/-- The sheet is reached through the access, and of each request that is recorded `noted` is added to a log,
which is no part of the sheet. -/
structure Recorded (access : SheetAccess (StateM σ)) (record : Request → StateM σ Unit)
    (sheetOf : σ → Sheet) (logOf : σ → List Request) (noted : Request → List Request) : Prop where
  reaches : access.Reaches sheetOf
  log_update : ∀ change state, logOf ((access.update change).run state).2 = logOf state
  sheet_record : ∀ request state, sheetOf ((record request).run state).2 = sheetOf state
  log_record : ∀ request state, logOf ((record request).run state).2 = logOf state ++ noted request

/-- While code is generated: the functions of the sheet, its open frames and its counter, and what it has been
asked so far. -/
structure During (sheetOf : σ → Sheet) (logOf : σ → List Request) (aggregates : String → Bool)
    (frames : List (Option Nat)) (n : Nat) (log : List Request) (state : σ) : Prop where
  isAggregate : (sheetOf state).isAggregate = aggregates
  frames_eq : (sheetOf state).scope.frames = frames
  nextIndex : (sheetOf state).scope.nextIndex = n
  log_eq : logOf state = log

section Sheet

variable {access : SheetAccess (StateM σ)} {record : Request → StateM σ Unit} {sheetOf : σ → Sheet}
  {logOf : σ → List Request} {noted : Request → List Request}
  (hrecorded : Recorded access record sheetOf logOf noted)
  {aggregates : String → Bool} {frames : List (Option Nat)} {n : Nat} {log : List Request} {state : σ}

/-- A frame of the scope, with its index if the call is an aggregate one. -/
def newFrame (aggregate : Bool) (n : Nat) : Option Nat := if aggregate then some n else none

include hrecorded

namespace During

variable (h : During sheetOf logOf aggregates frames n log state)

include h

/-- A recorded change of the scope. -/
theorem change (request : Request) (f : Scope → Scope) {frames' : List (Option Nat)} {n' : Nat}
    (hframes : (f (sheetOf state).scope).frames = frames')
    (hnext : (f (sheetOf state).scope).nextIndex = n') :
    During sheetOf logOf aggregates frames' n' (log ++ noted request)
      ((do record request; access.updateScope f : StateM σ Unit).run state).2 := by
  have hsheet : sheetOf ((access.update fun sheet => { sheet with scope := f sheet.scope }).run
      ((record request).run state).2).2 = { sheetOf state with scope := f (sheetOf state).scope } := by
    rw [hrecorded.reaches.update, hrecorded.sheet_record]
  refine ⟨?_, ?_, ?_, ?_⟩
  · exact (congrArg Sheet.isAggregate hsheet).trans h.isAggregate
  · exact (congrArg (·.scope.frames) hsheet).trans hframes
  · exact (congrArg (·.scope.nextIndex) hsheet).trans hnext
  · show logOf ((access.update _).run ((record request).run state).2).2 = _
    rw [hrecorded.log_update, hrecorded.log_record, h.log_eq]

theorem run_isAggregate (name : String) :
    (((Sheet.context access).traced record).isAggregate name).run state = (aggregates name, state) := by
  show ((access.read >>= fun sheet => pure (sheet.isAggregate name) : StateM σ Bool)).run state = _
  rw [hrecorded.reaches.read_bind, h.isAggregate]
  rfl

theorem run_openIndices :
    (((Sheet.context access).traced record).openIndices).run state =
      ((frames.filterMap id).reverse, state) := by
  show ((access.read >>= fun sheet => pure sheet.scope.indices : StateM σ (List Nat))).run state = _
  rw [hrecorded.reaches.read_bind, Scope.indices, h.frames_eq]
  rfl

theorem beginFrame (frame : Frame) :
    During sheetOf logOf aggregates (newFrame frame.aggregate n :: frames) (n + own frame.aggregate)
      (log ++ noted (.beginFrame frame.name frame.aggregate))
      ((((Sheet.context access).traced record).beginFrame frame).run state).2 := by
  refine h.change hrecorded _ (·.openFrame frame.aggregate) ?_ ?_
  · rw [← h.frames_eq, ← h.nextIndex]
    cases frame.aggregate <;> rfl
  · rw [← h.nextIndex]
    cases frame.aggregate <;> rfl

theorem endFrame (name : String) :
    During sheetOf logOf aggregates frames.tail n (log ++ noted (.endFrame name))
      ((((Sheet.context access).traced record).endFrame name).run state).2 :=
  h.change hrecorded _ Scope.closeFrame (congrArg List.tail h.frames_eq) h.nextIndex

theorem callCode (name : String) (codes : List String) (indices : List Nat) : ∃ state',
    (((Sheet.context access).traced record).callCode name codes indices).runIn state =
      (.ok (Script.callCode name codes), state') ∧
    During sheetOf logOf aggregates frames n (log ++ noted (.callCode name codes.length indices)) state' := by
  refine ⟨_, ?_, h.change hrecorded (.callCode name codes.length indices) (·.noteCall (aggregates name))
    h.frames_eq h.nextIndex⟩
  show (ExceptT.lift (record (.callCode name codes.length indices)) >>= fun _ =>
    (Sheet.context access).callCode name codes indices : Answer (StateM σ) String).runIn state = _
  rw [Answer.runIn_bind_ok (Answer.runIn_lift _ state)]
  simp only [Sheet.context]
  rw [Answer.runIn_lift, hrecorded.reaches.read_bind, hrecorded.sheet_record, h.isAggregate]
  rfl

end During

/-- At a node whose scope is that of the open frames and of the arguments counted from now on, the code and the
requests are those of the scope, and the frames stay as they are. -/
def EmitsScoped (access : SheetAccess (StateM σ)) (record : Request → StateM σ Unit)
    (sheetOf : σ → Sheet) (logOf : σ → List Request) (noted : Request → List Request)
    (aggregates : String → Bool) (expr : Expr) : Prop :=
  ∀ {frames n log state} (scope : Place → List Nat), During sheetOf logOf aggregates frames n log state →
    (∀ place, scope place =
      (frames.filterMap id).reverse ++ around place n (expr.aggregateArgs aggregates)) →
    ∃ state', (expr.emit ((Sheet.context access).traced record)).runIn state =
        (.ok (expr.scopedCode scope), state') ∧
      During sheetOf logOf aggregates frames (n + (expr.aggregateArgs aggregates).length)
        (log ++ (expr.scopedRequests aggregates scope).flatMap noted) state'

theorem emitArgs_scoped {args : List Expr}
    (hargs : ∀ arg ∈ args, EmitsScoped access record sheetOf logOf noted aggregates arg)
    (frame : Frame) (i : Nat) {scope : Place → List Nat} (h : During sheetOf logOf aggregates frames n log state)
    (hscope : ∀ j place, i ≤ j → scope (j :: place) = (frames.filterMap id).reverse ++
      around (j :: place) n (below frame.aggregate i (Expr.aggregateArgsOf aggregates args))) :
    ∃ state', (Expr.emitArgs ((Sheet.context access).traced record) frame args).runIn state =
        (.ok (Expr.scopedCodes scope i args), state') ∧
      During sheetOf logOf aggregates frames
        (n + (below frame.aggregate i (Expr.aggregateArgsOf aggregates args)).length)
        (log ++ (Expr.scopedRequestsOf aggregates scope frame i args).flatMap noted) state' := by
  induction args generalizing i n log state with
  | nil => exact ⟨state, rfl, by simpa [Expr.aggregateArgsOf, below, Expr.scopedRequestsOf] using h⟩
  | cons arg args ih =>
    rw [Expr.aggregateArgsOf] at hscope ⊢
    have hopened := h.beginFrame hrecorded frame
    obtain ⟨state₁, hcode, hinside⟩ := hargs arg List.mem_cons_self (fun place => scope (i :: place)) hopened
      fun place => by
        rw [hscope i place (Nat.le_refl i), around_below_head]
        cases frame.aggregate <;> simp [newFrame]
    have hclosed := hinside.endFrame hrecorded frame.name
    -- the later arguments count on from the index of this one and those handed out inside it
    have hlater : ∀ j place, i + 1 ≤ j → scope (j :: place) = (frames.filterMap id).reverse ++
        around (j :: place) (n + own frame.aggregate + (arg.aggregateArgs aggregates).length)
          (below frame.aggregate (i + 1) (Expr.aggregateArgsOf aggregates args)) := by
      intro j place hj
      rw [hscope j place (Nat.le_of_succ_le hj), around_below_tail _ hj]
    obtain ⟨state₂, hcodes, hafter⟩ := ih (fun arg' harg => hargs arg' (List.mem_cons_of_mem _ harg))
      (i + 1) hclosed hlater
    have hframed := @runIn_framed σ ((Sheet.context access).traced record) frame arg state
    rw [hcode] at hframed
    refine ⟨state₂, ?_, ?_⟩
    · rw [Expr.emitArgs, Answer.runIn_bind_ok hframed, Answer.runIn_bind_ok hcodes, Expr.scopedCodes]
      rfl
    · rw [length_below_cons, Expr.scopedRequestsOf]
      simpa [Nat.add_assoc] using hafter

theorem emitsScoped_call (name : String) {args : List Expr}
    (hargs : ∀ arg ∈ args, EmitsScoped access record sheetOf logOf noted aggregates arg) :
    EmitsScoped access record sheetOf logOf noted aggregates (.call name args) := by
  intro frames n log state scope h hscope
  -- the frames of the arguments are closed again when the call asks which indices are open
  have hindices : (frames.filterMap id).reverse = scope [] := by
    rw [hscope, Expr.aggregateArgs, around_nil_below, List.append_nil]
  obtain ⟨state₁, hcodes, hinside⟩ := emitArgs_scoped hrecorded hargs ⟨name, aggregates name⟩ 0 h
    fun j place _ => hscope (j :: place)
  obtain ⟨state₂, hcode, hafter⟩ := hinside.callCode hrecorded name (Expr.scopedCodes scope 0 args) (scope [])
  refine ⟨state₂, ?_, ?_⟩
  · rw [Expr.emit, Answer.runIn_bind_ok (Answer.runIn_lift _ state), h.run_isAggregate hrecorded,
      Answer.runIn_bind_ok hcodes, Answer.runIn_bind_ok (Answer.runIn_lift _ state₁),
      hinside.run_openIndices hrecorded, hindices, hcode]
    rfl
  · rw [Expr.length_scopedCodes] at hafter
    rw [Expr.aggregateArgs, Expr.scopedRequests]
    simpa using hafter

omit hrecorded in
theorem emitsScoped_unary {symbol : String} {operand : Expr} (hknown : (UnaryOperator.ofSymbol? symbol).isSome)
    (hoperand : EmitsScoped access record sheetOf logOf noted aggregates operand) :
    EmitsScoped access record sheetOf logOf noted aggregates (.unary symbol operand) := by
  intro frames n log state scope h hscope
  obtain ⟨op, hop⟩ := Option.isSome_iff_exists.1 hknown
  obtain ⟨state', hcode, hafter⟩ := hoperand (fun place => scope (0 :: place)) h fun place => by
    rw [hscope, Expr.aggregateArgs, around_below_head]
    rfl
  refine ⟨state', ?_, ?_⟩
  · simp only [Expr.emit, Expr.scopedCode, hop]
    rw [Answer.runIn_bind_ok hcode]
    rfl
  · rw [Expr.aggregateArgs, length_below_cons, Expr.scopedRequests]
    simpa [own, below] using hafter

omit hrecorded in
theorem emitsScoped_binary {symbol : String} {left right : Expr}
    (hknown : (BinaryOperator.ofSymbol? symbol).isSome)
    (hleft : EmitsScoped access record sheetOf logOf noted aggregates left)
    (hright : EmitsScoped access record sheetOf logOf noted aggregates right) :
    EmitsScoped access record sheetOf logOf noted aggregates (.binary symbol left right) := by
  intro frames n log state scope h hscope
  obtain ⟨op, hop⟩ := Option.isSome_iff_exists.1 hknown
  obtain ⟨state₁, hcode, hmiddle⟩ := hleft (fun place => scope (0 :: place)) h fun place => by
    rw [hscope, Expr.aggregateArgs, around_below_head]
    rfl
  obtain ⟨state₂, hcode', hafter⟩ := hright (fun place => scope (1 :: place)) hmiddle fun place => by
    rw [hscope, Expr.aggregateArgs, around_below_tail _ (by decide), around_below_head]
    rfl
  refine ⟨state₂, ?_, ?_⟩
  · simp only [Expr.emit, Expr.scopedCode, hop]
    rw [Answer.runIn_bind_ok hcode, Answer.runIn_bind_ok hcode']
    rfl
  · rw [Expr.aggregateArgs, length_below_cons, length_below_cons, Expr.scopedRequests]
    simpa [own, below, Nat.add_assoc] using hafter

omit hrecorded in
theorem emitsScoped_conditional {condition whenTrue whenFalse : Expr}
    (hcondition : EmitsScoped access record sheetOf logOf noted aggregates condition)
    (htrue : EmitsScoped access record sheetOf logOf noted aggregates whenTrue)
    (hfalse : EmitsScoped access record sheetOf logOf noted aggregates whenFalse) :
    EmitsScoped access record sheetOf logOf noted aggregates (.conditional condition whenTrue whenFalse) := by
  intro frames n log state scope h hscope
  obtain ⟨state₁, hcode, hmiddle⟩ := hcondition (fun place => scope (0 :: place)) h fun place => by
    rw [hscope, Expr.aggregateArgs, around_below_head]
    rfl
  obtain ⟨state₂, hcode', hmiddle'⟩ := htrue (fun place => scope (1 :: place)) hmiddle fun place => by
    rw [hscope, Expr.aggregateArgs, around_below_tail _ (by decide), around_below_head]
    rfl
  obtain ⟨state₃, hcode'', hafter⟩ := hfalse (fun place => scope (2 :: place)) hmiddle' fun place => by
    rw [hscope, Expr.aggregateArgs, around_below_tail _ (by decide), around_below_tail _ (by decide),
      around_below_head]
    rfl
  refine ⟨state₃, ?_, ?_⟩
  · rw [Expr.emit, Answer.runIn_bind_ok hcode, Answer.runIn_bind_ok hcode', Answer.runIn_bind_ok hcode'']
    rfl
  · rw [Expr.aggregateArgs, length_below_cons, length_below_cons, length_below_cons, Expr.scopedRequests]
    simpa [own, below, Nat.add_assoc] using hafter

theorem emit_scoped {expr : Expr} (hrecognized : expr.Recognized) :
    EmitsScoped access record sheetOf logOf noted aggregates expr := by
  induction expr using Expr.induct with
  | boolean | number | text =>
    intro frames n log state scope h _
    exact ⟨state, rfl, by simpa [Expr.aggregateArgs, Expr.scopedRequests] using h⟩
  | «variable» name =>
    intro frames n log state scope h hscope
    have hindices : (frames.filterMap id).reverse = scope [] := by
      rw [hscope, Expr.aggregateArgs, around, List.append_nil]
    refine ⟨state, ?_, by simpa [Expr.aggregateArgs, Expr.scopedRequests] using h⟩
    rw [Expr.emit, Answer.runIn_bind_ok (Answer.runIn_lift _ state), h.run_openIndices hrecorded, hindices]
    rfl
  | call name args ih =>
    have hargs := Expr.recognizedAll_iff.1 hrecognized
    apply emitsScoped_call hrecorded name
    exact fun arg harg => ih arg harg (hargs arg harg)
  | unary symbol operand ih => exact emitsScoped_unary hrecognized.1 (ih hrecognized.2)
  | binary symbol left right ihl ihr =>
    obtain ⟨hknown, hleft, hright⟩ := hrecognized
    exact emitsScoped_binary hknown (ihl hleft) (ihr hright)
  | conditional condition whenTrue whenFalse ihc iht ihf =>
    obtain ⟨hcondition, htrue, hfalse⟩ := hrecognized
    exact emitsScoped_conditional (ihc hcondition) (iht htrue) (ihf hfalse)

/-- A tree within the depth limit has the code of its scopes, and the sheet is asked for nothing else. -/
theorem toCode_scoped {expr : Expr} (hrecognized : expr.Recognized) (hdepth : expr.depth ≤ Expr.maxDepth)
    (hstate : (sheetOf state).isAggregate = aggregates) :
    ∃ state', (expr.toCode ((Sheet.context access).traced record)).runIn state =
        (.ok (expr.scopedCode (expr.scopeAt aggregates)), state') ∧
      logOf state' = logOf state ++ (.beginCompile ::
        (expr.scopedRequests aggregates (expr.scopeAt aggregates) ++
          [.endCompile, .settleCompile])).flatMap noted := by
  have hstart : During sheetOf logOf aggregates (sheetOf state).scope.frames (sheetOf state).scope.nextIndex
    (logOf state) state := ⟨hstate, rfl, rfl, rfl⟩
  have hbegun : During sheetOf logOf aggregates [] 0 _ _ :=
    hstart.change hrecorded .beginCompile Scope.begin rfl rfl
  obtain ⟨state₁, hcode, hemitted⟩ := emit_scoped hrecorded hrecognized (expr.scopeAt aggregates) hbegun
    fun place => rfl
  have hended : During sheetOf logOf aggregates [] _ _ _ :=
    hemitted.change hrecorded .endCompile Scope.closeAll rfl hemitted.nextIndex
  have hsettled := hended.change hrecorded .settleCompile Scope.complete hended.frames_eq hended.nextIndex
  have hlevels : ¬ Expr.maxDepth < expr.levels := by
    rw [Expr.levels_eq_depth]
    omega
  have hcompiled := @runIn_compilation σ ((Sheet.context access).traced record) expr state
  rw [if_neg hlevels] at hcompiled
  simp only [show (expr.emit ((Sheet.context access).traced record)).runIn
    (((Sheet.context access).traced record).beginCompile.run state).2 = _ from hcode] at hcompiled
  refine ⟨_, hcompiled, hsettled.log_eq.trans ?_⟩
  simp

/-- **Aggregate scopes.** Take the arguments of aggregate calls in the order in which a walk enters them. The
scope of a place are the numbers of those it lies in, from the outside in. A tree within the depth limit
compiles in a sheet to the code where every variable has the scope of its place; every call is compiled in
the scope of its own place; and the compiled form runs, in any context, as a walk that looks each variable up
in the scope of its place. -/
theorem aggregate_scopes {expr : Expr} (hrecognized : expr.Recognized)
    (hdepth : expr.depth ≤ Expr.maxDepth) (state : σ)
    (hcount : (expr.aggregateArgs (sheetOf state).isAggregate).length < 2 ^ 53) :
    let aggregates := (sheetOf state).isAggregate
    let args := expr.aggregateArgs aggregates
    let scope := expr.scopeAt aggregates
    (∀ place, (scope place).Pairwise (· < ·) ∧
      (∀ i, i ∈ scope place ↔ ∃ arg, args[i]? = some arg ∧ arg <+: place) ∧
      ∀ (i j : Nat) (arg arg' : Place), i < j → args[i]? = some arg → args[j]? = some arg' →
        arg <+: place → arg' <+: place → arg <+: arg') ∧
    ∃ form state', (Compiled.ofExpr ((Sheet.context access).traced record) expr).runIn state =
        (.ok form, state') ∧
      form.code = expr.scopedCode scope ∧
      logOf state' = logOf state ++ (.beginCompile :: (expr.scopedRequests aggregates scope ++
        [.endCompile, .settleCompile])).flatMap noted ∧
      ∀ {m : Type → Type} [Monad m] (other : Context m) (bindings : Bindings),
        form.call other bindings = expr.walkScoped other bindings scope := by
  intro aggregates args scope
  refine ⟨fun place => ⟨around_pairwise place 0 args, fun i => Expr.mem_scopeAt,
    fun i j arg arg' hij harg harg' => Expr.aggregateArgs_nested aggregates hij harg harg'⟩, ?_⟩
  have hsmall : ∀ place, ∀ i ∈ scope place, i < 2 ^ 53 := by
    intro place i hi
    obtain ⟨arg, harg, -⟩ := Expr.mem_scopeAt.1 hi
    exact Nat.lt_trans (List.getElem?_eq_some_iff.1 harg).1 hcount
  obtain ⟨state', hcode, hlog⟩ := toCode_scoped hrecorded hrecognized hdepth (rfl : _ = aggregates)
  have hscript := (emitted_scoped hrecognized hsmall).ofCode hdepth
  refine ⟨⟨expr.scopedCode scope, expr.scopedScript scope, (sheetOf state').scope.hasAggregates⟩, state',
    ?_, rfl, hlog, fun other bindings => run_scopedScript other bindings hrecognized scope⟩
  rw [Compiled.ofExpr_of_load rfl, Answer.runIn_bind_ok hcode, hscript, Answer.ofExcept_ok, pure_bind,
    Answer.runIn_bind_ok (Answer.runIn_lift _ state')]
  simp only [Context.traced, Sheet.context, hrecorded.reaches.read_bind]
  rfl

end Sheet

/-- Access to a sheet next to a log. -/
def SheetAccess.besideLog : SheetAccess (StateM (Sheet × List Request)) where
  read := do return (← get).1
  update change := modify fun (sheet, log) => (change sheet, log)
  announce _ := pure ()

theorem Recorded.besideLog : Recorded SheetAccess.besideLog (fun request => modify fun (sheet, log) =>
    (sheet, log ++ [request])) Prod.fst Prod.snd fun request => [request] where
  reaches := ⟨fun _ => rfl, fun _ _ => rfl⟩
  log_update _ _ := rfl
  sheet_record _ _ := rfl
  log_record _ _ := rfl

/-- `y` stands in the second argument of `sum` and in that of `mean`, which are entered after the first of
`sum`. -/
theorem aggregate_scopes_nested :
    let expr : Expr := .call "sum" [.variable "x", .call "abs" [.call "mean" [.variable "y"]]]
    let ctx := (Sheet.context SheetAccess.besideLog).traced fun request => modify fun (sheet, log) =>
      (sheet, log ++ [request])
    ∃ form state, (Compiled.ofExpr ctx expr).runIn (Sheet.standard, []) = (.ok form, state) ∧
      form.code = expr.scopedCode (expr.scopeAt Sheet.standard.isAggregate) ∧
      expr.scopeAt Sheet.standard.isAggregate [1, 0, 0] = [1, 2] ∧
      .callCode "mean" 1 [1] ∈ state.2 := by
  intro expr ctx
  have hcount : (expr.aggregateArgs Sheet.standard.isAggregate).length < 2 ^ 53 := by decide
  have hrecognized : expr.Recognized := by simp [expr, Expr.Recognized, Expr.RecognizedAll]
  obtain ⟨-, form, state, hform, hcode, hlog, -⟩ :=
    aggregate_scopes Recorded.besideLog hrecognized (by decide) (Sheet.standard, []) hcount
  refine ⟨form, state, hform, hcode, by decide, ?_⟩
  rw [hlog]
  decide

end Formulary
