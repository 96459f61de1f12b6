import Formulary.Proofs.Compiled.Emission
import Formulary.Proofs.Observation
import Formulary.Sheet.Basic

/-!
# Compilation succeeds on the trees that can be walked, and preserves them

1. `PlainFragments` is what is asked of a context that trees are compiled in: it gives the usual code for
   variables and calls, and its indices count up from the begin of the compilation.
2. In such a context a tree has code if and only if all its operators are known (`hasCode`); the code is
   one that `Emitted` allows.
3. Such code is read back, so that a tree compiles if and only if it can be walked (`ofExpr_outcome`); the
   compiled form then runs as the tree is walked.
-/

namespace Formulary

variable {σ : Type}

/-! ## Contexts with the usual fragments -/

/-- The usual code, and indices below a bound `n` that grows by one with every frame. -/
structure PlainFragments (ctx : Context (StateM σ)) (Bounded : Nat → σ → Prop) : Prop where
  mono : ∀ {n n' state}, n ≤ n' → Bounded n state → Bounded n' state
  variableCode : ∀ name indices state, (ctx.variableCode name indices).runIn state =
    (.ok (Script.variableCode name indices), state)
  callCode : ∀ name codes indices n state, Bounded n state → ∃ state', Bounded n state' ∧
    (ctx.callCode name codes indices).runIn state = (.ok (Script.callCode name codes), state')
  isAggregate : ∀ name n state, Bounded n state → Bounded n ((ctx.isAggregate name).run state).2
  beginFrame : ∀ frame n state, Bounded n state → Bounded (n + 1) ((ctx.beginFrame frame).run state).2
  endFrame : ∀ name n state, Bounded n state → Bounded n ((ctx.endFrame name).run state).2
  openIndices : ∀ n state, Bounded n state → Bounded n (ctx.openIndices.run state).2 ∧
    ∀ i ∈ (ctx.openIndices.run state).1, i < n
  beginCompile : ∀ state, Bounded 0 (ctx.beginCompile.run state).2
  load : ctx.load = Context.loadScript

/-- What is reached through the access is a part of the state. -/
structure SheetAccess.Reaches (access : SheetAccess (StateM σ)) (sheetOf : σ → Sheet) : Prop where
  read : ∀ state, access.read.run state = (sheetOf state, state)
  update : ∀ change state, sheetOf ((access.update change).run state).2 = change (sheetOf state)

/-- A context that compiles like one without aggregates or like a sheet. -/
inductive Context.CompilesPlainly : Context (StateM σ) → Prop where
  | ofLookup (lookup : (name : String) → Bindings → Answer (StateM σ) Value)
    (lookupScoped : (name : String) → List Nat → Bindings → Answer (StateM σ) Value)
    (call : (name : String) → List Value → Answer (StateM σ) Value) :
    CompilesPlainly { Context.ofLookup lookup call with lookupScoped := lookupScoped }
  | sheet {access : SheetAccess (StateM σ)} {sheetOf : σ → Sheet} (haccess : access.Reaches sheetOf)
    (lookup : (name : String) → Bindings → Answer (StateM σ) Value)
    (lookupScoped : (name : String) → List Nat → Bindings → Answer (StateM σ) Value)
    (call : (name : String) → List Value → Answer (StateM σ) Value) :
    CompilesPlainly
      { Sheet.context access with lookup := lookup, lookupScoped := lookupScoped, call := call }

/-- The open indices of a scope count up and stay below the bound. -/
def Scope.Bounded (n : Nat) (scope : Scope) : Prop :=
  scope.nextIndex ≤ n ∧ ∀ i, some i ∈ scope.frames → i < scope.nextIndex

namespace Scope.Bounded

variable {n : Nat} {scope : Scope} (h : scope.Bounded n)

include h

theorem openFrame (aggregate : Bool) : (scope.openFrame aggregate).Bounded (n + 1) := by
  cases aggregate with
  | false => exact ⟨Nat.le_succ_of_le h.1, fun i hi => h.2 i (by simpa [Scope.openFrame] using hi)⟩
  | true =>
    refine ⟨Nat.succ_le_succ h.1, fun i hi => ?_⟩
    rcases List.mem_cons.1 hi with hi | hi
    · obtain rfl := Option.some.inj hi
      exact Nat.lt_succ_self _
    · exact Nat.lt_succ_of_lt (h.2 i hi)

theorem lt_of_mem_indices {i : Nat} (hi : i ∈ scope.indices) : i < n := by
  have hframes : some i ∈ scope.frames := by simpa [Scope.indices] using hi
  exact Nat.lt_of_lt_of_le (h.2 i hframes) h.1

end Scope.Bounded

theorem SheetAccess.Reaches.read_bind {access : SheetAccess (StateM σ)} {sheetOf : σ → Sheet}
    (h : access.Reaches sheetOf) {α : Type} (next : Sheet → StateM σ α) (state : σ) :
    (access.read >>= next).run state = (next (sheetOf state)).run state := by
  rw [StateT.run_bind, h.read]
  rfl

theorem SheetAccess.Reaches.updateScope {access : SheetAccess (StateM σ)} {sheetOf : σ → Sheet}
    (h : access.Reaches sheetOf) (change : Scope → Scope) (state : σ) :
    (sheetOf ((access.updateScope change).run state).2).scope = change (sheetOf state).scope := by
  rw [SheetAccess.updateScope, h.update]

theorem plainFragments_ofLookup (lookup : (name : String) → Bindings → Answer (StateM σ) Value)
    (lookupScoped : (name : String) → List Nat → Bindings → Answer (StateM σ) Value)
    (call : (name : String) → List Value → Answer (StateM σ) Value) :
    PlainFragments { Context.ofLookup lookup call with lookupScoped := lookupScoped }
      fun _ _ => True where
  mono _ _ := trivial
  variableCode _ _ _ := rfl
  callCode _ _ _ _ state _ := ⟨state, trivial, rfl⟩
  isAggregate _ _ _ _ := trivial
  beginFrame _ _ _ _ := trivial
  endFrame _ _ _ _ := trivial
  openIndices _ _ _ := ⟨trivial, fun _ h => absurd h List.not_mem_nil⟩
  beginCompile _ := trivial
  load := rfl

theorem plainFragments_sheet {access : SheetAccess (StateM σ)} {sheetOf : σ → Sheet}
    (haccess : access.Reaches sheetOf) (lookup : (name : String) → Bindings → Answer (StateM σ) Value)
    (lookupScoped : (name : String) → List Nat → Bindings → Answer (StateM σ) Value)
    (call : (name : String) → List Value → Answer (StateM σ) Value) :
    PlainFragments
      { Sheet.context access with lookup := lookup, lookupScoped := lookupScoped, call := call }
      fun n state => (sheetOf state).scope.Bounded n where
  mono hn h := ⟨Nat.le_trans h.1 hn, h.2⟩
  variableCode _ _ _ := rfl
  callCode name codes indices n state h := by
    refine ⟨((access.updateScope (·.noteCall ((sheetOf state).isAggregate name))).run state).2, ?_, ?_⟩
    · rw [haccess.updateScope]
      exact h
    · simp only [Sheet.context]
      rw [Answer.runIn_lift, haccess.read_bind]
      rfl
  isAggregate name n state h := by
    simp only [Sheet.context]
    rw [haccess.read_bind]
    exact h
  beginFrame frame n state h := by
    simp only [Sheet.context]
    rw [haccess.updateScope]
    exact h.openFrame frame.aggregate
  endFrame name n state h := by
    simp only [Sheet.context]
    rw [haccess.updateScope]
    exact ⟨h.1, fun i hi => h.2 i (List.mem_of_mem_tail hi)⟩
  openIndices n state h := by
    simp only [Sheet.context]
    rw [haccess.read_bind]
    exact ⟨h, fun i hi => h.lt_of_mem_indices hi⟩
  beginCompile state := by
    simp only [Sheet.context]
    rw [haccess.updateScope]
    exact ⟨Nat.le_refl 0, fun i hi => absurd hi List.not_mem_nil⟩
  load := rfl

theorem Context.CompilesPlainly.plainFragments {ctx : Context (StateM σ)} (h : ctx.CompilesPlainly) :
    ∃ Bounded, PlainFragments ctx Bounded := by
  cases h with
  | ofLookup lookup lookupScoped call => exact ⟨_, plainFragments_ofLookup lookup lookupScoped call⟩
  | sheet haccess lookup lookupScoped call =>
    exact ⟨_, plainFragments_sheet haccess lookup lookupScoped call⟩

/-! ## Generated code -/

section Emission

variable {ctx : Context (StateM σ)} {Bounded : Nat → σ → Prop} (hctx : PlainFragments ctx Bounded)

/-- The tree has code and only known operators, or it has neither. -/
def HasCode (ctx : Context (StateM σ)) (Bounded : Nat → σ → Prop) (expr : Expr) : Prop :=
  ∀ n state, Bounded n state → n + expr.size ≤ 2 ^ 64 + 1 →
    (∃ code script state', (expr.emit ctx).runIn state = (.ok code, state') ∧ expr.Recognized ∧
      Emitted expr code script ∧ Bounded (n + expr.size - 1) state') ∨
    ∃ fault state', (expr.emit ctx).runIn state = (.error (.malformed fault), state') ∧
      ¬ expr.Recognized

/-- The code of an argument stands in a frame, which also ends where the code fails. -/
theorem runIn_framed (frame : Frame) (arg : Expr) (state : σ) :
    Answer.runIn (ExceptT.mk do
      ctx.beginFrame frame
      let code ← (arg.emit ctx).run
      ctx.endFrame frame.name
      pure code) state =
    (((arg.emit ctx).runIn ((ctx.beginFrame frame).run state).2).1,
      ((ctx.endFrame frame.name).run
        ((arg.emit ctx).runIn ((ctx.beginFrame frame).run state).2).2).2) := rfl

/-- The context is told of the end of a compilation also where there is no code. -/
theorem runIn_compilation (expr : Expr) (state : σ) :
    (expr.toCode ctx).runIn state =
      let emission := (if Expr.maxDepth < expr.levels then throw .tooDeep else expr.emit ctx :
        Answer (StateM σ) String).runIn (ctx.beginCompile.run state).2
      (emission.1, (ctx.settleCompile.run (ctx.endCompile.run emission.2).2).2) := rfl

include hctx

theorem emitArgs_outcome {args : List Expr} (hargs : ∀ arg ∈ args, HasCode ctx Bounded arg)
    (frame : Frame) (n : Nat) (state : σ) (hstate : Bounded n state)
    (hsize : n + Expr.sizeAll args ≤ 2 ^ 64) :
    (∃ emissions : List Emission, ∃ state', emissions.map Emission.expr = args ∧
      (Expr.emitArgs ctx frame args).runIn state = (.ok (emissions.map Emission.code), state') ∧
      Expr.RecognizedAll args ∧ (∀ arg ∈ emissions, Emitted arg.expr arg.code arg.script) ∧
      Bounded (n + Expr.sizeAll args) state') ∨
    ∃ fault state', (Expr.emitArgs ctx frame args).runIn state = (.error (.malformed fault), state') ∧
      ¬ Expr.RecognizedAll args := by
  induction args generalizing n state with
  | nil => exact .inl ⟨[], state, rfl, rfl, trivial, fun _ h => absurd h List.not_mem_nil, hstate⟩
  | cons arg args ih =>
    rw [Expr.sizeAll] at hsize
    have hpos := arg.size_pos
    have hframed := @runIn_framed σ ctx frame arg state
    rw [Expr.emitArgs]
    -- the frame may hand out an index, so the argument counts from the next one
    rcases hargs arg List.mem_cons_self (n + 1) _ (hctx.beginFrame frame n state hstate) (by omega)
      with ⟨code, script, state', hcode, hrecognized, hemitted, hstate'⟩ | ⟨fault, state', hcode, hunknown⟩
    · rw [hcode] at hframed
      rw [Answer.runIn_bind_ok hframed]
      have hended := hctx.endFrame frame.name _ _ hstate'
      rw [show n + 1 + arg.size - 1 = n + arg.size by omega] at hended
      rcases ih (fun arg' harg => hargs arg' (List.mem_cons_of_mem _ harg)) (n + arg.size) _ hended
          (by omega) with ⟨emissions, state'', rfl, hcodes, hall, hemissions, hstate''⟩ |
          ⟨fault, state'', hcodes, hunknown⟩
      · refine .inl ⟨⟨arg, code, script⟩ :: emissions, state'', rfl, ?_, ⟨hrecognized, hall⟩, ?_, ?_⟩
        · rw [Answer.runIn_bind_ok hcodes]
          rfl
        · intro emission hemission
          rcases List.mem_cons.1 hemission with rfl | hemission
          · exact hemitted
          · exact hemissions emission hemission
        · rwa [Expr.sizeAll, ← Nat.add_assoc]
      · refine .inr ⟨fault, state'', ?_, fun h => hunknown h.2⟩
        rw [Answer.runIn_bind_error hcodes]
    · rw [hcode] at hframed
      refine .inr ⟨fault, _, Answer.runIn_bind_error hframed, fun h => hunknown h.1⟩

theorem hasCode_variable (name : String) : HasCode ctx Bounded (.variable name) := by
  intro n state hstate hsize
  rw [Expr.size] at hsize
  obtain ⟨hbounded, hindices⟩ := hctx.openIndices n state hstate
  refine .inl ⟨_, _, (ctx.openIndices.run state).2, ?_, trivial,
    @Emitted.variable name (ctx.openIndices.run state).1 fun i hi => ?_, ?_⟩
  · rw [Expr.emit, Answer.runIn_bind_ok (Answer.runIn_lift _ state), hctx.variableCode]
  · have := hindices i hi
    omega
  · rwa [Expr.size, Nat.add_sub_cancel]

theorem hasCode_call (name : String) {args : List Expr}
    (hargs : ∀ arg ∈ args, HasCode ctx Bounded arg) : HasCode ctx Bounded (.call name args) := by
  intro n state hstate hsize
  rw [Expr.size] at hsize
  have haggregate := hctx.isAggregate name n state hstate
  rw [Expr.emit, Answer.runIn_bind_ok (Answer.runIn_lift _ state)]
  rcases emitArgs_outcome hctx hargs ⟨name, ((ctx.isAggregate name).run state).1⟩ n _ haggregate
    (by omega) with ⟨emissions, state', rfl, hcodes, hall, hemissions, hstate'⟩ |
      ⟨fault, state', hcodes, hunknown⟩
  · rw [Answer.runIn_bind_ok hcodes, Answer.runIn_bind_ok (Answer.runIn_lift _ _)]
    obtain ⟨hbounded, -⟩ := hctx.openIndices _ _ hstate'
    obtain ⟨state'', hstate'', hcode⟩ := hctx.callCode name (emissions.map Emission.code)
      (ctx.openIndices.run state').1 _ _ hbounded
    refine .inl ⟨_, _, state'', hcode, hall, .call name hemissions, ?_⟩
    rw [Expr.size]
    exact hctx.mono (by omega) hstate''
  · rw [Answer.runIn_bind_error hcodes]
    exact .inr ⟨fault, state', rfl, hunknown⟩

theorem hasCode_unary (symbol : String) {operand : Expr} (h : HasCode ctx Bounded operand) :
    HasCode ctx Bounded (.unary symbol operand) := by
  intro n state hstate hsize
  rw [Expr.size] at hsize
  rw [Expr.emit, Expr.size]
  cases hop : UnaryOperator.ofSymbol? symbol with
  | none =>
    refine .inr ⟨_, state, rfl, fun hknown => ?_⟩
    rw [Expr.Recognized, hop] at hknown
    exact nomatch hknown.1
  | some op =>
    rcases h n state hstate (by omega) with ⟨code, script, state', hcode, hrecognized, hemitted, hstate'⟩ |
      ⟨fault, state', hcode, hunknown⟩
    · refine .inl ⟨_, _, state', Answer.runIn_bind_ok hcode, ⟨by rw [hop]; rfl, hrecognized⟩,
        .unary hop hemitted, hctx.mono ?_ hstate'⟩
      omega
    · exact .inr ⟨fault, state', Answer.runIn_bind_error hcode, fun hknown => hunknown hknown.2⟩

theorem hasCode_binary (symbol : String) {left right : Expr} (hleft : HasCode ctx Bounded left)
    (hright : HasCode ctx Bounded right) : HasCode ctx Bounded (.binary symbol left right) := by
  intro n state hstate hsize
  rw [Expr.size] at hsize
  rw [Expr.emit, Expr.size]
  have hpos := left.size_pos
  cases hop : BinaryOperator.ofSymbol? symbol with
  | none =>
    refine .inr ⟨_, state, rfl, fun hknown => ?_⟩
    rw [Expr.Recognized, hop] at hknown
    exact nomatch hknown.1
  | some op =>
    rcases hleft n state hstate (by omega) with
      ⟨code, script, state', hcode, hrecognized, hemitted, hstate'⟩ | ⟨fault, state', hcode, hunknown⟩
    · rcases hright _ state' hstate' (by omega) with
        ⟨code', script', state'', hcode', hrecognized', hemitted', hstate''⟩ |
          ⟨fault, state'', hcode', hunknown⟩
      · refine .inl ⟨_, _, state'', ?_, ⟨by rw [hop]; rfl, hrecognized, hrecognized'⟩,
          .binary hop hemitted hemitted', hctx.mono (by omega) hstate''⟩
        rw [Answer.runIn_bind_ok hcode, Answer.runIn_bind_ok hcode']
        rfl
      · refine .inr ⟨fault, state'', ?_, fun hknown => hunknown hknown.2.2⟩
        rw [Answer.runIn_bind_ok hcode, Answer.runIn_bind_error hcode']
    · exact .inr ⟨fault, state', Answer.runIn_bind_error hcode, fun hknown => hunknown hknown.2.1⟩

theorem hasCode_conditional {condition whenTrue whenFalse : Expr}
    (hcondition : HasCode ctx Bounded condition) (htrue : HasCode ctx Bounded whenTrue)
    (hfalse : HasCode ctx Bounded whenFalse) :
    HasCode ctx Bounded (.conditional condition whenTrue whenFalse) := by
  intro n state hstate hsize
  rw [Expr.size] at hsize
  rw [Expr.emit, Expr.size]
  have hpos := condition.size_pos
  have hpos' := whenTrue.size_pos
  rcases hcondition n state hstate (by omega) with
    ⟨code, script, state₁, hcode, hrecognized, hemitted, hstate₁⟩ | ⟨fault, state₁, hcode, hunknown⟩
  · rw [Answer.runIn_bind_ok hcode]
    rcases htrue _ state₁ hstate₁ (by omega) with
      ⟨code', script', state₂, hcode', hrecognized', hemitted', hstate₂⟩ | ⟨fault, state₂, hcode', hunknown⟩
    · rw [Answer.runIn_bind_ok hcode']
      rcases hfalse _ state₂ hstate₂ (by omega) with
        ⟨code'', script'', state₃, hcode'', hrecognized'', hemitted'', hstate₃⟩ |
          ⟨fault, state₃, hcode'', hunknown⟩
      · exact .inl ⟨_, _, state₃, Answer.runIn_bind_ok hcode'',
          ⟨hrecognized, hrecognized', hrecognized''⟩,
          .conditional hemitted hemitted' hemitted'', hctx.mono (by omega) hstate₃⟩
      · exact .inr ⟨fault, state₃, Answer.runIn_bind_error hcode'', fun h => hunknown h.2.2⟩
    · exact .inr ⟨fault, state₂, Answer.runIn_bind_error hcode', fun h => hunknown h.2.1⟩
  · exact .inr ⟨fault, state₁, Answer.runIn_bind_error hcode, fun h => hunknown h.1⟩

theorem hasCode (expr : Expr) : HasCode ctx Bounded expr := by
  induction expr using Expr.induct with
  | boolean b =>
    exact fun n state hstate _ => .inl ⟨_, _, state, rfl, trivial, .boolean b, by
      rwa [Expr.size, Nat.add_sub_cancel]⟩
  | number x =>
    exact fun n state hstate _ => .inl ⟨_, _, state, rfl, trivial, .number x, by
      rwa [Expr.size, Nat.add_sub_cancel]⟩
  | text s =>
    exact fun n state hstate _ => .inl ⟨_, _, state, rfl, trivial, .text s, by
      rwa [Expr.size, Nat.add_sub_cancel]⟩
  | «variable» name => exact hasCode_variable hctx name
  | call name args ih => exact hasCode_call hctx name ih
  | unary symbol operand ih => exact hasCode_unary hctx symbol ih
  | binary symbol left right ihl ihr => exact hasCode_binary hctx symbol ihl ihr
  | conditional condition whenTrue whenFalse ihc iht ihf => exact hasCode_conditional hctx ihc iht ihf

/-- **Code.** A tree within the depth limit has code as `hasCode` says, and no other tree has. -/
theorem toCode_outcome {expr : Expr} (hsize : expr.size ≤ 2 ^ 64) (state : σ) :
    (∃ code script state', (expr.toCode ctx).runIn state = (.ok code, state') ∧
      expr.depth ≤ Expr.maxDepth ∧ expr.Recognized ∧ Emitted expr code script) ∨
    ∃ fault state', (expr.toCode ctx).runIn state = (.error (.malformed fault), state') ∧
      ¬ (expr.depth ≤ Expr.maxDepth ∧ expr.Recognized) := by
  have hbegin := hctx.beginCompile state
  have hframed := @runIn_compilation σ ctx expr state
  rw [Expr.levels_eq_depth] at hframed
  by_cases hdepth : Expr.maxDepth < expr.depth
  · rw [if_pos hdepth] at hframed
    exact .inr ⟨_, _, hframed, fun h => absurd h.1 (Nat.not_le_of_lt hdepth)⟩
  · rw [if_neg hdepth] at hframed
    rcases hasCode hctx expr 0 _ hbegin (by omega) with
      ⟨code, script, state', hcode, hrecognized, hemitted, -⟩ | ⟨fault, state', hcode, hunknown⟩
    · rw [hcode] at hframed
      exact .inl ⟨code, script, _, hframed, Nat.le_of_not_lt hdepth, hrecognized, hemitted⟩
    · rw [hcode] at hframed
      exact .inr ⟨fault, _, hframed, fun h => hunknown h.2⟩

/-- **Compilation.** The compiled form of a tree has a code of the tree, and the script of the code. -/
theorem ofExpr_outcome {expr : Expr} (hsize : expr.size ≤ 2 ^ 64) (state : σ) :
    (∃ form state', (Compiled.ofExpr ctx expr).runIn state = (.ok form, state') ∧
      expr.depth ≤ Expr.maxDepth ∧ expr.Recognized ∧ Emitted expr form.code form.script) ∨
    ∃ fault state', (Compiled.ofExpr ctx expr).runIn state = (.error (.malformed fault), state') ∧
      ¬ (expr.depth ≤ Expr.maxDepth ∧ expr.Recognized) := by
  rw [Compiled.ofExpr_of_load hctx.load]
  rcases toCode_outcome hctx hsize state with
    ⟨code, script, state', hcode, hdepth, hrecognized, hemitted⟩ | ⟨fault, state', hcode, hunknown⟩
  · rw [Answer.runIn_bind_ok hcode, hemitted.ofCode hdepth]
    exact .inl ⟨⟨code, script, (ctx.hasAggregates.run state').1⟩, _, rfl, hdepth, hrecognized, hemitted⟩
  · exact .inr ⟨fault, state', Answer.runIn_bind_error hcode, hunknown⟩

end Emission

/-! ## Refinement -/

/-- **Refinement.** A tree compiles if and only if it is within the depth limit and knows its operators; if
it does not compile it is malformed. The compiled form and a walk of the tree show the same in every
context that does not look at the indices of aggregate calls, not only in the one compiled in. The bound
on the size is that of the counter of these indices. -/
theorem compiled_refines_walk {ctx : Context (StateM σ)} (hctx : ctx.CompilesPlainly) {expr : Expr}
    (hsize : expr.size ≤ 2 ^ 64) (state : σ) :
    ((∃ form, ((Compiled.ofExpr ctx expr).runIn state).1 = .ok form) ↔
        expr.depth ≤ Expr.maxDepth ∧ expr.Recognized) ∧
      (∀ error, ((Compiled.ofExpr ctx expr).runIn state).1 = .error error →
        ∃ fault, error = .malformed fault) ∧
      ∀ form, ((Compiled.ofExpr ctx expr).runIn state).1 = .ok form →
        ∀ {τ : Type} (other : Context (StateM τ)), (∀ name indices bindings,
          other.lookupScoped name indices bindings = other.lookup name bindings) →
        ∀ bindings start, other.observe start (fun ctx => form.call ctx bindings) =
          other.observe start fun ctx => expr.evaluate ctx bindings := by
  obtain ⟨Bounded, hplain⟩ := hctx.plainFragments
  rcases ofExpr_outcome hplain hsize state with
    ⟨form, state', hform, hdepth, hrecognized, hemitted⟩ | ⟨fault, state', hfault, hunfit⟩
  · rw [hform]
    refine ⟨⟨fun _ => ⟨hdepth, hrecognized⟩, fun _ => ⟨form, rfl⟩⟩, fun _ h => (nomatch h), ?_⟩
    intro form' heq τ other hother bindings start
    obtain rfl := Except.ok.inj heq
    have hlogged : ∀ name indices bindings,
        other.logged.lookupScoped name indices bindings = other.logged.lookup name bindings := by
      intro name indices bindings
      simp only [Context.logged, hother]
    simp only [Context.observe, Compiled.call, Expr.evaluate, hemitted.run_eq_walk hlogged hdepth]
  · rw [hfault]
    refine ⟨⟨fun ⟨_, h⟩ => (nomatch h), fun h => absurd h hunfit⟩, fun error h => ?_, ?_⟩
    · exact ⟨fault, (Except.error.inj h).symm⟩
    · exact fun _ h => nomatch h

theorem SheetAccess.reaches_own : SheetAccess.own.Reaches id where
  read _ := rfl
  update _ _ := rfl

/-- The power of a negated variable and a call, compiled and run in the standard sheet. -/
theorem compiled_refines_walk_power :
    let expr : Expr := .binary "^" (.unary "-" (.variable "x")) (.call "SUM" [.number (.ofNat 2)])
    let ctx := Sheet.context SheetAccess.own
    ∃ form, ((Compiled.ofExpr ctx expr).runIn Sheet.standard).1 = .ok form ∧
      ∀ bindings, ctx.observe Sheet.standard (fun ctx => form.call ctx bindings) =
        ctx.observe Sheet.standard fun ctx => expr.evaluate ctx bindings := by
  intro expr ctx
  have hctx : ctx.CompilesPlainly :=
    .sheet SheetAccess.reaches_own ctx.lookup ctx.lookupScoped ctx.call
  have hsize : expr.size ≤ 2 ^ 64 := by decide
  obtain ⟨hiff, -, hagree⟩ := compiled_refines_walk hctx hsize Sheet.standard
  obtain ⟨form, hform⟩ := hiff.2 ⟨by decide, rfl, ⟨rfl, trivial⟩, trivial, trivial⟩
  exact ⟨form, hform, fun bindings => hagree form hform ctx (fun _ _ _ => rfl) bindings _⟩

end Formulary
