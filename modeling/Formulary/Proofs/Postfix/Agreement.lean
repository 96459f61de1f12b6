import Formulary.Proofs.Expr.Walk
import Formulary.Proofs.Observation
import Formulary.Proofs.Postfix.Simulation

/-!
# Walking and postfix runs agree up to the depth cut

A walk of limited depth either does what the postfix run of the tree does or breaks off on the way.

1. A computation in a logged context only adds exchanges, and fails with an error of its own or with
   the last answer (`Candid`).
2. Of two walks the one with fewer levels is the other one or a beginning of it (`Cut`).
3. With as many levels as the tree has, the walk is the postfix run (`evaluatePostfix_eq_walk`).
-/

namespace Formulary

variable {σ α β : Type}

/-! ## Exchanges and errors -/

/-- Exchanges are only added, and an error is an own one or the last answer. -/
def Candid (answer : Answer (Dialogue (StateM σ)) α) : Prop :=
  ∀ exchanges state, exchanges <+: (answer.after exchanges state).1.2 ∧
    ∀ error, (answer.after exchanges state).1.1 = .error error → error.Raised ∨
      ∃ exchange, (answer.after exchanges state).1.2.getLast? = some exchange ∧
        exchange.answer = .error error

theorem candid_bind {answer : Answer (Dialogue (StateM σ)) α}
    {next : α → Answer (Dialogue (StateM σ)) β} (h : Candid answer) (hnext : ∀ value, Candid (next value)) :
    Candid (answer >>= next) := by
  intro exchanges state
  obtain ⟨hbegin, herror⟩ := h exchanges state
  rcases hafter : answer.after exchanges state with ⟨⟨result, exchanges'⟩, state'⟩
  rw [hafter] at hbegin herror
  cases result with
  | ok value =>
    rw [Answer.after_bind_ok hafter]
    obtain ⟨hbegin', herror'⟩ := hnext value exchanges' state'
    exact ⟨hbegin.trans hbegin', herror'⟩
  | error error =>
    rw [Answer.after_bind_error hafter]
    refine ⟨hbegin, fun error' h => ?_⟩
    obtain rfl := Except.error.inj h
    exact herror _ rfl

theorem candid_heard {exchange : Except FormulaError Value → Exchange}
    (hanswer : ∀ result, (exchange result).answer = result) (answer : Answer (StateM σ) Value) :
    Candid (Dialogue.heard exchange answer) := by
  intro exchanges state
  rw [Answer.after_heard]
  refine ⟨List.prefix_append _ _, fun error h => .inr ⟨_, List.getLast?_concat, ?_⟩⟩
  rw [hanswer]
  exact h

theorem candid_closed (ctx : Context (StateM σ)) :
    Closed ctx.logged ctx.logged fun answer _ => Candid answer where
  pure _ _ _ := ⟨List.prefix_refl _, fun _ h => nomatch h⟩
  throw hraised _ _ := ⟨List.prefix_refl _, fun _ h => .inl (Except.error.inj h ▸ hraised)⟩
  bind := candid_bind
  lookup _ _ := candid_heard (fun _ => rfl) _
  call _ _ := candid_heard (fun _ => rfl) _

/-! ## The depth cut -/

/-- The first computation is the second one or breaks off on its way, too deep. -/
def Cut (walked whole : Answer (Dialogue (StateM σ)) α) : Prop :=
  ∀ exchanges state, walked.after exchanges state = whole.after exchanges state ∨
    (walked.after exchanges state).1.1 = .error .tooDeep ∧
      (walked.after exchanges state).1.2 <+: (whole.after exchanges state).1.2

theorem Cut.refl (answer : Answer (Dialogue (StateM σ)) α) : Cut answer answer :=
  fun _ _ => .inl rfl

theorem cut_tooDeep {whole : Answer (Dialogue (StateM σ)) α} (h : Candid whole) :
    Cut (throw .tooDeep) whole := fun exchanges state =>
  .inr ⟨rfl, (h exchanges state).1⟩

theorem cut_bind {walked whole : Answer (Dialogue (StateM σ)) α}
    {next next' : α → Answer (Dialogue (StateM σ)) β} (h : Cut walked whole)
    (hnext : ∀ value, Cut (next value) (next' value)) (hcandid : ∀ value, Candid (next' value)) :
    Cut (walked >>= next) (whole >>= next') := by
  intro exchanges state
  rcases hwalked : walked.after exchanges state with ⟨⟨result, exchanges'⟩, state'⟩
  rcases hwhole : whole.after exchanges state with ⟨⟨result', exchanges''⟩, state''⟩
  have hcut := h exchanges state
  rw [hwalked, hwhole] at hcut
  rcases hcut with heq | ⟨hdeep, hbegin⟩
  · obtain ⟨⟨rfl, rfl⟩, rfl⟩ : (result = result' ∧ exchanges' = exchanges'') ∧ state' = state'' := by
      simpa using heq
    cases result with
    | ok value =>
      rw [Answer.after_bind_ok hwalked, Answer.after_bind_ok hwhole]
      exact hnext value exchanges' state'
    | error error =>
      rw [Answer.after_bind_error hwalked, Answer.after_bind_error hwhole]
      exact .inl rfl
  · obtain rfl : result = .error .tooDeep := hdeep
    rw [Answer.after_bind_error hwalked]
    refine .inr ⟨rfl, ?_⟩
    cases result' with
    | ok value =>
      rw [Answer.after_bind_ok hwhole]
      exact hbegin.trans (hcandid value _ _).1
    | error error =>
      rw [Answer.after_bind_error hwhole]
      exact hbegin

theorem cut_run (ctx : Context (StateM σ)) (op : BinaryOperator)
    {left left' right right' : Answer (Dialogue (StateM σ)) Value}
    (hleft : Cut left left') (hright : Cut right right') (hcandid : Candid right') :
    Cut (op.run left right) (op.run left' right') := by
  have hclosed := candid_closed ctx
  rw [BinaryOperator.run_eq, BinaryOperator.run_eq]
  refine cut_bind hleft (fun a => ?_) fun a => ?_
  · split
    · exact .refl _
    · exact cut_bind hright (fun b => .refl _) fun b => hclosed.apply op a b
  · split
    · exact hclosed.pure a
    · exact candid_bind hcandid fun b => hclosed.apply op a b

theorem cut_mapM (ctx : Context (StateM σ)) {f g : α → Answer (Dialogue (StateM σ)) β}
    {items : List α} (hcut : ∀ item, Cut (f item) (g item)) (hcandid : ∀ item, Candid (g item)) :
    Cut (items.mapM f) (items.mapM g) := by
  have hclosed := candid_closed ctx
  induction items with
  | nil => exact .refl _
  | cons item items ih =>
    rw [List.mapM_cons, List.mapM_cons]
    refine cut_bind (hcut item) (fun value => ?_) fun value => ?_
    · exact cut_bind ih (fun values => .refl _) fun values => hclosed.pure _
    · have hitems : Candid (items.mapM g) := hclosed.mapM (g := g) hcandid
      exact candid_bind hitems fun values => hclosed.pure _

/-- Fewer levels cut a walk short or change nothing. -/
theorem walk_cut (ctx : Context (StateM σ)) (bindings : Bindings) {levels levels' : Nat}
    (hle : levels ≤ levels') (expr : Expr) :
    Cut (expr.walk ctx.logged bindings levels) (expr.walk ctx.logged bindings levels') := by
  have hclosed := candid_closed ctx
  have hwalk := fun levels expr => hclosed.walk bindings levels expr
  induction levels generalizing levels' expr with
  | zero => exact cut_tooDeep (hwalk levels' expr)
  | succ levels ih =>
    obtain ⟨levels', rfl⟩ : ∃ n, levels' = n + 1 := ⟨levels' - 1, by omega⟩
    have hcut := fun expr => ih (by omega : levels ≤ levels') expr
    cases expr with
    | boolean | number | text | «variable» => exact .refl _
    | call name args =>
      exact cut_bind (cut_mapM ctx hcut (hwalk levels')) (fun values => .refl _)
        fun values => hclosed.call name values
    | unary symbol operand =>
      rw [Expr.walk, Expr.walk]
      split
      · exact .refl _
      · exact cut_bind (hcut operand) (fun a => .refl _) fun a => hclosed.pure _
    | binary symbol left right =>
      rw [Expr.walk, Expr.walk]
      split
      · exact .refl _
      · exact cut_run ctx _ (hcut left) (hcut right) (hwalk levels' right)
    | conditional condition whenTrue whenFalse =>
      refine cut_bind (hcut condition) (fun c => ?_) fun c => ?_
      · split
        · exact hcut whenTrue
        · exact hcut whenFalse
      · split
        · exact hwalk levels' whenTrue
        · exact hwalk levels' whenFalse

/-! ## Agreement -/

/-- **Agreement.** From every state a walk and a postfix run show the same, or the walk breaks off too
deep after a part of the exchanges. A tree within the depth limit is never broken off, and a run fails
for want of values only if the context answers with that very failure. -/
theorem postfix_agrees_with_walk (ctx : Context (StateM σ)) (bindings : Bindings) (expr : Expr)
    (state : σ) :
    let walked := ctx.observe state fun ctx => expr.evaluate ctx bindings
    let ran := ctx.observe state fun ctx => expr.evaluatePostfix ctx bindings
    (walked = ran ∨ walked.result = .error .tooDeep ∧ walked.exchanges <+: ran.exchanges) ∧
      (expr.depth ≤ Expr.maxDepth → walked = ran) ∧
      (ran.result = .error Postfix.malformed → ∃ exchange,
        ran.exchanges.getLast? = some exchange ∧ exchange.answer = .error Postfix.malformed) := by
  have hrun : expr.evaluatePostfix ctx.logged bindings =
      expr.walk ctx.logged bindings (max Expr.maxDepth expr.depth) :=
    Postfix.evaluatePostfix_eq_walk _ _ (Nat.le_max_right _ _)
  refine ⟨?_, fun hdepth => ?_, fun hmalformed => ?_⟩
  · rcases walk_cut ctx bindings (Nat.le_max_left Expr.maxDepth expr.depth) expr [] state with heq | hcut
    · refine .inl ?_
      simp only [Context.observe, Expr.evaluate, hrun, heq]
    · refine .inr ?_
      simp only [Context.observe, Expr.evaluate, hrun]
      exact hcut
  · simp only [Context.observe, Expr.evaluate, hrun, Nat.max_eq_left hdepth]
  · have hcandid := (candid_closed ctx).walk bindings (max Expr.maxDepth expr.depth) expr [] state
    simp only [Context.observe, hrun] at hmalformed ⊢
    rcases hcandid.2 _ hmalformed with hraised | hanswer
    · exact nomatch hraised
    · exact hanswer

end Formulary
