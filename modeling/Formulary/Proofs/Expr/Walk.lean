import Formulary.Expr.Walk
import Formulary.Proofs.Answer

/-!
# What walking is made of

A walk asks its context, raises errors of its own and puts these together, and does nothing else:
`Closed.walk` proves of the walks of a tree in two contexts what holds of their parts and survives `bind`.
-/

namespace Formulary

/-- An error that evaluation may raise itself, without asking its context. -/
inductive FormulaError.Raised : FormulaError → Prop
  | malformed (fault : SyntaxFault) : Raised (.malformed fault)
  | typeMismatch (operator : String) : Raised (.typeMismatch operator)

namespace Value

theorem raised_of_subtract {a b : Value} {error : FormulaError} (h : a.subtract b = .error error) :
    error.Raised := by
  simp only [subtract] at h
  split at h
  · exact nomatch h
  · split at h
    · split at h
      · exact nomatch h
      · obtain rfl := Except.error.inj h
        exact .typeMismatch _
      · exact nomatch h
    · split at h
      · exact nomatch h
      · obtain rfl := Except.error.inj h
        exact .typeMismatch _

theorem raised_of_scale {symbol : String} {a b : Value} {error : FormulaError}
    (h : scale symbol a b = .error error) : error.Raised := by
  simp only [scale] at h
  split at h
  · obtain rfl := Except.error.inj h
    exact .malformed _
  · split at h
    · obtain rfl := Except.error.inj h
      exact .typeMismatch _
    · split at h
      · exact nomatch h
      · split at h
        · exact nomatch h
        · split at h
          · exact nomatch h
          · obtain rfl := Except.error.inj h
            exact .typeMismatch _

end Value

namespace BinaryOperator

theorem raised_of_apply {op : BinaryOperator} {a b : Value} {error : FormulaError}
    (h : op.apply a b = .error error) : error.Raised := by
  cases op with
  | subtract => exact Value.raised_of_subtract h
  | multiply | divide | remainder | power =>
    rw [apply] at h
    exact Value.raised_of_scale h
  | _ => exact nomatch h

/-- The left operand decides the result alone. -/
def decides : BinaryOperator → Value → Bool
  | .and, a => !a.isTruthy
  | .or, a => a.isTruthy
  | _, _ => false

theorem apply_of_decides {op : BinaryOperator} {a : Value} (h : op.decides a = true) (b : Value) :
    op.apply a b = .ok a := by
  cases op <;> simp_all [decides, apply]

/-- Every operator takes its left operand, then its right one unless the left one decides. -/
theorem run_eq {m : Type → Type} [Monad m] [LawfulMonad m] (op : BinaryOperator)
    (left right : Answer m Value) :
    op.run left right = left >>= fun a =>
      if op.decides a then pure a else right >>= fun b => Answer.ofExcept (op.apply a b) := by
  refine bind_congr fun a => ?_
  cases op with
  | and | or =>
    cases ha : a.isTruthy with
    | false | true => simp [decides, apply, ha]
  | _ => rfl

end BinaryOperator

variable {m n : Type → Type} [Monad m] [Monad n]

/-- A relation of computations in two contexts that holds of their answers to one question, of an error that
both raise, and of what is put together. -/
structure Closed (ctx : Context m) (ctx' : Context n) (P : ∀ {α : Type}, Answer m α → Answer n α → Prop) :
    Prop where
  pure : ∀ {α : Type} (value : α), P (pure value) (pure value)
  throw : ∀ {α : Type} {error : FormulaError}, error.Raised → P (α := α) (throw error) (throw error)
  bind : ∀ {α β : Type} {answer : Answer m α} {answer' : Answer n α} {next : α → Answer m β}
    {next' : α → Answer n β}, P answer answer' → (∀ value, P (next value) (next' value)) →
    P (answer >>= next) (answer' >>= next')
  lookup : ∀ name bindings, P (ctx.lookup name bindings) (ctx'.lookup name bindings)
  call : ∀ name args, P (ctx.call name args) (ctx'.call name args)

namespace Closed

variable {ctx : Context m} {ctx' : Context n} {P : ∀ {α : Type}, Answer m α → Answer n α → Prop}
  (h : Closed ctx ctx' P)

include h

theorem ofExcept {α : Type} {result : Except FormulaError α}
    (hresult : ∀ error, result = .error error → error.Raised) :
    P (Answer.ofExcept result) (Answer.ofExcept result) := by
  cases result with
  | ok value => exact h.pure value
  | error error => exact h.throw (hresult error rfl)

theorem apply (op : BinaryOperator) (a b : Value) :
    P (Answer.ofExcept (op.apply a b)) (Answer.ofExcept (op.apply a b)) :=
  h.ofExcept fun _ => BinaryOperator.raised_of_apply

variable [LawfulMonad m] [LawfulMonad n]

theorem run (op : BinaryOperator) {left right : Answer m Value} {left' right' : Answer n Value}
    (hleft : P left left') (hright : P right right') : P (op.run left right) (op.run left' right') := by
  rw [BinaryOperator.run_eq, BinaryOperator.run_eq]
  refine h.bind hleft fun a => ?_
  split
  · exact h.pure a
  · exact h.bind hright fun b => h.apply op a b

theorem mapM {α β : Type} {f : α → Answer m β} {g : α → Answer n β} {items : List α}
    (hitem : ∀ item, P (f item) (g item)) : P (items.mapM f) (items.mapM g) := by
  induction items with
  | nil => exact h.pure []
  | cons item items ih =>
    rw [List.mapM_cons, List.mapM_cons]
    exact h.bind (hitem item) fun value => h.bind ih fun values => h.pure (value :: values)

theorem walk (bindings : Bindings) (levels : Nat) (expr : Expr) :
    P (expr.walk ctx bindings levels) (expr.walk ctx' bindings levels) := by
  induction levels generalizing expr with
  | zero => exact h.throw (.malformed _)
  | succ levels ih =>
    cases expr with
    | boolean | number | text => exact h.pure _
    | «variable» name => exact h.lookup name bindings
    | call name args => exact h.bind (h.mapM ih) fun values => h.call name values
    | unary symbol operand =>
      rw [Expr.walk, Expr.walk]
      split
      · exact h.throw (.malformed _)
      · exact h.bind (ih operand) fun a => h.pure _
    | binary symbol left right =>
      rw [Expr.walk, Expr.walk]
      split
      · exact h.throw (.malformed _)
      · exact h.run _ (ih left) (ih right)
    | conditional condition whenTrue whenFalse =>
      refine h.bind (ih condition) fun c => ?_
      split
      · exact ih whenTrue
      · exact ih whenFalse

end Closed

end Formulary
