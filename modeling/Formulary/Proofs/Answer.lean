import Formulary.Context

/-!
# Answers

Equations of computations that may fail, for rewriting.
-/

namespace Formulary

namespace Answer

variable {m : Type → Type} [Monad m] {α : Type}

@[simp] theorem ofExcept_ok (value : α) : (ofExcept (.ok value) : Answer m α) = pure value := rfl

/-! ## Computations with a state -/

section State

variable {σ α β : Type} {state state' : σ}

/-- The result of an answer in a state, and the state that it leaves. -/
def runIn (answer : Answer (StateM σ) α) (state : σ) : Except FormulaError α × σ :=
  answer.run.run state

theorem runIn_mk (result : StateM σ (Except FormulaError α)) (state : σ) :
    runIn (ExceptT.mk result) state = result.run state := rfl

theorem runIn_lift (action : StateM σ α) (state : σ) :
    runIn (ExceptT.lift action) state = (.ok (action.run state).1, (action.run state).2) := rfl

theorem runIn_bind_ok {answer : Answer (StateM σ) α} {next : α → Answer (StateM σ) β} {value : α}
    (h : answer.runIn state = (.ok value, state')) :
    (answer >>= next).runIn state = (next value).runIn state' := by
  rw [runIn] at h
  rw [runIn, ExceptT.run_bind, StateT.run_bind, h]
  rfl

theorem runIn_bind_error {answer : Answer (StateM σ) α} {next : α → Answer (StateM σ) β}
    {error : FormulaError} (h : answer.runIn state = (.error error, state')) :
    (answer >>= next).runIn state = (.error error, state') := by
  rw [runIn] at h
  rw [runIn, ExceptT.run_bind, StateT.run_bind, h]
  rfl

/-- A computation that succeeds has succeeded at each step. -/
theorem exists_of_runIn_bind_ok {answer : Answer (StateM σ) α} {next : α → Answer (StateM σ) β} {result : β}
    (h : (answer >>= next).runIn state = (.ok result, state')) :
    ∃ value between, answer.runIn state = (.ok value, between) ∧
      (next value).runIn between = (.ok result, state') := by
  cases hfirst : (answer.runIn state).1 with
  | ok value =>
    have hanswer : answer.runIn state = (.ok value, (answer.runIn state).2) := Prod.ext hfirst rfl
    rw [runIn_bind_ok hanswer] at h
    exact ⟨value, _, hanswer, h⟩
  | error error =>
    rw [runIn_bind_error (Prod.ext hfirst rfl)] at h
    exact nomatch congrArg Prod.fst h

theorem runIn_map (f : α → β) (answer : Answer (StateM σ) α) (state : σ) :
    (f <$> answer).runIn state = ((answer.runIn state).1.map f, (answer.runIn state).2) := by
  rw [map_eq_pure_bind]
  cases h : (answer.runIn state).1 with
  | ok value => exact runIn_bind_ok (Prod.ext h rfl)
  | error error => exact runIn_bind_error (Prod.ext h rfl)

end State

end Answer

end Formulary
