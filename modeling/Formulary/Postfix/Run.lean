import Formulary.Postfix.Program
import Formulary.Script.Run

/-!
# Running postfix programs

A run keeps a stack of values. Where a gate is shut, the run goes on after the range, with a placeholder
on the stack for each value that the range would have left. The instructions before the current one are
never looked at again, so a run takes at most one step for each instruction and one for its end.
-/

namespace Formulary

namespace Postfix

/-- A program that takes a value where there is none. -/
def malformed : FormulaError := .evaluation "postfix program is malformed"

structure Machine where
  /-- The next instruction. -/
  place : Nat
  /-- The top comes first. -/
  stack : List Value
  /-- The conditionals whose first branch is running: where their second branch starts, and where it
  stops. -/
  taken : List (Nat × Nat)

namespace Machine

def start : Machine := ⟨0, [], []⟩

def push (machine : Machine) (value : Value) : Machine :=
  { machine with stack := value :: machine.stack }

/-- Goes on at another place with so many placeholders. -/
def skipTo (machine : Machine) (place placeholders : Nat) : Machine :=
  { machine with place := place, stack := List.replicate placeholders .empty ++ machine.stack }

def top? (machine : Machine) : Except FormulaError Value :=
  match machine.stack with
  | value :: _ => .ok value
  | [] => .error malformed

/-- What the gates at a place lead to. -/
inductive Passage where
  /-- The instruction there runs. -/
  | enter (machine : Machine)
  | skip (machine : Machine)

/-- Passes the gates at the current place, the widest first, up to the first that is shut. -/
def pass (machine : Machine) : List Gate → Except FormulaError Passage
  | [] => .ok (.enter machine)
  | ⟨_, stop, .right and⟩ :: rest => do
    let left ← machine.top?
    if left.isTruthy != and then .ok (.skip (machine.skipTo stop 1)) else pass machine rest
  | ⟨_, stop, .branches second⟩ :: rest => do
    let condition ← machine.top?
    if condition.isTruthy then
      pass { machine with taken := (second, stop) :: machine.taken } rest
    else .ok (.skip (machine.skipTo second 1))
  | ⟨_, stop, .unreachable operands⟩ :: _ => .ok (.skip (machine.skipTo stop operands))

/-- The end of a first branch, which leads past the second. -/
def finishBranch? (machine : Machine) : Option Machine :=
  match machine.taken with
  | (second, stop) :: taken =>
    if second = machine.place then some ({ machine with taken := taken }.skipTo stop 1) else none
  | [] => none

variable {m : Type → Type} [Monad m]

/-- The value of an instruction and the stack below it. -/
def execute (ctx : Context m) (bindings : Bindings) (instruction : Instruction) (stack : List Value) :
    Answer m (Value × List Value) :=
  match instruction, stack with
  | .boolean b, stack => pure (.boolean b, stack)
  | .number n, stack => pure (.number n, stack)
  | .text s, stack => pure (.text s, stack)
  | .load name, stack => do
    let value ← ctx.lookup name bindings
    pure (value, stack)
  | .call name count, stack =>
    if stack.length < count then throw malformed
    else do
      let value ← ctx.call name (stack.take count).reverse
      pure (value, stack.drop count)
  | .unary symbol, operand :: stack =>
    match UnaryOperator.ofSymbol? symbol with
    | none => throw (.unknownOperator symbol)
    | some op => pure (op.apply operand, stack)
  | .binary symbol, right :: left :: stack =>
    match BinaryOperator.ofSymbol? symbol with
    | none => throw (.unknownOperator symbol)
    | some op => do
      let value ← Answer.ofExcept (op.apply left right)
      pure (value, stack)
  | .select, whenFalse :: whenTrue :: condition :: stack =>
    pure (if condition.isTruthy then whenTrue else whenFalse, stack)
  | _, _ => throw malformed

/-- The value that a finished run leaves alone on the stack. -/
def result (machine : Machine) : Except FormulaError Value :=
  match machine.stack with
  | [value] => .ok value
  | _ => .error malformed

/-- Runs up to the end of the program; `fuel` bounds the steps. -/
def runFrom (ctx : Context m) (bindings : Bindings) (program : Program) :
    (fuel : Nat) → Machine → Answer m Value
  | 0, _ => throw malformed
  | fuel + 1, machine =>
    match program.instructions[machine.place]? with
    | none => Answer.ofExcept machine.result
    | some instruction =>
      match machine.finishBranch? with
      | some machine => runFrom ctx bindings program fuel machine
      | none => do
        match ← Answer.ofExcept (machine.pass (program.gatesAt machine.place)) with
        | .skip machine => runFrom ctx bindings program fuel machine
        | .enter machine => do
          let (value, stack) ← execute ctx bindings instruction machine.stack
          runFrom ctx bindings program fuel
            { machine with place := machine.place + 1, stack := value :: stack }

end Machine

variable {m : Type → Type} [Monad m]

def Program.run (program : Program) (ctx : Context m) (bindings : Bindings) : Answer m Value :=
  Machine.runFrom ctx bindings program (program.size + 1) Machine.start

end Postfix

/-- The value of an expression of any depth in a context, found by its postfix program. -/
def Expr.evaluatePostfix {m : Type → Type} [Monad m] (ctx : Context m) (bindings : Bindings)
    (expr : Expr) : Answer m Value :=
  (Postfix.Program.ofExpr expr).run ctx bindings

end Formulary
