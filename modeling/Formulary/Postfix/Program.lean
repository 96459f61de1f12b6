import Formulary.Expr.Basic
import Formulary.Number.Decimal
import Formulary.Operator
import Formulary.Text.Quoted

/-!
# Postfix programs

A tree in the order operands before operator: one instruction for each node. Some ranges of instructions
must not always run, namely what walking the tree would leave out. A *gate* stands at the first
instruction of such a range and says where to go on instead: the right operand of `&&` and `||`, the
branches of a conditional, and all operands of an operator that nothing is known of.
-/

namespace Formulary

namespace Postfix

inductive Instruction where
  | boolean (b : Bool)
  | number (n : Number)
  | text (s : String)
  | load (name : String)
  /-- Calls a function with as many arguments from the top of the stack. -/
  | call (name : String) (count : Nat)
  | unary (op : String)
  | binary (op : String)
  /-- Takes both branches and the condition below them. -/
  | select
deriving DecidableEq

/-- The instruction on one line. -/
def Instruction.describe : Instruction → String
  | boolean b => if b then "push true" else "push false"
  | number n => "push " ++ n.format Number.plainStyle
  | text s => "push " ++ quotedText s
  | load name => "load " ++ name
  | call name count => "call " ++ name ++ "/" ++ toString count
  | unary op => "unary " ++ op
  | binary op => "binary " ++ op
  | select => "select"

/-- The instruction of a tree's root. -/
def Instruction.ofRoot : Expr → Instruction
  | .boolean b => boolean b
  | .number n => number n
  | .text s => text s
  | .variable name => load name
  | .call name args => call name args.length
  | .unary op _ => unary op
  | .binary op _ _ => binary op
  | .conditional .. => select

inductive GateKind where
  /-- The right operand of `&&` or, if not `and`, of `||`. -/
  | right (and : Bool)
  /-- The branches of a conditional, the second of which starts at `second`. -/
  | branches (second : Nat)
  /-- The operands of an unknown operator. -/
  | unreachable (operands : Nat)
deriving DecidableEq, Repr

/-- A range of instructions, from the gate's place up to the instruction that takes its value. -/
structure Gate where
  start : Nat
  stop : Nat
  kind : GateKind
deriving DecidableEq, Repr

structure Program where
  instructions : Array Instruction
  /-- The gates at each instruction, the wider ranges first. -/
  gates : Array (List Gate)

namespace Program

def empty : Program := ⟨#[], #[]⟩

def size (program : Program) : Nat := program.instructions.size

def gatesAt (program : Program) (place : Nat) : List Gate := program.gates[place]?.getD []

/-- The gate for the operands of the instruction at `place`. `starts` holds the first instruction of
the subtree of each instruction up to this one, so the last operand starts at `starts[place - 1]`, and
the operand before it starts where the subtree ending there does. -/
def gateFor? (instruction : Instruction) (place : Nat) (starts : Array Nat) : Option Gate :=
  let start := fun i => starts[i]?.getD 0
  match instruction with
  | .unary op =>
    if (UnaryOperator.ofSymbol? op).isNone then some ⟨start place, place, .unreachable 1⟩ else none
  | .binary op =>
    match BinaryOperator.ofSymbol? op with
    | none => some ⟨start place, place, .unreachable 2⟩
    | some .and => some ⟨start (place - 1), place, .right true⟩
    | some .or => some ⟨start (place - 1), place, .right false⟩
    | some _ => none
  | .select =>
    let second := start (place - 1)
    some ⟨start (second - 1), place, .branches second⟩
  | _ => none

/-- Puts a gate before those at its place, which end earlier if they were added earlier. -/
def addGate (program : Program) (gate : Gate) : Program :=
  { program with gates := program.gates.modify gate.start (gate :: ·) }

/-- Puts an instruction at the end. -/
def push (program : Program) (instruction : Instruction) : Program :=
  ⟨program.instructions.push instruction, program.gates.push []⟩

/-- What remains to be done while a tree is flattened. -/
inductive Task where
  /-- A tree to be flattened. -/
  | visit (expr : Expr)
  /-- A node whose operands are done; its subtree starts at `start`. -/
  | emit (instruction : Instruction) (start : Nat)

/-- The number of steps that a task takes. -/
def Task.cost : Task → Nat
  | visit expr => 2 * expr.size
  | emit .. => 1

def totalCost (tasks : List Task) : Nat := (tasks.map Task.cost).sum

theorem totalCost_visits (exprs : List Expr) :
    totalCost (exprs.map .visit) = 2 * Expr.sizeAll exprs := by
  induction exprs with
  | nil => rfl
  | cons expr rest ih =>
    simp only [totalCost, List.map_cons, List.sum_cons, Expr.sizeAll, Nat.mul_add] at ih ⊢
    rw [ih]
    rfl

theorem totalCost_expand_lt (expr : Expr) (instruction : Instruction) (start : Nat)
    (rest : List Task) :
    totalCost (expr.children.map .visit ++ .emit instruction start :: rest)
      < totalCost (.visit expr :: rest) := by
  have hv := totalCost_visits expr.children
  simp only [totalCost] at hv
  simp only [totalCost, List.map_append, List.sum_append, List.map_cons, List.sum_cons, hv,
    Task.cost, Expr.size_eq expr]
  omega

/-- A point in flattening a tree. -/
structure Flattening where
  program : Program
  /-- The first instruction of the subtree of each instruction. -/
  starts : Array Nat
  tasks : List Task

/-- Works off the first task; `starts` grows with the instructions. -/
def Flattening.next? : Flattening → Option Flattening
  | ⟨_, _, []⟩ => none
  | ⟨program, starts, .emit instruction start :: rest⟩ =>
    let place := program.size
    let starts := starts.push start
    let program := program.push instruction
    let program := match gateFor? instruction place starts with
      | some gate => program.addGate gate
      | none => program
    some ⟨program, starts, rest⟩
  | ⟨program, starts, .visit expr :: rest⟩ =>
    some ⟨program, starts, expr.children.map .visit ++ .emit (.ofRoot expr) program.size :: rest⟩

theorem Flattening.totalCost_next?_lt {s t : Flattening} (h : s.next? = some t) :
    totalCost t.tasks < totalCost s.tasks := by
  obtain ⟨program, starts, tasks⟩ := s
  match tasks, h with
  | .emit instruction start :: rest, h =>
    obtain rfl := Option.some.inj h
    simp [totalCost, Task.cost]
  | .visit expr :: rest, h =>
    obtain rfl := Option.some.inj h
    exact totalCost_expand_lt expr _ _ rest

/-- Works off all tasks. -/
def flattenFrom (s : Flattening) : Program :=
  match _ : s.next? with
  | none => s.program
  | some t => flattenFrom t
termination_by totalCost s.tasks
decreasing_by exact Flattening.totalCost_next?_lt ‹_›

/-- The program of a tree of any depth. -/
def ofExpr (expr : Expr) : Program := flattenFrom ⟨empty, #[], [.visit expr]⟩

end Program

end Postfix

end Formulary
