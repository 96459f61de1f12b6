import Formulary.Postfix.Program
import Formulary.Proofs.Expr.Recognized

/-!
# The layout of a program

What flattening makes of a tree: the rows of its operands from left to right, then the row of its root.
`flattenFrom_visit` says that a visited tree adds exactly its rows, so a program is read off the tree
from here on and not off the worklist.
-/

namespace Formulary

namespace Postfix

/-- An instruction with the first place of its subtree and the gates at its own. -/
structure Row where
  instruction : Instruction
  start : Nat
  gates : List Gate

namespace Row

/-- Puts gates before those at the first row. -/
def guard (gates : List Gate) (rows : List Row) : List Row :=
  rows.modifyHead fun row => { row with gates := gates ++ row.gates }

/-- The gates at the first row. -/
def entry (rows : List Row) : List Gate := (rows.head?.map gates).getD []

/-- The gate over the operand of an unknown unary operator. -/
def unaryGates (symbol : String) (place stop : Nat) : List Gate :=
  match UnaryOperator.ofSymbol? symbol with
  | none => [⟨place, stop, .unreachable 1⟩]
  | some _ => []

/-- The gate over both operands of an unknown binary operator. -/
def binaryGates (symbol : String) (place stop : Nat) : List Gate :=
  match BinaryOperator.ofSymbol? symbol with
  | none => [⟨place, stop, .unreachable 2⟩]
  | some _ => []

/-- The gate over the right operand of an operator that may leave it out. -/
def rightGates (symbol : String) (place stop : Nat) : List Gate :=
  match BinaryOperator.ofSymbol? symbol with
  | some .and => [⟨place, stop, .right true⟩]
  | some .or => [⟨place, stop, .right false⟩]
  | _ => []

mutual

/-- The rows of a tree from a place on. -/
def ofExpr (place : Nat) : Expr → List Row
  | .boolean b => [⟨.boolean b, place, []⟩]
  | .number n => [⟨.number n, place, []⟩]
  | .text s => [⟨.text s, place, []⟩]
  | .variable name => [⟨.load name, place, []⟩]
  | .call name args => ofExprs place args ++ [⟨.call name args.length, place, []⟩]
  | .unary symbol operand =>
    guard (unaryGates symbol place (place + operand.size)) (ofExpr place operand)
      ++ [⟨.unary symbol, place, []⟩]
  | .binary symbol left right =>
    guard (binaryGates symbol place (place + left.size + right.size)) (ofExpr place left)
      ++ (guard (rightGates symbol (place + left.size) (place + left.size + right.size))
        (ofExpr (place + left.size) right)
      ++ [⟨.binary symbol, place, []⟩])
  | .conditional condition whenTrue whenFalse =>
    let second := place + condition.size + whenTrue.size
    ofExpr place condition
      ++ (guard [⟨place + condition.size, second + whenFalse.size, .branches second⟩]
        (ofExpr (place + condition.size) whenTrue)
      ++ (ofExpr second whenFalse ++ [⟨.select, place, []⟩]))

def ofExprs (place : Nat) : List Expr → List Row
  | [] => []
  | expr :: rest => ofExpr place expr ++ ofExprs (place + expr.size) rest

end

/-! ## Lengths and ends -/

@[simp] theorem length_guard (gates : List Gate) (rows : List Row) :
    (guard gates rows).length = rows.length := by
  rw [guard, List.length_modifyHead]

@[simp] theorem guard_nil (rows : List Row) : guard [] rows = rows := by
  cases rows <;> rfl

theorem guard_ne_nil (gates : List Gate) {rows : List Row} (h : rows ≠ []) : guard gates rows ≠ [] := by
  cases rows with
  | nil => exact absurd rfl h
  | cons row rest => simp [guard]

theorem guard_append {gates : List Gate} {rows : List Row} (h : rows ≠ []) (after : List Row) :
    guard gates (rows ++ after) = guard gates rows ++ after := by
  cases rows with
  | nil => exact absurd rfl h
  | cons row rest => rfl

theorem guard_guard (gates inner : List Gate) (rows : List Row) :
    guard gates (guard inner rows) = guard (gates ++ inner) rows := by
  cases rows <;> simp [guard]

@[simp] theorem entry_guard {gates : List Gate} {rows : List Row} (h : rows ≠ []) :
    entry (guard gates rows) = gates ++ entry rows := by
  cases rows with
  | nil => exact absurd rfl h
  | cons row rest => rfl

@[simp] theorem entry_append {rows : List Row} (h : rows ≠ []) (after : List Row) :
    entry (rows ++ after) = entry rows := by
  cases rows with
  | nil => exact absurd rfl h
  | cons row rest => rfl

mutual

theorem length_ofExpr (place : Nat) (expr : Expr) : (ofExpr place expr).length = expr.size := by
  cases expr with
  | boolean | number | text | «variable» => rfl
  | call name args => simp [ofExpr, Expr.size, length_ofExprs place args, Nat.add_comm]
  | unary symbol operand => simp [ofExpr, Expr.size, length_ofExpr place operand, Nat.add_comm]
  | binary symbol left right =>
    simp only [ofExpr, Expr.size, List.length_append, length_guard, length_ofExpr _ left,
      length_ofExpr _ right, List.length_singleton]
    omega
  | conditional condition whenTrue whenFalse =>
    simp only [ofExpr, Expr.size, List.length_append, length_guard, length_ofExpr _ condition,
      length_ofExpr _ whenTrue, length_ofExpr _ whenFalse, List.length_singleton]
    omega

theorem length_ofExprs (place : Nat) (exprs : List Expr) :
    (ofExprs place exprs).length = Expr.sizeAll exprs := by
  cases exprs with
  | nil => rfl
  | cons expr rest =>
    rw [ofExprs, List.length_append, length_ofExpr place expr, length_ofExprs _ rest, Expr.sizeAll]

end

theorem ofExpr_ne_nil (place : Nat) (expr : Expr) : ofExpr place expr ≠ [] := by
  intro h
  have hlength := length_ofExpr place expr
  have := expr.size_pos
  rw [h, List.length_nil] at hlength
  omega

/-- The root comes last, without gates, and its subtree starts at the first place. -/
theorem exists_ofExpr_eq (place : Nat) (expr : Expr) :
    ∃ operands, ofExpr place expr = operands ++ [⟨.ofRoot expr, place, []⟩] := by
  cases expr with
  | boolean | number | text | «variable» => exact ⟨[], rfl⟩
  | call name args => exact ⟨_, rfl⟩
  | unary symbol operand => exact ⟨_, rfl⟩
  | binary symbol left right => exact ⟨_, by rw [ofExpr, ← List.append_assoc]; rfl⟩
  | conditional condition whenTrue whenFalse =>
    exact ⟨_, by simp only [ofExpr, ← List.append_assoc]; rfl⟩

end Row

/-! ## Flattening -/

namespace Program

/-- The program that consists of the rows. -/
def ofRows (rows : List Row) : Program :=
  ⟨(rows.map Row.instruction).toArray, (rows.map Row.gates).toArray⟩

/-- The first places of the rows' subtrees. -/
def startsOf (rows : List Row) : Array Nat := (rows.map Row.start).toArray

@[simp] theorem size_ofRows (rows : List Row) : (ofRows rows).size = rows.length := by
  simp [size, ofRows]

theorem push_ofRows (rows : List Row) (instruction : Instruction) (start : Nat) :
    (ofRows rows).push instruction = ofRows (rows ++ [⟨instruction, start, []⟩]) := by
  simp [push, ofRows]

theorem push_startsOf (rows : List Row) (instruction : Instruction) (start : Nat)
    (gates : List Gate) :
    (startsOf rows).push start = startsOf (rows ++ [⟨instruction, start, gates⟩]) := by
  simp [startsOf]

theorem startsOf_guard (before rows : List Row) (gates : List Gate) :
    startsOf (before ++ Row.guard gates rows) = startsOf (before ++ rows) := by
  cases rows <;> simp [startsOf, Row.guard]

/-- A gate is put before those of the row at its place. -/
theorem addGate_ofRows {before : List Row} {gate : Gate} (h : gate.start = before.length)
    (rows : List Row) :
    (ofRows (before ++ rows)).addGate gate = ofRows (before ++ Row.guard [gate] rows) := by
  have hmodify : (before.map Row.gates ++ rows.map Row.gates).modify gate.start (gate :: ·) =
      before.map Row.gates ++ (rows.map Row.gates).modifyHead (gate :: ·) := by
    rw [List.modify_eq_take_drop, List.take_left' (by simp [h]), List.drop_left' (by simp [h])]
  cases rows <;> simp_all [addGate, ofRows, Row.guard]

/-- The first place of a subtree is recorded with its last instruction. -/
theorem startsOf_last {before : List Row} {place last : Nat} {expr : Expr}
    (hplace : place = before.length) (hlast : last = place + expr.size - 1) (after : List Row) :
    (startsOf (before ++ (Row.ofExpr place expr ++ after)))[last]?.getD 0 = place := by
  obtain ⟨operands, hrows⟩ := Row.exists_ofExpr_eq place expr
  have hlength := Row.length_ofExpr place expr
  rw [hrows, List.length_append, List.length_singleton] at hlength
  have hsplit : before ++ (Row.ofExpr place expr ++ after) =
      (before ++ operands) ++ ⟨.ofRoot expr, place, []⟩ :: after := by
    rw [hrows, List.append_assoc, List.append_assoc, List.singleton_append]
  rw [hsplit, startsOf, show last = (before ++ operands).length by rw [List.length_append]; omega]
  simp

theorem flattenFrom_of_next? {s t : Flattening} (h : s.next? = some t) : flattenFrom s = flattenFrom t := by
  rw [flattenFrom]
  split
  · next hnone => cases h.symm.trans hnone
  · next t' hsome => rw [Option.some.inj (hsome.symm.trans h)]

theorem flattenFrom_nil (program : Program) (starts : Array Nat) : flattenFrom ⟨program, starts, []⟩ = program := by
  rw [flattenFrom]
  rfl

/-- A root without a gate. -/
theorem flattenFrom_emit {rows : List Row} {instruction : Instruction} {start : Nat}
    {rest : List Task}
    (hgate : gateFor? instruction rows.length
      (startsOf (rows ++ [⟨instruction, start, []⟩])) = none) :
    flattenFrom ⟨ofRows rows, startsOf rows, .emit instruction start :: rest⟩ =
      flattenFrom ⟨ofRows (rows ++ [⟨instruction, start, []⟩]),
        startsOf (rows ++ [⟨instruction, start, []⟩]), rest⟩ := by
  apply flattenFrom_of_next?
  simp only [Flattening.next?, push_ofRows _ _ start, push_startsOf _ instruction _ [], size_ofRows, hgate]

/-- A root whose gate stands at the first of `rows`. -/
theorem flattenFrom_emit_gate {before rows : List Row} {instruction : Instruction} {start : Nat}
    {gate : Gate} {rest : List Task} (hne : rows ≠ []) (hstart : gate.start = before.length)
    (hgate : gateFor? instruction (before ++ rows).length
      (startsOf (before ++ (rows ++ [⟨instruction, start, []⟩]))) = some gate) :
    flattenFrom ⟨ofRows (before ++ rows), startsOf (before ++ rows), .emit instruction start :: rest⟩ =
      flattenFrom ⟨ofRows (before ++ (Row.guard [gate] rows ++ [⟨instruction, start, []⟩])),
        startsOf (before ++ (Row.guard [gate] rows ++ [⟨instruction, start, []⟩])), rest⟩ := by
  have hstarts := startsOf_guard before (rows ++ [⟨instruction, start, []⟩]) [gate]
  rw [Row.guard_append hne] at hstarts
  apply flattenFrom_of_next?
  simp only [Flattening.next?, push_ofRows _ _ start, push_startsOf _ instruction _ [], size_ofRows,
    List.append_assoc, hgate, addGate_ofRows hstart, Row.guard_append hne, hstarts]

/-- What the root of a node adds after the rows of its operands. -/
def EmitsRoot (before : List Row) (rest : List Task) (expr : Expr) : Prop :=
  flattenFrom ⟨ofRows (before ++ Row.ofExprs before.length expr.children),
      startsOf (before ++ Row.ofExprs before.length expr.children),
      .emit (.ofRoot expr) before.length :: rest⟩ =
    flattenFrom ⟨ofRows (before ++ Row.ofExpr before.length expr),
      startsOf (before ++ Row.ofExpr before.length expr), rest⟩

section Root

variable (before : List Row) (rest : List Task)

theorem emitsRoot_unary (symbol : String) (operand : Expr) : EmitsRoot before rest (.unary symbol operand) := by
  unfold EmitsRoot
  simp only [Expr.children, Row.ofExprs, List.append_nil, Row.ofExpr, Row.unaryGates]
  cases hop : UnaryOperator.ofSymbol? symbol with
  | none =>
    refine flattenFrom_emit_gate (Row.ofExpr_ne_nil _ _) (by rfl) ?_
    simp [gateFor?, Instruction.ofRoot, hop, startsOf, Row.length_ofExpr]
  | some op =>
    rw [flattenFrom_emit (by simp [gateFor?, Instruction.ofRoot, hop]), List.append_assoc,
      Row.guard_nil]
    rfl

theorem emitsRoot_binary (symbol : String) (left right : Expr) :
    EmitsRoot before rest (.binary symbol left right) := by
  unfold EmitsRoot
  -- the last row of the right operand has its start, where the gate of a deciding operator goes
  have hright := @startsOf_last (before ++ Row.ofExpr before.length left)
    (before.length + left.size) _ right (by simp [Row.length_ofExpr]) rfl
    [⟨.binary symbol, before.length, []⟩]
  simp only [Expr.children, Row.ofExprs, List.append_nil, Row.ofExpr, Row.binaryGates,
    Row.rightGates]
  cases hop : BinaryOperator.ofSymbol? symbol with
  | none =>
    rw [Row.guard_nil, ← List.append_assoc (Row.guard _ _),
      ← Row.guard_append (Row.ofExpr_ne_nil _ _)]
    refine flattenFrom_emit_gate (by simp [Row.ofExpr_ne_nil]) (by rfl) ?_
    simp [gateFor?, Instruction.ofRoot, hop, startsOf, Row.length_ofExpr, Nat.add_assoc]
  | some op =>
    rw [Row.guard_nil, ← List.append_assoc before, ← List.append_assoc before]
    cases op with
    | and | or =>
      refine flattenFrom_emit_gate (Row.ofExpr_ne_nil _ _) (by simp [Row.length_ofExpr]) ?_
      simp only [gateFor?, Instruction.ofRoot, hop, List.length_append, Row.length_ofExpr, hright]
    | _ =>
      rw [flattenFrom_emit (by simp [gateFor?, Instruction.ofRoot, hop]), List.append_assoc,
        Row.guard_nil]
      rfl

theorem emitsRoot_conditional (condition whenTrue whenFalse : Expr) :
    EmitsRoot before rest (.conditional condition whenTrue whenFalse) := by
  unfold EmitsRoot
  -- the two branches are found from behind: the second one by its last row, the first one by the row before that
  have hfalse := @startsOf_last (before ++ (Row.ofExpr before.length condition ++
      Row.ofExpr (before.length + condition.size) whenTrue))
    (before.length + condition.size + whenTrue.size)
    (before.length + (condition.size + (whenTrue.size + whenFalse.size)) - 1) whenFalse
    (by simp [Row.length_ofExpr, Nat.add_assoc]) (by omega) [⟨.select, before.length, []⟩]
  have htrue := @startsOf_last (before ++ Row.ofExpr before.length condition)
    (before.length + condition.size) _ whenTrue (by simp [Row.length_ofExpr]) rfl
    (Row.ofExpr (before.length + condition.size + whenTrue.size) whenFalse ++
      [⟨.select, before.length, []⟩])
  simp only [List.append_assoc] at hfalse htrue
  simp only [Expr.children, Row.ofExprs, List.append_nil, Row.ofExpr]
  rw [← List.append_assoc before, ← List.append_assoc before, ← List.append_assoc (Row.guard _ _),
    ← Row.guard_append (Row.ofExpr_ne_nil _ _)]
  refine flattenFrom_emit_gate (by simp [Row.ofExpr_ne_nil]) (by simp [Row.length_ofExpr]) ?_
  simp only [gateFor?, Instruction.ofRoot, List.append_assoc, List.length_append,
    Row.length_ofExpr, hfalse, htrue]
  simp only [Nat.add_assoc]

theorem emitsRoot (expr : Expr) : EmitsRoot before rest expr := by
  cases expr with
  | boolean | number | text | «variable» =>
    rw [EmitsRoot, flattenFrom_emit rfl, List.append_assoc]
    rfl
  | call name args =>
    rw [EmitsRoot, flattenFrom_emit rfl, List.append_assoc]
    rfl
  | unary symbol operand => exact emitsRoot_unary before rest symbol operand
  | binary symbol left right => exact emitsRoot_binary before rest symbol left right
  | conditional condition whenTrue whenFalse =>
    exact emitsRoot_conditional before rest condition whenTrue whenFalse

end Root

theorem flattenFrom_visits {exprs : List Expr}
    (h : ∀ expr ∈ exprs, ∀ before rest,
      flattenFrom ⟨ofRows before, startsOf before, .visit expr :: rest⟩ =
        flattenFrom ⟨ofRows (before ++ Row.ofExpr before.length expr),
          startsOf (before ++ Row.ofExpr before.length expr), rest⟩)
    (before : List Row) (rest : List Task) :
    flattenFrom ⟨ofRows before, startsOf before, exprs.map .visit ++ rest⟩ =
      flattenFrom ⟨ofRows (before ++ Row.ofExprs before.length exprs),
        startsOf (before ++ Row.ofExprs before.length exprs), rest⟩ := by
  induction exprs generalizing before with
  | nil => simp [Row.ofExprs]
  | cons expr exprs ih =>
    rw [List.map_cons, List.cons_append, h expr List.mem_cons_self,
      ih fun e he => h e (List.mem_cons_of_mem _ he)]
    simp [Row.ofExprs, Row.length_ofExpr, List.append_assoc]

/-- **Flattening.** A visited tree adds its rows to those before it. -/
theorem flattenFrom_visit (expr : Expr) : ∀ (before : List Row) (rest : List Task),
    flattenFrom ⟨ofRows before, startsOf before, .visit expr :: rest⟩ =
      flattenFrom ⟨ofRows (before ++ Row.ofExpr before.length expr),
        startsOf (before ++ Row.ofExpr before.length expr), rest⟩ := by
  induction expr using Expr.inductChildren with
  | step expr ih =>
    intro before rest
    rw [flattenFrom_of_next? rfl, flattenFrom_visits ih, size_ofRows, emitsRoot]

theorem ofExpr_eq (expr : Expr) : ofExpr expr = ofRows (Row.ofExpr 0 expr) := by
  have h := flattenFrom_visit expr [] []
  rw [flattenFrom_nil] at h
  exact h

end Program

end Postfix

end Formulary
