import Formulary.Proofs.Expr.Postorder
import Formulary.Proofs.Postfix.Layout

/-!
# The boundaries in a program

Flattening keeps for each instruction the place where its subtree starts, and the gates are found from these places
alone. The instructions are the nodes in postorder, the places are right, and each gate stands over the operands that
its operator may leave out (`Program.flattening_records_boundaries`).

1. What remains to be done fills the places that follow (`Plans`), and the starts that are recorded fit the nodes at
   their places (`Records`). Both hold at every point, since a visited tree is replaced by its children and its root,
   which fill the places of the tree.
2. The operand before an instruction ends there, so its start is recorded one place before, and the one before that is
   found in the same way (`Records.exists_place`). So no place before the first is ever asked for (`GateReads`), and
   the gate is the one over the operands (`Gate.Guards`).
3. A gate is added when its range ends. So at one place the wider ranges come first, and a range that ends earlier is
   the range of operands of a node which lies in the other or before it (`Gate.Guards.disjoint_or_inside`).
-/

namespace Formulary

namespace Postfix

/-! ## Gates and operands -/

/-- A node some operands of which may be left out. -/
def Gated : Expr → Prop
  | .unary symbol _ => UnaryOperator.ofSymbol? symbol = none
  | .binary symbol _ _ => BinaryOperator.ofSymbol? symbol ∈ [none, some .and, some .or]
  | .conditional .. => True
  | _ => False

/-- The range of a gate lies in that of another one. -/
def Gate.Inside (a b : Gate) : Prop := b.start ≤ a.start ∧ a.stop ≤ b.stop

/-- A gate and the node of the operands over which it stands. -/
inductive Gate.Guards (order : List Expr) : Gate → Expr → Prop where
  | right {start stop : Nat} {and : Bool} {symbol : String} {left right : Expr}
      (hop : BinaryOperator.ofSymbol? symbol = some (if and then .and else .or))
      (hright : Fills order start stop [right]) : Guards order ⟨start, stop, .right and⟩ (.binary symbol left right)
  | branches {start second stop : Nat} {condition whenTrue whenFalse : Expr}
      (htrue : Fills order start second [whenTrue]) (hfalse : Fills order second stop [whenFalse]) :
      Guards order ⟨start, stop, .branches second⟩ (.conditional condition whenTrue whenFalse)
  | unary {start stop : Nat} {symbol : String} {operand : Expr} (hop : UnaryOperator.ofSymbol? symbol = none)
      (hoperand : Fills order start stop [operand]) :
      Guards order ⟨start, stop, .unreachable 1⟩ (.unary symbol operand)
  | binary {start stop : Nat} {symbol : String} {left right : Expr} (hop : BinaryOperator.ofSymbol? symbol = none)
      (hoperands : Fills order start stop [left, right]) :
      Guards order ⟨start, stop, .unreachable 2⟩ (.binary symbol left right)

namespace Gate.Guards

variable {order : List Expr} {gate : Gate} {node : Expr}

/-- The range is filled by operands of the node. -/
theorem exists_operands (h : gate.Guards order node) :
    ∃ operands, Fills order gate.start gate.stop operands ∧ Expr.sizeAll operands < node.size := by
  cases h with
  | right _ hright =>
    refine ⟨_, hright, ?_⟩
    simp only [Expr.sizeAll, Expr.size]
    omega
  | branches htrue hfalse =>
    refine ⟨_, htrue.concat hfalse, ?_⟩
    simp only [Expr.sizeAll, Expr.size, List.singleton_append]
    omega
  | unary _ hoperand =>
    refine ⟨_, hoperand, ?_⟩
    simp only [Expr.sizeAll, Expr.size]
    omega
  | binary _ hoperands =>
    refine ⟨_, hoperands, ?_⟩
    simp only [Expr.sizeAll, Expr.size]
    omega

theorem start_le (h : gate.Guards order node) : gate.start ≤ gate.stop := by
  obtain ⟨operands, hfills, -⟩ := h.exists_operands
  have := hfills.stop_eq
  omega

/-- A node has one gate at most. -/
theorem unique {other : Gate} (h : gate.Guards order node) (hother : other.Guards order node)
    (hstop : gate.stop = other.stop) : gate = other := by
  have hsame : ∀ and and' : Bool,
      some (if and then BinaryOperator.and else .or) = some (if and' then .and else .or) → and = and' := by decide
  cases h with
  | right hop hright =>
    cases hother with
    | right hop' hright' =>
      cases hstop
      obtain rfl := hright.start_unique hright'
      obtain rfl := hsame _ _ (hop.symm.trans hop')
      rfl
    | binary hop' _ => exact nomatch hop.symm.trans hop'
  | branches htrue hfalse =>
    cases hother with
    | branches htrue' hfalse' =>
      cases hstop
      obtain rfl := hfalse.start_unique hfalse'
      obtain rfl := htrue.start_unique htrue'
      rfl
  | unary _ hoperand =>
    cases hother with
    | unary _ hoperand' =>
      cases hstop
      obtain rfl := hoperand.start_unique hoperand'
      rfl
  | binary hop hoperands =>
    cases hother with
    | right hop' _ => exact nomatch hop.symm.trans hop'
    | binary _ hoperands' =>
      cases hstop
      obtain rfl := hoperands.start_unique hoperands'
      rfl

/-- A range that ends earlier than another lies before it or inside. -/
theorem disjoint_or_inside {other : Gate} {node' : Expr} (h : gate.Guards order node)
    (hother : other.Guards order node') (hnode : order[gate.stop]? = some node) (hstop : gate.stop < other.stop) :
    gate.stop ≤ other.start ∨ other.start ≤ gate.start := by
  obtain ⟨operands, hfills, hsize⟩ := h.exists_operands
  obtain ⟨operands', hfills', -⟩ := hother.exists_operands
  rcases Nat.lt_or_ge gate.stop other.start with hbefore | hinside
  · exact .inl (Nat.le_of_lt hbefore)
  · have hle := hfills'.size_le hnode hinside hstop
    have := hfills.stop_eq
    exact .inr (by omega)

end Gate.Guards

/-! ## Recorded starts -/

/-- The starts of the subtrees of the first nodes. -/
def Records (order : List Expr) (starts : Array Nat) : Prop :=
  ∀ i start, starts[i]? = some start → ∃ node, order[i]? = some node ∧ start + node.size = i + 1

/-- What is read to find the gate of an instruction is recorded, and no place before the first is asked for. -/
def GateReads (starts : Array Nat) (place : Nat) : Instruction → Prop
  | .unary _ => place < starts.size
  | .binary symbol =>
    place < starts.size ∧ (BinaryOperator.ofSymbol? symbol ∈ [some .and, some .or] → 1 ≤ place)
  | .select => 1 ≤ place ∧ place - 1 < starts.size ∧
    ∃ second, starts[place - 1]? = some second ∧ 1 ≤ second ∧ second - 1 < starts.size
  | _ => True

namespace Records

variable {order : List Expr} {starts : Array Nat}

/-- The start of a tree is found one place before its end. -/
theorem exists_place (h : Records order starts) {start stop : Nat} {node : Expr}
    (hfills : Fills order start stop [node]) (hstop : stop ≤ starts.size) :
    ∃ place, stop = place + 1 ∧ place < starts.size ∧ starts[place]? = some start := by
  have hsize := hfills.stop_eq
  rw [Expr.sizeAll_singleton] at hsize
  obtain ⟨place, rfl, hroot, -⟩ := hfills.root
  have hsome : starts[place]? = some starts[place] := Array.getElem?_eq_getElem (by omega)
  obtain ⟨node', hnode, hstart⟩ := h _ _ hsome
  obtain rfl := Option.some.inj (hroot.symm.trans hnode)
  exact ⟨place, rfl, by omega, by rw [hsome]; congr 1; omega⟩

theorem push (h : Records order starts) {start : Nat} {node : Expr}
    (hfills : Fills order start (starts.size + 1) [node]) : Records order (starts.push start) := by
  intro i start' hi
  have hsize := hfills.stop_eq
  rw [Expr.sizeAll_singleton] at hsize
  obtain ⟨place, hplace, hroot, -⟩ := hfills.root
  obtain rfl : starts.size = place := by omega
  rw [Array.getElem?_push] at hi
  split at hi
  · next hlast =>
    obtain rfl := Option.some.inj hi
    exact ⟨node, by rwa [hlast], by omega⟩
  · exact h i start' hi

variable {place start : Nat} {node : Expr}

theorem gateReads (h : Records order starts) (hplace : place < starts.size)
    (hfills : Fills order start (place + 1) [node]) : GateReads starts place (.ofRoot node) := by
  obtain ⟨place, hend, -, hchildren⟩ := hfills.root
  obtain rfl := Nat.succ.inj hend
  cases node with
  | boolean | number | text | «variable» | call => trivial
  | unary => exact hplace
  | binary symbol left right =>
    obtain ⟨middle, -, hright⟩ := hchildren.cons
    obtain ⟨last, rfl, -, -⟩ := h.exists_place hright (by omega)
    exact ⟨hplace, fun _ => Nat.le_add_left 1 last⟩
  | conditional condition whenTrue whenFalse =>
    obtain ⟨first, -, hbranches⟩ := hchildren.cons
    obtain ⟨second, htrue, hfalse⟩ := hbranches.cons
    obtain ⟨last, rfl, hlast, hsecond⟩ := h.exists_place hfalse (by omega)
    have hle := hfalse.stop_eq
    obtain ⟨before, rfl, hbefore, -⟩ := h.exists_place htrue (by omega)
    exact ⟨Nat.le_add_left 1 last, hlast, before + 1, hsecond, Nat.le_add_left 1 before, hbefore⟩

/-- The gate found from the starts is the one over the operands. -/
theorem gateFor?_cases (h : Records order starts) (hplace : place < starts.size)
    (hfills : Fills order start (place + 1) [node]) :
    ¬ Gated node ∧ Program.gateFor? (.ofRoot node) place starts = none ∨
      ∃ gate, Program.gateFor? (.ofRoot node) place starts = some gate ∧ gate.stop = place ∧
        gate.Guards order node := by
  obtain ⟨self, hself, -, hstart⟩ := h.exists_place hfills hplace
  obtain rfl := Nat.succ.inj hself
  obtain ⟨end', hend, -, hchildren⟩ := hfills.root
  obtain rfl := Nat.succ.inj hend
  cases node with
  | boolean | number | text | «variable» | call => exact .inl ⟨id, rfl⟩
  | unary symbol operand =>
    cases hop : UnaryOperator.ofSymbol? symbol with
    | none =>
      refine .inr ⟨⟨start, place, .unreachable 1⟩, ?_, rfl, .unary hop hchildren⟩
      simp [Program.gateFor?, Instruction.ofRoot, hop, hstart]
    | some op => exact .inl ⟨by simp [Gated, hop], by simp [Program.gateFor?, Instruction.ofRoot, hop]⟩
  | binary symbol left right =>
    obtain ⟨middle, -, hright⟩ := hchildren.cons
    obtain ⟨last, rfl, -, hmiddle⟩ := h.exists_place hright (by omega)
    cases hop : BinaryOperator.ofSymbol? symbol with
    | none =>
      refine .inr ⟨⟨start, last + 1, .unreachable 2⟩, ?_, rfl, .binary hop hchildren⟩
      simp [Program.gateFor?, Instruction.ofRoot, hop, hstart]
    | some op =>
      cases op with
      | and =>
        refine .inr ⟨⟨middle, last + 1, .right true⟩, ?_, rfl, .right hop hright⟩
        simp [Program.gateFor?, Instruction.ofRoot, hop, hmiddle]
      | or =>
        refine .inr ⟨⟨middle, last + 1, .right false⟩, ?_, rfl, .right hop hright⟩
        simp [Program.gateFor?, Instruction.ofRoot, hop, hmiddle]
      | _ => exact .inl ⟨by simp [Gated, hop], by simp [Program.gateFor?, Instruction.ofRoot, hop]⟩
  | conditional condition whenTrue whenFalse =>
    obtain ⟨first, -, hbranches⟩ := hchildren.cons
    obtain ⟨second, htrue, hfalse⟩ := hbranches.cons
    obtain ⟨last, rfl, -, hsecond⟩ := h.exists_place hfalse (by omega)
    have hle := hfalse.stop_eq
    obtain ⟨before, rfl, -, hfirst⟩ := h.exists_place htrue (by omega)
    refine .inr ⟨⟨first, last + 1, .branches (before + 1)⟩, ?_, rfl, .branches htrue hfalse⟩
    simp [Program.gateFor?, Instruction.ofRoot, hsecond, hfirst]

end Records

/-! ## Added gates -/

namespace Program

@[simp] theorem size_push (program : Program) (instruction : Instruction) :
    (program.push instruction).size = program.size + 1 := Array.size_push _

@[simp] theorem size_addGate (program : Program) (gate : Gate) : (program.addGate gate).size = program.size := rfl

@[simp] theorem gatesAt_push (program : Program) (instruction : Instruction) (place : Nat) :
    (program.push instruction).gatesAt place = program.gatesAt place := by
  rw [gatesAt, push, Array.getElem?_push]
  split
  · next hplace => rw [gatesAt, hplace, Array.getElem?_eq_none (Nat.le_refl _)]; rfl
  · rfl

theorem gatesAt_addGate {program : Program} {gate : Gate} (h : gate.start < program.gates.size) (place : Nat) :
    (program.addGate gate).gatesAt place =
      if gate.start = place then gate :: program.gatesAt place else program.gatesAt place := by
  rw [gatesAt, addGate, Array.getElem?_modify]
  split
  · next hplace =>
    subst hplace
    rw [gatesAt, Array.getElem?_eq_getElem h]
    rfl
  · rfl

theorem mem_gatesAt_addGate {program : Program} {gate other : Gate} (h : gate.start < program.gates.size)
    {place : Nat} : other ∈ (program.addGate gate).gatesAt place ↔
      other = gate ∧ gate.start = place ∨ other ∈ program.gatesAt place := by
  rw [gatesAt_addGate h]
  split <;> simp_all

/-- The gates of a program stand over the operands of its nodes. -/
structure Guarded (order : List Expr) (program : Program) : Prop where
  gates_size : program.gates.size = program.size
  start_eq {place : Nat} {gate : Gate} : gate ∈ program.gatesAt place → gate.start = place
  guards {place : Nat} {gate : Gate} : gate ∈ program.gatesAt place →
    gate.stop < program.size ∧ ∃ node, order[gate.stop]? = some node ∧ gate.Guards order node
  complete {place : Nat} {node : Expr} : place < program.size → order[place]? = some node → Gated node →
    ∃ gate, gate ∈ program.gatesAt gate.start ∧ gate.stop = place
  sorted (place : Nat) : (program.gatesAt place).Pairwise fun a b => b.stop < a.stop

namespace Guarded

variable {order : List Expr} {program : Program} {node : Expr}

theorem push (h : Guarded order program) (hnode : order[program.size]? = some node) (hgated : ¬ Gated node)
    (instruction : Instruction) : Guarded order (program.push instruction) where
  gates_size := by rw [size_push, ← h.gates_size]; exact Array.size_push _
  start_eq hgate := h.start_eq (by rwa [gatesAt_push] at hgate)
  guards hgate := by
    rw [gatesAt_push] at hgate
    obtain ⟨hstop, hguards⟩ := h.guards hgate
    exact ⟨by rw [size_push]; omega, hguards⟩
  complete {place other} hplace hother hgate := by
    rw [size_push] at hplace
    rcases Nat.lt_succ_iff_lt_or_eq.1 hplace with hlt | rfl
    · obtain ⟨gate, hmem, hstop⟩ := h.complete hlt hother hgate
      exact ⟨gate, by rwa [gatesAt_push], hstop⟩
    · obtain rfl := Option.some.inj (hnode.symm.trans hother)
      exact absurd hgate hgated
  sorted place := by
    rw [gatesAt_push]
    exact h.sorted place

theorem push_gate (h : Guarded order program) (hnode : order[program.size]? = some node) {gate : Gate}
    (hguards : gate.Guards order node) (hstop : gate.stop = program.size) (instruction : Instruction) :
    Guarded order ((program.push instruction).addGate gate) := by
  have hgates : (program.push instruction).gates.size = program.size + 1 := by
    rw [← h.gates_size]
    exact Array.size_push _
  have hstart : gate.start < (program.push instruction).gates.size := by
    have := hguards.start_le
    omega
  refine ⟨?_, ?_, ?_, ?_, ?_⟩
  · rw [size_addGate, size_push, ← hgates]
    exact Array.size_modify
  · intro place other hother
    rcases (mem_gatesAt_addGate hstart).1 hother with ⟨rfl, hplace⟩ | hother
    · exact hplace
    · exact h.start_eq (by rwa [gatesAt_push] at hother)
  · intro place other hother
    rw [size_addGate, size_push]
    rcases (mem_gatesAt_addGate hstart).1 hother with ⟨rfl, -⟩ | hother
    · exact ⟨by omega, node, by rwa [hstop], hguards⟩
    · rw [gatesAt_push] at hother
      obtain ⟨hlt, hother⟩ := h.guards hother
      exact ⟨by omega, hother⟩
  · intro place other hplace hother hgated
    rw [size_addGate, size_push] at hplace
    rcases Nat.lt_succ_iff_lt_or_eq.1 hplace with hlt | rfl
    · obtain ⟨gate', hmem, hstop'⟩ := h.complete hlt hother hgated
      exact ⟨gate', (mem_gatesAt_addGate hstart).2 (.inr (by rwa [gatesAt_push])), hstop'⟩
    · exact ⟨gate, (mem_gatesAt_addGate hstart).2 (.inl ⟨rfl, rfl⟩), hstop⟩
  · intro place
    have hsorted := h.sorted place
    rw [gatesAt_addGate hstart, gatesAt_push]
    split
    -- the gates at its place were made before, and so they stop before it
    · refine List.pairwise_cons.2 ⟨fun other hother => ?_, hsorted⟩
      rw [hstop]
      exact (h.guards hother).1
    · exact hsorted

end Guarded

/-! ## The run -/

/-- The tasks fill the places from the first one left on. -/
inductive Plans (order : List Expr) : Nat → List Task → Prop where
  | done : Plans order order.length []
  | visit {start stop : Nat} {expr : Expr} {rest : List Task} (hfills : Fills order start stop [expr])
      (hrest : Plans order stop rest) : Plans order start (.visit expr :: rest)
  | emit {place start : Nat} {node : Expr} {rest : List Task} (hfills : Fills order start (place + 1) [node])
      (hrest : Plans order (place + 1) rest) : Plans order place (.emit (.ofRoot node) start :: rest)

theorem Plans.of_visit {order : List Expr} {start : Nat} {expr : Expr} {rest : List Task}
    (h : Plans order start (.visit expr :: rest)) : ∃ stop, Fills order start stop [expr] ∧ Plans order stop rest := by
  cases h with
  | visit hfills hrest => exact ⟨_, hfills, hrest⟩

theorem Plans.of_emit {order : List Expr} {place start : Nat} {instruction : Instruction} {rest : List Task}
    (h : Plans order place (.emit instruction start :: rest)) :
    ∃ node, instruction = .ofRoot node ∧ Fills order start (place + 1) [node] ∧ Plans order (place + 1) rest := by
  cases h with
  | emit hfills hrest => exact ⟨_, rfl, hfills, hrest⟩

theorem Plans.visits {order exprs : List Expr} {start stop : Nat} {rest : List Task}
    (hfills : Fills order start stop exprs) (hrest : Plans order stop rest) :
    Plans order start (exprs.map .visit ++ rest) := by
  induction exprs generalizing start with
  | nil =>
    have hstop : stop = start := hfills.stop_eq
    rwa [List.map_nil, List.nil_append, ← hstop]
  | cons expr exprs ih =>
    obtain ⟨middle, hfirst, hothers⟩ := hfills.cons
    exact .visit hfirst (ih hothers)

namespace Flattening

/-- What holds at every point of flattening a tree. -/
structure Sound (order : List Expr) (s : Flattening) : Prop where
  plans : Plans order s.program.size s.tasks
  instructions : s.program.instructions.toList = (order.take s.program.size).map .ofRoot
  starts_size : s.starts.size = s.program.size
  records : Records order s.starts
  guarded : s.program.Guarded order

/-- The points that flattening a tree goes through. -/
inductive Reached (expr : Expr) : Flattening → Prop where
  | start : Reached expr ⟨empty, #[], [.visit expr]⟩
  | next {s t : Flattening} (h : Reached expr s) (hnext : s.next? = some t) : Reached expr t

theorem sound_start (expr : Expr) : Sound expr.postorder ⟨empty, #[], [.visit expr]⟩ where
  plans := by
    have hself := Fills.self [expr]
    rw [Expr.postorderAll_singleton, Expr.sizeAll_singleton, ← Expr.length_postorder] at hself
    exact .visit hself .done
  instructions := rfl
  starts_size := rfl
  records i start h := by simp at h
  guarded := ⟨rfl, by simp [gatesAt, empty], by simp [gatesAt, empty], by simp [size, empty], by simp [gatesAt, empty]⟩

theorem Sound.emit {order : List Expr} {program : Program} {starts : Array Nat} {instruction : Instruction}
    {start : Nat} {rest : List Task} {t : Flattening}
    (h : Sound order ⟨program, starts, .emit instruction start :: rest⟩)
    (hnext : Flattening.next? ⟨program, starts, .emit instruction start :: rest⟩ = some t) : Sound order t := by
  obtain ⟨hplans, hinstructions, hsize, hrecords, hguarded⟩ := h
  dsimp only at hplans hinstructions hsize hrecords hguarded
  obtain ⟨node, rfl, hfills, hrest⟩ := hplans.of_emit
  have hpushed : Records order (starts.push start) := hrecords.push (by rwa [hsize])
  obtain ⟨place, hplace, hroot, -⟩ := hfills.root
  obtain rfl := Nat.succ.inj hplace
  have htaken : (program.push (.ofRoot node)).instructions.toList =
      (order.take (program.size + 1)).map .ofRoot := by
    rw [List.take_add_one, hroot, List.map_append, ← hinstructions]
    exact Array.toList_push
  obtain ⟨hgated, hgate⟩ | ⟨gate, hgate, hstop, hguards⟩ :=
    hpushed.gateFor?_cases (by rw [Array.size_push, hsize]; exact Nat.lt_succ_self _) hfills
  · simp only [next?, hgate] at hnext
    obtain rfl := Option.some.inj hnext
    exact ⟨by rwa [size_push], by rwa [size_push], by simp [hsize], hpushed, hguarded.push hroot hgated _⟩
  · simp only [next?, hgate] at hnext
    obtain rfl := Option.some.inj hnext
    exact ⟨by rwa [size_addGate, size_push], by rwa [size_addGate, size_push], by simp [hsize], hpushed,
      hguarded.push_gate hroot hguards hstop _⟩

/-- **Turns.** What holds at a point holds at the next one. -/
theorem Sound.next {order : List Expr} {s t : Flattening} (h : Sound order s) (hnext : s.next? = some t) :
    Sound order t := by
  obtain ⟨program, starts, tasks⟩ := s
  cases tasks with
  | nil => exact nomatch hnext
  | cons task rest =>
    cases task with
    | emit instruction start => exact h.emit hnext
    | visit expr =>
      obtain ⟨hplans, hinstructions, hsize, hrecords, hguarded⟩ := h
      obtain rfl := Option.some.inj hnext
      obtain ⟨stop, hfills, hrest⟩ := hplans.of_visit
      obtain ⟨place, rfl, -, hchildren⟩ := hfills.root
      exact ⟨.visits hchildren (.emit hfills hrest), hinstructions, hsize, hrecords, hguarded⟩

theorem tasks_of_next?_eq_none {s : Flattening} (h : s.next? = none) : s.tasks = [] := by
  obtain ⟨program, starts, tasks⟩ := s
  cases tasks with
  | nil => rfl
  | cons task rest => cases task <;> exact nomatch h

namespace Reached

variable {expr : Expr} {s : Flattening}

theorem sound (h : Reached expr s) : Sound expr.postorder s := by
  induction h with
  | start => exact sound_start expr
  | next _ hnext ih => exact ih.next hnext

theorem flattenFrom_eq (h : Reached expr s) : flattenFrom s = ofExpr expr := by
  induction h with
  | start => rfl
  | next _ hnext ih => rw [← ih, flattenFrom_of_next? hnext]

/-- The last point has the program of the tree. -/
theorem exists_end (h : Reached expr s) : ∃ starts, Reached expr ⟨ofExpr expr, starts, []⟩ := by
  -- on the cost of the tasks, which every turn lowers
  induction hcost : totalCost s.tasks using Nat.strongRecOn generalizing s with
  | ind cost ih =>
    cases hnext : s.next? with
    | some t => exact ih _ (hcost ▸ totalCost_next?_lt hnext) (h.next hnext) rfl
    | none =>
      have htasks := tasks_of_next?_eq_none hnext
      obtain ⟨program, starts, tasks⟩ := s
      dsimp only at htasks
      subst htasks
      have heq := h.flattenFrom_eq
      rw [flattenFrom_nil] at heq
      exact ⟨starts, heq ▸ h⟩

end Reached

end Flattening

/-- Each place has the instruction of its node, the start of the node's subtree and what finding its gate reads. -/
theorem Flattening.Sound.exists_node {expr : Expr} {s : Flattening} (h : s.Sound expr.postorder) {place : Nat}
    (hplace : place < s.program.size) : ∃ node start, expr.postorder[place]? = some node ∧
      s.program.instructions[place]? = some (.ofRoot node) ∧ s.starts[place]? = some start ∧
      start + node.countNodes = place + 1 ∧ GateReads s.starts place (.ofRoot node) := by
  have hlt : place < s.starts.size := by rwa [h.starts_size]
  have hstart : s.starts[place]? = some s.starts[place] := Array.getElem?_eq_getElem hlt
  obtain ⟨node, hnode, hsize⟩ := h.records _ _ hstart
  obtain ⟨first, hfills⟩ := Expr.exists_fills hnode
  refine ⟨node, _, hnode, ?_, hstart, by rwa [Expr.countNodes_eq_size], h.records.gateReads hlt hfills⟩
  rw [← Array.getElem?_toList, h.instructions, List.getElem?_map, List.getElem?_take_of_lt hplace, hnode]
  rfl

/-- When no task is left, each node has its instruction. -/
theorem Flattening.Sound.size_eq {order : List Expr} {program : Program} {starts : Array Nat}
    (h : Sound order ⟨program, starts, []⟩) : program.size = order.length := by
  obtain ⟨hplans, -, -, -, -⟩ := h
  dsimp only at hplans
  generalize program.size = place at hplans
  cases hplans
  rfl

/-! ## The gates in order -/

/-- All gates, by the places where they stand. -/
def gateList (program : Program) : List Gate := program.gates.toList.flatten

theorem mem_gateList {program : Program} {gate : Gate} :
    gate ∈ program.gateList ↔ ∃ place, gate ∈ program.gatesAt place := by
  simp only [gateList, List.mem_flatten, gatesAt]
  constructor
  · rintro ⟨gates, hgates, hgate⟩
    obtain ⟨place, hplace⟩ := List.mem_iff_getElem?.1 hgates
    rw [Array.getElem?_toList] at hplace
    exact ⟨place, by rwa [hplace]⟩
  · rintro ⟨place, hgate⟩
    cases hplace : program.gates[place]? with
    | none => exact absurd hgate (by simp [hplace])
    | some gates =>
      rw [hplace] at hgate
      rw [← Array.getElem?_toList] at hplace
      exact ⟨gates, List.mem_iff_getElem?.2 ⟨place, hplace⟩, hgate⟩

namespace Guarded

variable {order : List Expr} {program : Program}

theorem mem_gatesAt (h : Guarded order program) {place : Nat} {gate : Gate} :
    gate ∈ program.gatesAt place ↔ gate ∈ program.gateList ∧ gate.start = place := by
  constructor
  · exact fun hgate => ⟨mem_gateList.2 ⟨place, hgate⟩, h.start_eq hgate⟩
  · rintro ⟨hgate, rfl⟩
    obtain ⟨place, hplace⟩ := mem_gateList.1 hgate
    rwa [h.start_eq hplace]

theorem pairwise_gateList (h : Guarded order program) :
    program.gateList.Pairwise fun a b => a.start < b.start ∨ a.start = b.start ∧ b.stop < a.stop := by
  have hat {place : Nat} (hplace : place < program.gates.toList.length) :
      program.gates.toList[place] = program.gatesAt place := by
    rw [gatesAt, Array.getElem?_eq_getElem hplace]
    rfl
  refine List.pairwise_flatten.2 ⟨fun gates hgates => ?_, List.pairwise_iff_getElem.2 fun i j hi hj hlt a ha b hb => ?_⟩
  · obtain ⟨place, hplace, rfl⟩ := List.mem_iff_getElem.1 hgates
    rw [hat hplace]
    refine (h.sorted place).imp_of_mem fun ha hb hstop => .inr ⟨?_, hstop⟩
    rw [h.start_eq ha, h.start_eq hb]
  · rw [hat hi] at ha
    rw [hat hj] at hb
    rw [h.start_eq ha, h.start_eq hb]
    exact .inl hlt

theorem exists_guards (h : Guarded order program) {gate : Gate} (hgate : gate ∈ program.gateList) :
    ∃ node, order[gate.stop]? = some node ∧ gate.Guards order node := by
  obtain ⟨place, hplace⟩ := mem_gateList.1 hgate
  exact (h.guards hplace).2

theorem exists_unique_gate (h : Guarded order program) {place : Nat} {node : Expr} (hplace : place < program.size)
    (hnode : order[place]? = some node) (hgated : Gated node) :
    ∃ gate, gate ∈ program.gateList ∧ gate.stop = place ∧
      ∀ other ∈ program.gateList, other.stop = place → other = gate := by
  obtain ⟨gate, hgate, rfl⟩ := h.complete hplace hnode hgated
  refine ⟨gate, mem_gateList.2 ⟨_, hgate⟩, rfl, ?_⟩
  intro other hother hstop
  obtain ⟨node', hnode', hguards'⟩ := h.exists_guards hother
  obtain ⟨node'', hnode'', hguards⟩ := (h.guards hgate).2
  rw [hstop, hnode''] at hnode'
  obtain rfl := Option.some.inj hnode'
  exact hguards'.unique hguards hstop

/-- Two ranges have no place in common, or one lies in the other. -/
theorem nested_or_disjoint (h : Guarded order program) {a b : Gate} (ha : a ∈ program.gateList)
    (hb : b ∈ program.gateList) : a.Inside b ∨ b.Inside a ∨ a.stop ≤ b.start ∨ b.stop ≤ a.start := by
  obtain ⟨node, hnode, hguards⟩ := h.exists_guards ha
  obtain ⟨node', hnode', hguards'⟩ := h.exists_guards hb
  rcases Nat.lt_trichotomy a.stop b.stop with hlt | heq | hlt
  · rcases hguards.disjoint_or_inside hguards' hnode hlt with hbefore | hinside
    · exact .inr (.inr (.inl hbefore))
    · exact .inl ⟨hinside, Nat.le_of_lt hlt⟩
  · rw [heq, hnode'] at hnode
    obtain rfl := Option.some.inj hnode
    obtain rfl := hguards.unique hguards' heq
    exact .inl ⟨Nat.le_refl _, Nat.le_refl _⟩
  · rcases hguards'.disjoint_or_inside hguards hnode' hlt with hbefore | hinside
    · exact .inr (.inr (.inr hbefore))
    · exact .inr (.inl ⟨hinside, Nat.le_of_lt hlt⟩)

end Guarded

/-- **Boundaries.** A program has the nodes in postorder. At every point of flattening, the start that is recorded for
a node is as many places back as its subtree has nodes, and finding the gates reads recorded starts only, none of them
before the first. The gates are those over the operands of the nodes that may leave operands out, one for each, and the
machine meets them at the places where they stand. Those at one place have the wider ranges first, and two ranges are
nested or have no place in common. -/
theorem flattening_records_boundaries (expr : Expr) :
    (ofExpr expr).instructions.toList = expr.postorder.map .ofRoot ∧
      (ofExpr expr).size = expr.countNodes ∧
      (∃ starts, Flattening.Reached expr ⟨ofExpr expr, starts, []⟩) ∧
      (∀ s, Flattening.Reached expr s → s.starts.size = s.program.size ∧
        ∀ place < s.program.size, ∃ node start, expr.postorder[place]? = some node ∧
          s.program.instructions[place]? = some (.ofRoot node) ∧ s.starts[place]? = some start ∧
          start + node.countNodes = place + 1 ∧ GateReads s.starts place (.ofRoot node)) ∧
      (∀ gate ∈ (ofExpr expr).gateList,
        ∃ node, expr.postorder[gate.stop]? = some node ∧ gate.Guards expr.postorder node) ∧
      (∀ place node, expr.postorder[place]? = some node → Gated node →
        ∃ gate, gate ∈ (ofExpr expr).gateList ∧ gate.stop = place ∧
          ∀ other ∈ (ofExpr expr).gateList, other.stop = place → other = gate) ∧
      (∀ place gate, gate ∈ (ofExpr expr).gatesAt place ↔ gate ∈ (ofExpr expr).gateList ∧ gate.start = place) ∧
      ((ofExpr expr).gateList.Pairwise fun a b => a.start < b.start ∨ a.start = b.start ∧ b.stop < a.stop) ∧
      (∀ a ∈ (ofExpr expr).gateList, ∀ b ∈ (ofExpr expr).gateList,
        a.Inside b ∨ b.Inside a ∨ a.stop ≤ b.start ∨ b.stop ≤ a.start) := by
  obtain ⟨starts, hend⟩ := (Flattening.Reached.start : Flattening.Reached expr _).exists_end
  have hsound := hend.sound
  have hguarded : (ofExpr expr).Guarded expr.postorder := hsound.guarded
  have hlength : (ofExpr expr).size = expr.postorder.length := hsound.size_eq
  refine ⟨?_, ?_, ⟨starts, hend⟩, fun s hs => ⟨hs.sound.starts_size, fun place hplace => hs.sound.exists_node hplace⟩,
    fun gate hgate => hguarded.exists_guards hgate, fun place node hnode hgated => ?_,
    fun place gate => hguarded.mem_gatesAt, hguarded.pairwise_gateList,
    fun a ha b hb => hguarded.nested_or_disjoint ha hb⟩
  · rw [hsound.instructions, hlength, List.take_length]
  · rw [hlength, Expr.length_postorder, Expr.countNodes_eq_size]
  · exact hguarded.exists_unique_gate (hlength ▸ (List.getElem?_eq_some_iff.1 hnode).1) hnode hgated

end Program

end Postfix

end Formulary
