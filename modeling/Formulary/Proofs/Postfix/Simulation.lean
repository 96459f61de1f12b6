import Formulary.Postfix.Run
import Formulary.Proofs.Expr.Walk
import Formulary.Proofs.Postfix.Layout

/-!
# Postfix runs walk the tree

`evaluatePostfix_eq_walk`: with levels enough for the tree, walking it and running its program are the
same computation, in any monad and any context.

1. `Leads machine outcome`: from the machine on, every run with fuel enough is `outcome`.
2. `Enters machine gates outcome`: the same where `gates` are still to be passed. Those of a subtree
   and those of all subtrees that start with it stand at one place, so a subtree is run from its own
   gates on (`enters_subtree`).
3. While a subtree runs, no first branch around it ends: the entries of `taken` lie behind it.
-/

namespace Formulary

namespace Postfix

variable {m : Type → Type} [Monad m] {ctx : Context m} {bindings : Bindings} {all : List Row}

/-! ## Parts of a program -/

/-- The rows stand at a place. -/
def Segment (all : List Row) (place : Nat) (rows : List Row) : Prop :=
  ∀ i, i < rows.length → all[place + i]? = rows[i]?

theorem Segment.append {place : Nat} {xs ys : List Row} (h : Segment all place (xs ++ ys)) :
    Segment all place xs ∧ Segment all (place + xs.length) ys := by
  constructor
  · intro i hi
    rw [h i (by rw [List.length_append]; omega), List.getElem?_append_left hi]
  · intro i hi
    rw [Nat.add_assoc, h (xs.length + i) (by rw [List.length_append]; omega),
      List.getElem?_append_right (Nat.le_add_right _ _), Nat.add_sub_cancel_left]

theorem Segment.head {place : Nat} {row : Row} {rows : List Row}
    (h : Segment all place (row :: rows)) : all[place]? = some row := by
  simpa using h 0 (Nat.succ_pos _)

/-- The root of a subtree stands at its end. -/
theorem Segment.root {place : Nat} {gates : List Gate} {operands : List Row} {row : Row}
    (h : Segment all place (Row.guard gates (operands ++ [row]))) :
    ∃ row', all[place + operands.length]? = some row' ∧ row'.instruction = row.instruction := by
  cases operands with
  | nil => exact ⟨_, h.head, rfl⟩
  | cons first rest => 
    have hsplit : Segment all place (Row.guard gates (first :: rest) ++ [row]) := h
    exact ⟨row, by simpa using hsplit.append.2.head, rfl⟩

theorem Segment.unguarded {place : Nat} {rows : List Row} (h : Segment all place rows) :
    Segment all place (Row.guard [] rows) := by rwa [Row.guard_nil]

theorem Segment.exists_entry {place : Nat} {rows : List Row} (h : Segment all place rows)
    (hne : rows ≠ []) : ∃ row, all[place]? = some row ∧ row.gates = Row.entry rows := by
  obtain ⟨row, rest, rfl⟩ := List.exists_cons_of_ne_nil hne
  exact ⟨row, h.head, rfl⟩

theorem instructions_ofRows (place : Nat) :
    (Program.ofRows all).instructions[place]? = all[place]?.map Row.instruction := by
  simp [Program.ofRows]

theorem gatesAt_ofRows (place : Nat) :
    (Program.ofRows all).gatesAt place = (all[place]?.map Row.gates).getD [] := by
  simp [Program.gatesAt, Program.ofRows]

/-! ## Runs from a machine -/

/-- Every run from the machine with fuel enough is `outcome`. -/
def Leads (ctx : Context m) (bindings : Bindings) (all : List Row) (machine : Machine)
    (outcome : Answer m Value) : Prop :=
  ∀ fuel, all.length < machine.place + fuel →
    machine.runFrom ctx bindings (Program.ofRows all) fuel = outcome

/-- What remains of a step once the gates to pass are known. -/
def proceed (ctx : Context m) (bindings : Bindings) (program : Program) (fuel : Nat)
    (instruction : Instruction) (machine : Machine) (gates : List Gate) : Answer m Value := do
  match ← Answer.ofExcept (machine.pass gates) with
  | .skip machine => machine.runFrom ctx bindings program fuel
  | .enter machine => do
    let (value, stack) ← Machine.execute ctx bindings instruction machine.stack
    Machine.runFrom ctx bindings program fuel
      { machine with place := machine.place + 1, stack := value :: stack }

/-- Every run from the machine through the gates is `outcome`. -/
def Enters (ctx : Context m) (bindings : Bindings) (all : List Row) (machine : Machine)
    (gates : List Gate) (outcome : Answer m Value) : Prop :=
  ∀ fuel row, all[machine.place]? = some row → all.length < machine.place + (fuel + 1) →
    proceed ctx bindings (Program.ofRows all) fuel row.instruction machine gates = outcome

/-- No first branch ends before `place`. -/
def Behind (place : Nat) (taken : List (Nat × Nat)) : Prop := ∀ entry ∈ taken, place ≤ entry.1

theorem Behind.mono {place place' : Nat} {taken : List (Nat × Nat)} (h : Behind place taken)
    (hle : place' ≤ place) : Behind place' taken := fun entry he =>
  Nat.le_trans hle (h entry he)

theorem finishBranch?_eq_none {place : Nat} {stack : List Value} {taken : List (Nat × Nat)}
    (h : Behind (place + 1) taken) : Machine.finishBranch? ⟨place, stack, taken⟩ = none := by
  cases taken with
  | nil => rfl
  | cons entry taken =>
    have hlt := h entry List.mem_cons_self
    simp only [Machine.finishBranch?]
    rw [if_neg (by omega)]

section Steps

variable {place stop second : Nat} {stack : List Value} {taken : List (Nat × Nat)} {gates : List Gate}
  {outcome : Answer m Value}

/-- A step at a place where no first branch ends passes the gates there. -/
theorem Leads.of_enters {row : Row} (hrow : all[place]? = some row) (htaken : Behind (place + 1) taken)
    (h : Enters ctx bindings all ⟨place, stack, taken⟩ row.gates outcome) :
    Leads ctx bindings all ⟨place, stack, taken⟩ outcome := by
  intro fuel hfuel
  have hplace : place < all.length := (List.getElem?_eq_some_iff.1 hrow).1
  obtain ⟨fuel, rfl⟩ : ∃ fuel', fuel = fuel' + 1 := ⟨fuel - 1, by simp only at hfuel; omega⟩
  rw [← h fuel row hrow hfuel, Machine.runFrom]
  simp only [instructions_ofRows, gatesAt_ofRows, hrow, Option.map_some, Option.getD_some,
    finishBranch?_eq_none htaken]
  rfl

/-- A step at the end of a first branch leads past the second one. -/
theorem Leads.of_finish {row : Row} {value : Value} (hrow : all[second]? = some row)
    (hstop : second < stop) (h : Leads ctx bindings all ⟨stop, .empty :: value :: stack, taken⟩ outcome) :
    Leads ctx bindings all ⟨second, value :: stack, (second, stop) :: taken⟩ outcome := by
  intro fuel hfuel
  have hplace : second < all.length := (List.getElem?_eq_some_iff.1 hrow).1
  obtain ⟨fuel, rfl⟩ : ∃ fuel', fuel = fuel' + 1 := ⟨fuel - 1, by simp only at hfuel; omega⟩
  rw [← h fuel (by simp only at hfuel ⊢; omega), Machine.runFrom]
  simp only [instructions_ofRows, hrow, Option.map_some, Machine.finishBranch?, ↓reduceIte,
    Machine.skipTo]
  rfl

theorem proceed_nil [LawfulMonad m] (program : Program) (fuel : Nat) (instruction : Instruction)
    (machine : Machine) :
    proceed ctx bindings program fuel instruction machine [] =
      Machine.execute ctx bindings instruction machine.stack >>= fun (value, stack) =>
        Machine.runFrom ctx bindings program fuel
          { machine with place := machine.place + 1, stack := value :: stack } := by
  have hpure : (Answer.ofExcept (.ok (Machine.Passage.enter machine)) : Answer m Machine.Passage) =
      pure (.enter machine) := rfl
  simp only [proceed, Machine.pass, hpure, pure_bind]

section Roots

variable {row : Row} (hrow : all[place]? = some row)

include hrow

/-- An instruction that asks the context. -/
theorem Enters.of_execute [LawfulMonad m] {answer : Answer m Value} {below : List Value}
    {k : Value → Answer m Value}
    (hexecute : Machine.execute ctx bindings row.instruction stack =
      answer >>= fun value => pure (value, below))
    (h : ∀ value, Leads ctx bindings all ⟨place + 1, value :: below, taken⟩ (k value)) :
    Enters ctx bindings all ⟨place, stack, taken⟩ [] (answer >>= k) := by
  intro fuel row' hrow' hfuel
  obtain rfl : row = row' := Option.some.inj (hrow.symm.trans hrow')
  simp only [proceed_nil, hexecute, bind_assoc, pure_bind]
  refine bind_congr fun value => h value fuel ?_
  simp only at hfuel ⊢
  omega

theorem Enters.of_value [LawfulMonad m] {value : Value} {below : List Value}
    (hexecute : Machine.execute ctx bindings row.instruction stack = pure (value, below))
    (h : Leads ctx bindings all ⟨place + 1, value :: below, taken⟩ outcome) :
    Enters ctx bindings all ⟨place, stack, taken⟩ [] outcome := by
  intro fuel row' hrow' hfuel
  obtain rfl : row = row' := Option.some.inj (hrow.symm.trans hrow')
  simp only [proceed_nil, hexecute, pure_bind]
  refine h fuel ?_
  simp only at hfuel ⊢
  omega

theorem Enters.of_throw [LawfulMonad m] {error : FormulaError}
    (hexecute : Machine.execute ctx bindings row.instruction stack = throw error) :
    Enters ctx bindings all ⟨place, stack, taken⟩ [] (throw error) := by
  intro fuel row' hrow' _
  obtain rfl : row = row' := Option.some.inj (hrow.symm.trans hrow')
  simp only [proceed_nil, hexecute, ExceptT.bind_throw]

end Roots

/-- Gates that lead elsewhere. -/
theorem Enters.of_skip {machine machine' : Machine} (hpass : machine.pass gates = .ok (.skip machine'))
    (hlt : machine.place < machine'.place) (h : Leads ctx bindings all machine' outcome)
    [LawfulMonad m] : Enters ctx bindings all machine gates outcome := by
  intro fuel row _ hfuel
  have hpure : (Answer.ofExcept (.ok (Machine.Passage.skip machine')) : Answer m Machine.Passage) =
      pure (.skip machine') := rfl
  simp only [proceed, hpass, hpure, pure_bind]
  exact h fuel (by omega)

/-- Gates that are passed up to some of them. -/
theorem Enters.of_pass {machine : Machine} (machine' : Machine) {gates' : List Gate}
    (hpass : machine.pass gates = machine'.pass gates') (hplace : machine'.place = machine.place)
    (h : Enters ctx bindings all machine' gates' outcome) :
    Enters ctx bindings all machine gates outcome := by
  intro fuel row hrow hfuel
  rw [proceed, hpass]
  rw [← hplace] at hrow hfuel
  exact h fuel row hrow hfuel

theorem Enters.of_unreachable [LawfulMonad m] {start operands : Nat} (hlt : place < stop)
    (h : Leads ctx bindings all ⟨stop, List.replicate operands .empty ++ stack, taken⟩ outcome) :
    Enters ctx bindings all ⟨place, stack, taken⟩ (⟨start, stop, .unreachable operands⟩ :: gates)
      outcome :=
  .of_skip rfl hlt h

theorem Enters.of_branches [LawfulMonad m] {start : Nat} {condition : Value}
    (hlt : place < second)
    (htrue : condition.isTruthy = true →
      Enters ctx bindings all ⟨place, condition :: stack, (second, stop) :: taken⟩ gates outcome)
    (hfalse : condition.isTruthy = false →
      Leads ctx bindings all ⟨second, .empty :: condition :: stack, taken⟩ outcome) :
    Enters ctx bindings all ⟨place, condition :: stack, taken⟩
      (⟨start, stop, .branches second⟩ :: gates) outcome := by
  cases hc : condition.isTruthy with
  | true =>
    refine .of_pass ⟨place, condition :: stack, (second, stop) :: taken⟩ ?_ rfl (htrue hc)
    simp [Machine.pass, Machine.top?, hc, bind, Except.bind]
  | false =>
    refine .of_skip ?_ hlt (hfalse hc)
    simp [Machine.pass, Machine.top?, hc, bind, Except.bind, Machine.skipTo]

/-- The gate of a right operand, if there is one, is shut where the left operand decides. -/
theorem pass_rightGates {symbol : String} {op : BinaryOperator} {a : Value}
    (hop : BinaryOperator.ofSymbol? symbol = some op) (start stop : Nat) :
    Machine.pass ⟨place, a :: stack, taken⟩ (Row.rightGates symbol start stop ++ gates) =
      if op.decides a then .ok (.skip ⟨stop, .empty :: a :: stack, taken⟩)
      else Machine.pass ⟨place, a :: stack, taken⟩ gates := by
  simp only [Row.rightGates, hop]
  cases op with
  | and | or =>
    cases ha : a.isTruthy with
    | false | true =>
      simp [BinaryOperator.decides, ha, Machine.pass, Machine.top?, bind, Except.bind, Machine.skipTo]
  | _ => rfl

theorem Enters.of_right [LawfulMonad m] {symbol : String} {op : BinaryOperator} {a : Value}
    (hop : BinaryOperator.ofSymbol? symbol = some op) {start : Nat} (hlt : place < stop)
    (hopen : op.decides a = false →
      Enters ctx bindings all ⟨place, a :: stack, taken⟩ gates outcome)
    (hshut : op.decides a = true →
      Leads ctx bindings all ⟨stop, .empty :: a :: stack, taken⟩ outcome) :
    Enters ctx bindings all ⟨place, a :: stack, taken⟩ (Row.rightGates symbol start stop ++ gates)
      outcome := by
  have hpass := @pass_rightGates place stack taken gates symbol op a hop start stop
  cases hd : op.decides a with
  | true => exact .of_skip (by rw [hpass, if_pos hd]) hlt (hshut hd)
  | false => exact .of_pass _ (by rw [hpass, if_neg (by simp [hd])]) rfl (hopen hd)

end Steps

/-! ## Subtrees -/

/-- Running the rows of a tree from its own gates on is walking it. -/
def Simulates (ctx : Context m) (bindings : Bindings) (all : List Row) (expr : Expr) : Prop :=
  ∀ {levels place : Nat} {stack : List Value} {taken : List (Nat × Nat)} {outer : List Gate}
    {k : Value → Answer m Value}, expr.depth ≤ levels →
    Segment all place (Row.guard outer (Row.ofExpr place expr)) →
    Behind (place + expr.size) taken →
    (∀ value, Leads ctx bindings all ⟨place + expr.size, value :: stack, taken⟩ (k value)) →
    Enters ctx bindings all ⟨place, stack, taken⟩ (Row.entry (Row.ofExpr place expr))
      (expr.walk ctx bindings levels >>= k)

/-- A subtree that does not stand first, with the gates that are its own or its parent's. -/
theorem leads_of_segment {place : Nat} {stack : List Value} {taken : List (Nat × Nat)}
    {gates : List Gate} {rows : List Row} {outcome : Answer m Value}
    (hsegment : Segment all place (Row.guard gates rows)) (hne : rows ≠ [])
    (htaken : Behind (place + 1) taken)
    (h : Enters ctx bindings all ⟨place, stack, taken⟩ (gates ++ Row.entry rows) outcome) :
    Leads ctx bindings all ⟨place, stack, taken⟩ outcome := by
  obtain ⟨row, hrow, hgates⟩ := hsegment.exists_entry (Row.guard_ne_nil gates hne)
  rw [Row.entry_guard hne] at hgates
  exact .of_enters hrow htaken (hgates ▸ h)

/-- A root after its operands. -/
theorem leads_root {place : Nat} {stack : List Value} {taken : List (Nat × Nat)}
    {instruction : Instruction} {start : Nat} {outcome : Answer m Value}
    (hsegment : Segment all place [⟨instruction, start, []⟩]) (htaken : Behind (place + 1) taken)
    (h : Enters ctx bindings all ⟨place, stack, taken⟩ [] outcome) :
    Leads ctx bindings all ⟨place, stack, taken⟩ outcome :=
  .of_enters hsegment.head htaken h

section Nodes

variable [LawfulMonad m] {levels place : Nat} {stack : List Value} {taken : List (Nat × Nat)}
  {outer : List Gate} {k : Value → Answer m Value}

theorem simulates_leaf {expr : Expr} (answer : Answer m Value) (hsize : expr.size = 1)
    (hrows : ∀ place, Row.ofExpr place expr = [⟨.ofRoot expr, place, []⟩])
    (hwalk : ∀ levels, expr.walk ctx bindings (levels + 1) = answer)
    (hexecute : ∀ stack, Machine.execute ctx bindings (.ofRoot expr) stack =
      answer >>= fun value => pure (value, stack)) :
    Simulates ctx bindings all expr := by
  intro levels place stack taken outer k hdepth hsegment htaken h
  have hpos := expr.depth_pos
  obtain ⟨levels, rfl⟩ : ∃ n, levels = n + 1 := ⟨levels - 1, by omega⟩
  rw [hrows] at hsegment ⊢
  rw [hwalk]
  rw [hsize] at h
  exact .of_execute hsegment.head (hexecute stack) h

/-- The arguments of a call, up to its root. -/
theorem enters_args {args : List Expr} (hargs : ∀ arg ∈ args, Simulates ctx bindings all arg)
    (hdepth : Expr.depthAll args ≤ levels) {root : Row} (hroot : root.gates = [])
    {k : List Value → Answer m Value}
    (hsegment : Segment all place (Row.guard outer (Row.ofExprs place args ++ [root])))
    (htaken : Behind (place + Expr.sizeAll args + 1) taken)
    (h : ∀ values, values.length = args.length →
      Enters ctx bindings all ⟨place + Expr.sizeAll args, values.reverse ++ stack, taken⟩ []
        (k values)) :
    Enters ctx bindings all ⟨place, stack, taken⟩ (Row.entry (Row.ofExprs place args ++ [root]))
      (args.mapM (Expr.walk ctx bindings levels) >>= k) := by
  induction args generalizing place stack outer k with
  | nil => simpa [Row.entry, Row.ofExprs, Expr.sizeAll, hroot] using h [] rfl
  | cons arg args ih =>
    rw [Expr.depthAll] at hdepth
    rw [Row.ofExprs, List.append_assoc, Row.guard_append (Row.ofExpr_ne_nil _ _)] at hsegment
    rw [Row.ofExprs, List.append_assoc, Row.entry_append (Row.ofExpr_ne_nil _ _)]
    obtain ⟨hfirst, hrest⟩ := hsegment.append
    rw [Row.length_guard, Row.length_ofExpr] at hrest
    rw [Expr.sizeAll] at htaken h
    simp only [List.mapM_cons, bind_assoc, pure_bind]
    refine hargs arg List.mem_cons_self (by omega) hfirst (htaken.mono (by omega)) fun value => ?_
    refine leads_of_segment hrest.unguarded (by simp) (htaken.mono (by omega)) ?_
    refine ih (fun arg' harg => hargs arg' (List.mem_cons_of_mem _ harg)) (by omega)
      hrest.unguarded (htaken.mono (by omega)) fun values hlength => ?_
    have hk := h (value :: values) (by simp [hlength])
    rw [List.reverse_cons, List.append_assoc, List.singleton_append] at hk
    rwa [Nat.add_assoc]

theorem simulates_call {name : String} {args : List Expr}
    (hargs : ∀ arg ∈ args, Simulates ctx bindings all arg) :
    Simulates ctx bindings all (.call name args) := by
  intro levels place stack taken outer k hdepth hsegment htaken h
  obtain ⟨levels, rfl⟩ : ∃ n, levels = n + 1 := ⟨levels - 1, by rw [Expr.depth] at hdepth; omega⟩
  rw [Expr.depth] at hdepth
  rw [Expr.size] at htaken h
  rw [Row.ofExpr] at hsegment
  obtain ⟨row, hrow, hinstruction⟩ := hsegment.root
  rw [Row.length_ofExprs] at hrow
  rw [Expr.walk, bind_assoc]
  refine enters_args hargs (by omega) rfl hsegment (htaken.mono (by omega)) fun values hlength => ?_
  have hnext : ∀ value, Leads ctx bindings all
      ⟨place + Expr.sizeAll args + 1, value :: stack, taken⟩ (k value) := by
    rwa [Nat.add_assoc, Nat.add_comm _ 1]
  refine .of_execute hrow ?_ hnext
  have htake : (values.reverse ++ stack).take args.length = values.reverse := by
    rw [List.take_left' (by simp [hlength])]
  have hdrop : (values.reverse ++ stack).drop args.length = stack := by
    rw [List.drop_left' (by simp [hlength])]
  have hcount : ¬ (values.reverse ++ stack).length < args.length := by simp [hlength]
  simp only [hinstruction, Machine.execute, htake, hdrop, if_neg hcount, List.reverse_reverse]

theorem simulates_unary {symbol : String} {operand : Expr}
    (hoperand : Simulates ctx bindings all operand) :
    Simulates ctx bindings all (.unary symbol operand) := by
  intro levels place stack taken outer k hdepth hsegment htaken h
  obtain ⟨levels, rfl⟩ : ∃ n, levels = n + 1 := ⟨levels - 1, by rw [Expr.depth] at hdepth; omega⟩
  rw [Expr.depth] at hdepth
  rw [Expr.size, Nat.add_comm 1, ← Nat.add_assoc] at htaken h
  have hsize := operand.size_pos
  have hne := Row.ofExpr_ne_nil place operand
  rw [Row.ofExpr, Row.guard_append (Row.guard_ne_nil _ hne), Row.guard_guard] at hsegment
  rw [Row.ofExpr, Row.entry_append (Row.guard_ne_nil _ hne), Row.entry_guard hne, Expr.walk]
  obtain ⟨hfirst, hroot⟩ := hsegment.append
  rw [Row.length_guard, Row.length_ofExpr] at hroot
  cases hop : UnaryOperator.ofSymbol? symbol with
  | none =>
    -- the operand is skipped, so an unknown operator fails before anything is run, as it does in the walk
    have hgates : Row.unaryGates symbol place (place + operand.size) =
        [⟨place, place + operand.size, .unreachable 1⟩] := by rw [Row.unaryGates, hop]
    rw [hgates]
    refine .of_unreachable (by omega) (leads_root hroot htaken ?_)
    rw [ExceptT.bind_throw]
    exact .of_throw hroot.head (by simp [Machine.execute, hop])
  | some op =>
    have hgates : Row.unaryGates symbol place (place + operand.size) = [] := by
      rw [Row.unaryGates, hop]
    rw [hgates, List.nil_append]
    simp only [bind_assoc, pure_bind]
    refine hoperand (by omega) hfirst (htaken.mono (by omega)) fun a => ?_
    exact leads_root hroot htaken (.of_value hroot.head (by simp [Machine.execute, hop]) (h _))

theorem simulates_binary {symbol : String} {left right : Expr}
    (hleft : Simulates ctx bindings all left) (hright : Simulates ctx bindings all right) :
    Simulates ctx bindings all (.binary symbol left right) := by
  intro levels place stack taken outer k hdepth hsegment htaken h
  obtain ⟨levels, rfl⟩ : ∃ n, levels = n + 1 := ⟨levels - 1, by rw [Expr.depth] at hdepth; omega⟩
  rw [Expr.depth] at hdepth
  have hsize : place + (Expr.binary symbol left right).size = place + left.size + right.size + 1 := by
    rw [Expr.size]
    omega
  rw [hsize] at htaken h
  have hpos := left.size_pos
  have hpos' := right.size_pos
  have hne := Row.ofExpr_ne_nil place left
  have hne' := Row.ofExpr_ne_nil (place + left.size) right
  rw [Row.ofExpr, Row.guard_append (Row.guard_ne_nil _ hne), Row.guard_guard] at hsegment
  rw [Row.ofExpr, Row.entry_append (Row.guard_ne_nil _ hne), Row.entry_guard hne, Expr.walk]
  obtain ⟨hfirst, hrest⟩ := hsegment.append
  rw [Row.length_guard, Row.length_ofExpr] at hrest
  obtain ⟨hsecond, hroot⟩ := hrest.append
  rw [Row.length_guard, Row.length_ofExpr] at hroot
  cases hop : BinaryOperator.ofSymbol? symbol with
  | none =>
    have hgates : Row.binaryGates symbol place (place + left.size + right.size) =
        [⟨place, place + left.size + right.size, .unreachable 2⟩] := by rw [Row.binaryGates, hop]
    rw [hgates]
    refine .of_unreachable (by omega) (leads_root hroot htaken ?_)
    rw [ExceptT.bind_throw]
    exact .of_throw hroot.head (by simp [Machine.execute, hop])
  | some op =>
    have hgates : Row.binaryGates symbol place (place + left.size + right.size) = [] := by
      rw [Row.binaryGates, hop]
    rw [hgates, List.nil_append]
    simp only [BinaryOperator.run_eq, bind_assoc]
    refine hleft (by omega) hfirst (htaken.mono (by omega)) fun a => ?_
    refine leads_of_segment hsecond hne' (htaken.mono (by omega)) ?_
    -- the gate before the right operand opens unless the left one decides
    refine .of_right hop (by omega) (fun hd => ?_) fun hd => ?_
    · rw [if_neg (by simp [hd])]
      simp only [bind_assoc]
      refine hright (by omega) hsecond (htaken.mono (by omega)) fun b => ?_
      refine leads_root hroot htaken (.of_execute hroot.head ?_ h)
      simp [Machine.execute, hop]
    · rw [if_pos hd, pure_bind]
      refine leads_root hroot htaken (.of_value hroot.head ?_ (h a))
      simp [Machine.execute, hop, BinaryOperator.apply_of_decides hd]

theorem simulates_conditional {condition whenTrue whenFalse : Expr}
    (hcondition : Simulates ctx bindings all condition) (htrue : Simulates ctx bindings all whenTrue)
    (hfalse : Simulates ctx bindings all whenFalse) :
    Simulates ctx bindings all (.conditional condition whenTrue whenFalse) := by
  intro levels place stack taken outer k hdepth hsegment htaken h
  obtain ⟨levels, rfl⟩ : ∃ n, levels = n + 1 := ⟨levels - 1, by rw [Expr.depth] at hdepth; omega⟩
  rw [Expr.depth] at hdepth
  have hsize : place + (Expr.conditional condition whenTrue whenFalse).size =
      place + condition.size + whenTrue.size + whenFalse.size + 1 := by
    rw [Expr.size]
    omega
  rw [hsize] at htaken h
  have hpos := condition.size_pos
  have hpos' := whenTrue.size_pos
  have hpos'' := whenFalse.size_pos
  have hne := Row.ofExpr_ne_nil place condition
  rw [Row.ofExpr, Row.guard_append hne] at hsegment
  rw [Row.ofExpr, Row.entry_append hne, Expr.walk]
  obtain ⟨hfirst, hrest⟩ := hsegment.append
  rw [Row.length_guard, Row.length_ofExpr] at hrest
  obtain ⟨hsecond, hrest⟩ := hrest.append
  rw [Row.length_guard, Row.length_ofExpr] at hrest
  obtain ⟨hthird, hroot⟩ := hrest.append
  rw [Row.length_ofExpr] at hroot
  simp only [bind_assoc]
  refine hcondition (by omega) hfirst (htaken.mono (by omega)) fun c => ?_
  refine leads_of_segment hsecond (Row.ofExpr_ne_nil _ _) (htaken.mono (by omega)) ?_
  refine .of_branches (by omega) (fun hc => ?_) fun hc => ?_
  · rw [if_pos hc]
    refine htrue (by omega) hsecond ?_ fun value => ?_
    -- the end of this branch is where it is to be left, and that is not inside it
    · intro entry hentry
      rcases List.mem_cons.1 hentry with rfl | hentry
      · exact Nat.le_refl _
      · exact htaken.mono (by omega) entry hentry
    · obtain ⟨row, hrow, -⟩ := hthird.exists_entry (Row.ofExpr_ne_nil _ _)
      refine .of_finish hrow (by omega) (leads_root hroot htaken ?_)
      refine .of_value hroot.head ?_ (h value)
      simp [Machine.execute, hc]
  · rw [if_neg (by simp [hc])]
    refine leads_of_segment hthird.unguarded (Row.ofExpr_ne_nil _ _) (htaken.mono (by omega)) ?_
    refine hfalse (by omega) hthird.unguarded (htaken.mono (by omega)) fun value => ?_
    refine leads_root hroot htaken (.of_value hroot.head ?_ (h value))
    simp [Machine.execute, hc]

/-- **Subtrees.** Every tree whose rows stand in the program is walked by running them. -/
theorem simulates (ctx : Context m) (bindings : Bindings) (all : List Row) (expr : Expr) :
    Simulates ctx bindings all expr := by
  induction expr using Expr.induct with
  | boolean b =>
    exact simulates_leaf (pure (.boolean b)) rfl (fun _ => rfl) (fun _ => rfl)
      fun _ => by rw [pure_bind]; rfl
  | number n =>
    exact simulates_leaf (pure (.number n)) rfl (fun _ => rfl) (fun _ => rfl)
      fun _ => by rw [pure_bind]; rfl
  | text s =>
    exact simulates_leaf (pure (.text s)) rfl (fun _ => rfl) (fun _ => rfl)
      fun _ => by rw [pure_bind]; rfl
  | «variable» name => exact simulates_leaf _ rfl (fun _ => rfl) (fun _ => rfl) fun _ => rfl
  | call name args ih => exact simulates_call ih
  | unary symbol operand ih => exact simulates_unary ih
  | binary symbol left right ihl ihr => exact simulates_binary ihl ihr
  | conditional condition whenTrue whenFalse ihc iht ihf => exact simulates_conditional ihc iht ihf

end Nodes

/-- The end of a program, with its value alone on the stack. -/
theorem leads_end (ctx : Context m) (bindings : Bindings) {place : Nat} (hplace : all.length = place)
    (value : Value) : Leads ctx bindings all ⟨place, [value], []⟩ (pure value) := by
  intro fuel hfuel
  obtain ⟨fuel, rfl⟩ : ∃ n, fuel = n + 1 := ⟨fuel - 1, by simp only at hfuel; omega⟩
  have hnone : all[place]? = none := List.getElem?_eq_none (by omega)
  simp only [Machine.runFrom, instructions_ofRows, hnone, Option.map_none, Machine.result,
    Answer.ofExcept_ok]

/-- **Whole programs.** Running the program of a tree is walking it with levels enough. -/
theorem evaluatePostfix_eq_walk [LawfulMonad m] (ctx : Context m) (bindings : Bindings)
    {expr : Expr} {levels : Nat} (hdepth : expr.depth ≤ levels) :
    expr.evaluatePostfix ctx bindings = expr.walk ctx bindings levels := by
  have hsegment : Segment (Row.ofExpr 0 expr) 0 (Row.ofExpr 0 expr) :=
    fun i _ => by rw [Nat.zero_add]
  have htaken : ∀ place, Behind place [] := fun _ entry h => absurd h List.not_mem_nil
  have hend := leads_end ctx bindings (Row.length_ofExpr 0 expr)
  have hstart : Leads ctx bindings (Row.ofExpr 0 expr) Machine.start
      (expr.walk ctx bindings levels) := by
    refine leads_of_segment hsegment.unguarded (Row.ofExpr_ne_nil 0 expr) (htaken _) ?_
    rw [List.nil_append, ← bind_pure (expr.walk ctx bindings levels)]
    exact simulates ctx bindings _ expr hdepth hsegment.unguarded (htaken _)
      (by rwa [Nat.zero_add])
  rw [Expr.evaluatePostfix, Program.run, Program.ofExpr_eq]
  exact hstart _ (by simp [Machine.start])

end Postfix

end Formulary
