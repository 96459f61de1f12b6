import Formulary.Proofs.Compiled.Emission

/-!
# Places in aggregate calls

A place is the way from the root of a tree to one of its nodes. `Expr.aggregateArgs` lists the places of the
arguments of aggregate calls as a walk from left to right enters them, and numbers them so. `Expr.scopeAt` are
the numbers of those around a place: this is what the indices in generated code should be.

Code, script, requests and run of a tree for given scopes follow the tree and know nothing of frames. The code
is one that `Emitted` allows, so it is read back, and with the same indices as long as these are whole numbers
of 53 bits.
-/

namespace Formulary

/-- The children to take on the way from the root of a tree. -/
abbrev Place := List Nat

namespace Place

/-! ## Lists of places -/

/-- The listed places below a node, from those below its children. The children are numbered from `i` on, and
each is listed itself, before what is below it, if it is the argument of an aggregate call. -/
def below (aggregate : Bool) : (i : Nat) → List (List Place) → List Place
  | _, [] => []
  | i, inner :: rest =>
    (if aggregate then [[i]] else []) ++ (inner.map (i :: ·) ++ below aggregate (i + 1) rest)

/-- The numbers of the listed places that are on the way to `place`, where the first has the number `n`. -/
def around (place : Place) : (n : Nat) → List Place → List Nat
  | _, [] => []
  | n, outer :: rest =>
    if outer <+: place then n :: around place (n + 1) rest else around place (n + 1) rest

theorem around_append (place : Place) (n : Nat) (outer outer' : List Place) :
    around place n (outer ++ outer') = around place n outer ++ around place (n + outer.length) outer' := by
  induction outer generalizing n with
  | nil => rfl
  | cons first outer ih =>
    have hlength : n + 1 + outer.length = n + (first :: outer).length := by
      rw [List.length_cons]
      omega
    rw [List.cons_append, around, around, ih, hlength]
    split <;> rfl

/-- Below a child, what counts is what is listed below it. -/
theorem around_map_self (i : Nat) (place : Place) (n : Nat) (outer : List Place) :
    around (i :: place) n (outer.map (i :: ·)) = around place n outer := by
  induction outer generalizing n with
  | nil => rfl
  | cons first outer ih =>
    rw [List.map_cons, around, around, ih]
    simp only [List.cons_prefix_cons, true_and]

theorem around_eq_nil {place : Place} {outer : List Place} (h : ∀ p ∈ outer, ¬ p <+: place) (n : Nat) :
    around place n outer = [] := by
  induction outer generalizing n with
  | nil => rfl
  | cons first outer ih =>
    rw [around, if_neg (h first List.mem_cons_self)]
    exact ih (fun p hp => h p (List.mem_cons_of_mem _ hp)) _

/-- What is listed below a node goes through one of its children. -/
theorem exists_of_mem_below {aggregate : Bool} {i : Nat} {inner : List (List Place)} {p : Place}
    (h : p ∈ below aggregate i inner) : ∃ j rest, i ≤ j ∧ p = j :: rest := by
  induction inner generalizing i with
  | nil => exact nomatch h
  | cons first inner ih =>
    rw [below, List.mem_append, List.mem_append] at h
    rcases h with h | h | h
    · cases aggregate with
      | false => exact nomatch h
      | true => exact ⟨i, [], Nat.le_refl i, List.mem_singleton.1 h⟩
    · obtain ⟨rest, -, rfl⟩ := List.mem_map.1 h
      exact ⟨i, rest, Nat.le_refl i, rfl⟩
    · obtain ⟨j, rest, hle, rfl⟩ := ih h
      exact ⟨j, rest, Nat.le_of_succ_le hle, rfl⟩

/-- Nothing that is listed below a node is around the node itself. -/
theorem around_nil_below (aggregate : Bool) (i n : Nat) (inner : List (List Place)) :
    around [] n (below aggregate i inner) = [] := by
  refine around_eq_nil (fun p hp hprefix => ?_) n
  obtain ⟨j, rest, -, rfl⟩ := exists_of_mem_below hp
  exact nomatch List.prefix_nil.1 hprefix

/-- The number of places that an argument adds to what is below it. -/
def own (aggregate : Bool) : Nat := if aggregate then 1 else 0

theorem length_below_cons (aggregate : Bool) (i : Nat) (first : List Place) (inner : List (List Place)) :
    (below aggregate i (first :: inner)).length =
      own aggregate + first.length + (below aggregate (i + 1) inner).length := by
  rw [below, own, List.length_append, List.length_append, List.length_map, ← Nat.add_assoc]
  cases aggregate <;> rfl

/-- Around a place below the first child are this child, if it is listed, and what is listed below it. -/
theorem around_below_head (aggregate : Bool) (i n : Nat) (place : Place) (first : List Place)
    (inner : List (List Place)) : around (i :: place) n (below aggregate i (first :: inner)) =
      (if aggregate then [n] else []) ++ around place (n + own aggregate) first := by
  have hrest : ∀ k, around (i :: place) k (below aggregate (i + 1) inner) = [] := by
    refine around_eq_nil fun p hp hprefix => ?_
    obtain ⟨j, rest, hle, rfl⟩ := exists_of_mem_below hp
    have := (List.cons_prefix_cons.1 hprefix).1
    omega
  rw [below, around_append, around_append, hrest, List.append_nil, around_map_self, own]
  cases aggregate with
  | false => rfl
  | true => simp [around]

/-- Around a place below a later child is nothing of the first one. -/
theorem around_below_tail (aggregate : Bool) {i j : Nat} (h : i < j) (n : Nat) (place : Place)
    (first : List Place) (inner : List (List Place)) :
    around (j :: place) n (below aggregate i (first :: inner)) =
      around (j :: place) (n + own aggregate + first.length) (below aggregate (i + 1) inner) := by
  have hne : ∀ rest, ¬ i :: rest <+: j :: place := by
    intro rest hprefix
    have := (List.cons_prefix_cons.1 hprefix).1
    omega
  have hfirst : ∀ k, around (j :: place) k (first.map (i :: ·)) = [] := by
    refine around_eq_nil fun p hp => ?_
    obtain ⟨rest, -, rfl⟩ := List.mem_map.1 hp
    exact hne rest
  rw [below, around_append, around_append, hfirst, own]
  cases aggregate with
  | false => simp [around]
  | true => simp [around, hne]

/-! ## Numbers around a place -/

theorem mem_around {place : Place} {n k : Nat} {outer : List Place} :
    k ∈ around place n outer ↔ ∃ i p, outer[i]? = some p ∧ p <+: place ∧ k = n + i := by
  induction outer generalizing n with
  | nil => simp [around]
  | cons first outer ih =>
    have hrest : k ∈ around place (n + 1) outer ↔
        ∃ i p, (first :: outer)[i + 1]? = some p ∧ p <+: place ∧ k = n + (i + 1) := by
      rw [ih]
      simp only [List.getElem?_cons_succ, Nat.add_comm, Nat.add_left_comm]
    rw [around]
    constructor
    · intro h
      split at h
      · next hprefix =>
        rcases List.mem_cons.1 h with rfl | h
        · exact ⟨0, first, rfl, hprefix, rfl⟩
        · obtain ⟨i, hi⟩ := hrest.1 h
          exact ⟨i + 1, hi⟩
      · obtain ⟨i, hi⟩ := hrest.1 h
        exact ⟨i + 1, hi⟩
    · rintro ⟨i, p, hp, hprefix, rfl⟩
      cases i with
      | zero =>
        obtain rfl := Option.some.inj hp
        rw [if_pos hprefix]
        exact List.mem_cons_self
      | succ i =>
        have hmem := hrest.2 ⟨i, p, hp, hprefix, rfl⟩
        split
        · exact List.mem_cons_of_mem _ hmem
        · exact hmem

theorem around_pairwise (place : Place) (n : Nat) (outer : List Place) :
    (around place n outer).Pairwise (· < ·) := by
  induction outer generalizing n with
  | nil => exact .nil
  | cons first outer ih =>
    rw [around]
    split
    · refine List.pairwise_cons.2 ⟨fun k hk => ?_, ih (n + 1)⟩
      obtain ⟨i, p, -, -, rfl⟩ := mem_around.1 hk
      omega
    · exact ih (n + 1)

/-- The listed places below a node come after those that they are in. -/
theorem below_pairwise (aggregate : Bool) (i : Nat) {inner : List (List Place)}
    (h : ∀ places ∈ inner, places.Pairwise (fun p q => ¬ q <+: p) ∧ [] ∉ places) :
    (below aggregate i inner).Pairwise (fun p q => ¬ q <+: p) := by
  induction inner generalizing i with
  | nil => exact .nil
  | cons first inner ih =>
    obtain ⟨hfirst, hnil⟩ := h first List.mem_cons_self
    have hlater : ∀ p, ∀ q ∈ below aggregate (i + 1) inner, ¬ q <+: i :: p := by
      intro p q hq hprefix
      obtain ⟨j, rest, hle, rfl⟩ := exists_of_mem_below hq
      have := (List.cons_prefix_cons.1 hprefix).1
      omega
    have hinner : (first.map (i :: ·) ++ below aggregate (i + 1) inner).Pairwise (fun p q => ¬ q <+: p) := by
      refine List.pairwise_append.2 ⟨?_, ih _ fun places hp => h places (List.mem_cons_of_mem _ hp), ?_⟩
      · refine List.pairwise_map.2 (hfirst.imp fun hpq hprefix => hpq ?_)
        exact (List.cons_prefix_cons.1 hprefix).2
      · intro p hp q hq
        obtain ⟨rest, -, rfl⟩ := List.mem_map.1 hp
        exact hlater rest q hq
    rw [below]
    cases aggregate with
    | false => exact hinner
    | true =>
      show ([i] :: (first.map (i :: ·) ++ below true (i + 1) inner)).Pairwise (fun p q => ¬ q <+: p)
      refine List.pairwise_cons.2 ⟨fun q hq => ?_, hinner⟩
      rcases List.mem_append.1 hq with hq | hq
      · obtain ⟨rest, hrest, rfl⟩ := List.mem_map.1 hq
        intro hprefix
        obtain rfl := List.prefix_nil.1 (List.cons_prefix_cons.1 hprefix).2
        exact hnil hrest
      · exact hlater [] q hq

end Place

namespace Expr

/-! ## Arguments of aggregate calls -/

section

variable (aggregates : String → Bool)

mutual

/-- The places of the arguments of aggregate calls, as a walk from left to right enters them. -/
def aggregateArgs : Expr → List Place
  | .boolean _ | .number _ | .text _ | .variable _ => []
  | .call name args => Place.below (aggregates name) 0 (aggregateArgsOf args)
  | .unary _ operand => Place.below false 0 [operand.aggregateArgs]
  | .binary _ left right => Place.below false 0 [left.aggregateArgs, right.aggregateArgs]
  | .conditional condition whenTrue whenFalse =>
    Place.below false 0 [condition.aggregateArgs, whenTrue.aggregateArgs, whenFalse.aggregateArgs]

def aggregateArgsOf : List Expr → List (List Place)
  | [] => []
  | expr :: rest => expr.aggregateArgs :: aggregateArgsOf rest

end

/-- The numbers of the arguments of aggregate calls around a place. -/
def scopeAt (expr : Expr) (place : Place) : List Nat := Place.around place 0 (expr.aggregateArgs aggregates)

variable {aggregates} in
theorem mem_scopeAt {expr : Expr} {place : Place} {i : Nat} : i ∈ expr.scopeAt aggregates place ↔
    ∃ arg, (expr.aggregateArgs aggregates)[i]? = some arg ∧ arg <+: place := by
  rw [scopeAt, Place.mem_around]
  constructor
  · rintro ⟨j, arg, harg, hprefix, rfl⟩
    rw [Nat.zero_add]
    exact ⟨arg, harg, hprefix⟩
  · rintro ⟨arg, harg, hprefix⟩
    exact ⟨i, arg, harg, hprefix, (Nat.zero_add i).symm⟩

theorem aggregateArgsOf_eq_map (exprs : List Expr) :
    aggregateArgsOf aggregates exprs = exprs.map (aggregateArgs aggregates) := by
  induction exprs with
  | nil => rfl
  | cons expr rest ih => rw [aggregateArgsOf, ih, List.map_cons]

/-- An argument is entered before those inside it. -/
theorem aggregateArgs_pairwise (expr : Expr) :
    (expr.aggregateArgs aggregates).Pairwise (fun p q => ¬ q <+: p) ∧
      [] ∉ expr.aggregateArgs aggregates := by
  -- what holds of the places inside each child holds below the node
  have hnode : ∀ aggregate inner, (∀ places ∈ inner,
      places.Pairwise (fun p q => ¬ q <+: p) ∧ [] ∉ places) →
      (Place.below aggregate 0 inner).Pairwise (fun p q => ¬ q <+: p) ∧
        [] ∉ Place.below aggregate 0 inner := by
    refine fun aggregate inner h => ⟨Place.below_pairwise aggregate 0 h, fun hnil => ?_⟩
    obtain ⟨j, rest, -, hcons⟩ := Place.exists_of_mem_below hnil
    exact nomatch hcons
  induction expr using Expr.induct with
  | boolean | number | text | «variable» => exact ⟨.nil, List.not_mem_nil⟩
  | call name args ih =>
    refine hnode _ _ fun places hplaces => ?_
    rw [aggregateArgsOf_eq_map] at hplaces
    obtain ⟨arg, harg, rfl⟩ := List.mem_map.1 hplaces
    exact ih arg harg
  | unary symbol operand ih =>
    refine hnode _ _ fun places hplaces => ?_
    obtain rfl := List.mem_singleton.1 hplaces
    exact ih
  | binary symbol left right ihl ihr =>
    refine hnode _ _ fun places hplaces => ?_
    simp only [List.mem_cons, List.not_mem_nil, or_false] at hplaces
    rcases hplaces with rfl | rfl
    · exact ihl
    · exact ihr
  | conditional condition whenTrue whenFalse ihc iht ihf =>
    refine hnode _ _ fun places hplaces => ?_
    simp only [List.mem_cons, List.not_mem_nil, or_false] at hplaces
    rcases hplaces with rfl | rfl | rfl
    · exact ihc
    · exact iht
    · exact ihf

/-- Of two arguments around one place, the one entered first contains the other. -/
theorem aggregateArgs_nested {expr : Expr} {i j : Nat} {p q place : Place} (hij : i < j)
    (hp : (expr.aggregateArgs aggregates)[i]? = some p)
    (hq : (expr.aggregateArgs aggregates)[j]? = some q) (hplace : p <+: place) (hplace' : q <+: place) :
    p <+: q := by
  rcases List.prefix_or_prefix_of_prefix hplace hplace' with h | h
  · exact h
  · have hpairwise := List.pairwise_iff_getElem.1 (expr.aggregateArgs_pairwise aggregates).1
    obtain ⟨hi, rfl⟩ := List.getElem?_eq_some_iff.1 hp
    obtain ⟨hj, rfl⟩ := List.getElem?_eq_some_iff.1 hq
    exact absurd h (hpairwise i j hi hj hij)

end

/-! ## Trees with given scopes -/

mutual

/-- The code of a tree whose variables stand in these scopes. Unknown operators have none. -/
def scopedCode (scope : Place → List Nat) : Expr → String
  | .boolean b => if b then "true" else "false"
  | .number n => Script.numberCode n
  | .text s => Script.textCode s
  | .variable name => Script.variableCode name (scope [])
  | .call name args => Script.callCode name (scopedCodes scope 0 args)
  | .unary symbol operand =>
    match UnaryOperator.ofSymbol? symbol with
    | none => ""
    | some op => op.code (operand.parenthesized (operand.scopedCode fun place => scope (0 :: place)))
  | .binary symbol left right =>
    match BinaryOperator.ofSymbol? symbol with
    | none => ""
    | some op =>
      op.code (left.parenthesized (left.scopedCode fun place => scope (0 :: place)))
        (right.parenthesized (right.scopedCode fun place => scope (1 :: place)))
  | .conditional condition whenTrue whenFalse =>
    "(" ++ condition.scopedCode (fun place => scope (0 :: place)) ++ " ? "
      ++ whenTrue.scopedCode (fun place => scope (1 :: place)) ++ " : "
      ++ whenFalse.scopedCode (fun place => scope (2 :: place)) ++ ")"

/-- The codes of arguments that are numbered from `i` on. -/
def scopedCodes (scope : Place → List Nat) (i : Nat) : List Expr → List String
  | [] => []
  | arg :: rest => arg.scopedCode (fun place => scope (i :: place)) :: scopedCodes scope (i + 1) rest

end

mutual

/-- What a context is asked for the code of a tree: each argument is framed, and a call is compiled after its
arguments. -/
def scopedRequests (aggregates : String → Bool) (scope : Place → List Nat) : Expr → List Request
  | .boolean _ | .number _ | .text _ | .variable _ => []
  | .call name args =>
    scopedRequestsOf aggregates scope ⟨name, aggregates name⟩ 0 args ++
      [.callCode name args.length (scope [])]
  | .unary _ operand => operand.scopedRequests aggregates fun place => scope (0 :: place)
  | .binary _ left right =>
    left.scopedRequests aggregates (fun place => scope (0 :: place)) ++
      right.scopedRequests aggregates fun place => scope (1 :: place)
  | .conditional condition whenTrue whenFalse =>
    condition.scopedRequests aggregates (fun place => scope (0 :: place)) ++
      (whenTrue.scopedRequests aggregates (fun place => scope (1 :: place)) ++
        whenFalse.scopedRequests aggregates fun place => scope (2 :: place))

def scopedRequestsOf (aggregates : String → Bool) (scope : Place → List Nat) (frame : Frame) (i : Nat) :
    List Expr → List Request
  | [] => []
  | arg :: rest =>
    .beginFrame frame.name frame.aggregate ::
      (arg.scopedRequests aggregates (fun place => scope (i :: place)) ++
        .endFrame frame.name :: scopedRequestsOf aggregates scope frame (i + 1) rest)

end

mutual

/-- The script of a tree whose variables stand in these scopes. -/
def scopedScript (scope : Place → List Nat) : Expr → Script
  | .boolean b => .literal (.boolean b)
  | .number n => .literal (.number n)
  | .text s => .literal (.text s)
  | .variable name => .variable name (scope [])
  | .call name args => .call name (scopedScripts scope 0 args)
  | .unary symbol operand =>
    match UnaryOperator.ofSymbol? symbol with
    | none => .literal .empty
    | some op => .unary op (operand.scopedScript fun place => scope (0 :: place))
  | .binary symbol left right =>
    match BinaryOperator.ofSymbol? symbol with
    | none => .literal .empty
    | some op =>
      op.script (left.scopedScript fun place => scope (0 :: place))
        (right.scopedScript fun place => scope (1 :: place))
  | .conditional condition whenTrue whenFalse =>
    .conditional (condition.scopedScript fun place => scope (0 :: place))
      (whenTrue.scopedScript fun place => scope (1 :: place))
      (whenFalse.scopedScript fun place => scope (2 :: place))

def scopedScripts (scope : Place → List Nat) (i : Nat) : List Expr → List Script
  | [] => []
  | arg :: rest => arg.scopedScript (fun place => scope (i :: place)) :: scopedScripts scope (i + 1) rest

end

section Walk

variable {m : Type → Type} [Monad m]

mutual

/-- The value of a tree where each variable is looked up in the scope that its place has. -/
def walkScoped (ctx : Context m) (bindings : Bindings) (scope : Place → List Nat) :
    Expr → Answer m Value
  | .boolean b => pure (.boolean b)
  | .number n => pure (.number n)
  | .text s => pure (.text s)
  | .variable name => ctx.lookupScoped name (scope []) bindings
  | .call name args => do
    let values ← walkScopedAll ctx bindings scope 0 args
    ctx.call name values
  | .unary symbol operand =>
    match UnaryOperator.ofSymbol? symbol with
    | none => throw (.unknownOperator symbol)
    | some op => do
      let a ← operand.walkScoped ctx bindings fun place => scope (0 :: place)
      pure (op.apply a)
  | .binary symbol left right =>
    match BinaryOperator.ofSymbol? symbol with
    | none => throw (.unknownOperator symbol)
    | some op =>
      op.run (left.walkScoped ctx bindings fun place => scope (0 :: place))
        (right.walkScoped ctx bindings fun place => scope (1 :: place))
  | .conditional condition whenTrue whenFalse => do
    let c ← condition.walkScoped ctx bindings fun place => scope (0 :: place)
    if c.isTruthy then whenTrue.walkScoped ctx bindings fun place => scope (1 :: place)
    else whenFalse.walkScoped ctx bindings fun place => scope (2 :: place)

def walkScopedAll (ctx : Context m) (bindings : Bindings) (scope : Place → List Nat) (i : Nat) :
    List Expr → Answer m (List Value)
  | [] => pure []
  | arg :: rest => do
    let value ← arg.walkScoped ctx bindings fun place => scope (i :: place)
    let values ← walkScopedAll ctx bindings scope (i + 1) rest
    pure (value :: values)

end

end Walk

end Expr

end Formulary
