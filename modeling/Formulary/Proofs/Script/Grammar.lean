import Formulary.Script.Parser

/-!
# The grammar of scripts

The derivations of the grammar that `Script.Parser` reads, as data: what they yield, what they mean and
how deep they nest. The chains of operators are levels, from the operands of the tightest up:

    expression ::= level3 | level3 '?' expression ':' expression
    level(n+1) ::= level(n) | level(n+1) operator(n) level(n)
    level0     ::= primary | '!' level0
    primary    ::= literal | '(' expression ')' | call

`ofLexemes_derivation`: the tokens of every derivation that does not nest too deep are read as what it
means. The readers of chains and lists go on from left to right, so the induction says of such a phrase
what is left for its loop to do (`ReadsAs`).
-/

namespace Formulary

namespace Script

/-! ## Derivations -/

inductive Phrase where
  | expression
  | level (n : Nat)
  | primary
  /-- The arguments of a call, each after a comma. -/
  | arguments

/-- What the derivations of a phrase mean. -/
abbrev Phrase.Meaning : Phrase → Type
  | arguments => List Script
  | _ => Script

/-- The operators that make a level out of the one below it. -/
def operator? : Nat → Token → Option BinaryOperator
  | 0 => Reader.equality?
  | 1 => Reader.and?
  | 2 => Reader.or?
  | _ => fun _ => none

/-- The aggregate index that a number denotes, if it does. -/
def index? (n : Number) : Option Nat :=
  match n.toInt? with
  | some i =>
    if n.trunc.equals n ∧ (Number.zero false).lessOrEqual n then some (min i.toNat (2 ^ (64 : Nat) - 1))
    else none
  | none => none

/-- A number that denotes an aggregate index. -/
structure Index where
  number : Number
  value : Nat
  denotes : index? number = some value

inductive Derivation : Phrase → Type where
  | plain (condition : Derivation (.level 3)) : Derivation .expression
  | conditional (condition : Derivation (.level 3)) (whenTrue whenFalse : Derivation .expression) :
    Derivation .expression
  | tighter (n : Nat) (inner : Derivation (.level n)) : Derivation (.level (n + 1))
  | binary (n : Nat) (token : Token) (op : BinaryOperator) (hop : operator? n token = some op)
    (left : Derivation (.level (n + 1))) (right : Derivation (.level n)) :
    Derivation (.level (n + 1))
  | not (operand : Derivation (.level 0)) : Derivation (.level 0)
  | tight (inner : Derivation .primary) : Derivation (.level 0)
  | number (n : Number) : Derivation .primary
  | negative (n : Number) : Derivation .primary
  | negativeInfinity : Derivation .primary
  | text (s : String) : Derivation .primary
  | constant (name : String) (value : Value) (hname : Reader.constant? name = some value) :
    Derivation .primary
  | parenthesized (inner : Derivation .expression) : Derivation .primary
  | variable (name : String) (indices : List Index) : Derivation .primary
  | call (name : String) (args : Derivation .arguments) : Derivation .primary
  | scale (symbol : String) (left right : Derivation .expression) : Derivation .primary
  | operation (name : String) (op : BinaryOperator) (hname : Reader.operation? name = some op)
    (left right : Derivation .expression) : Derivation .primary
  | conversion (name : String) (op : UnaryOperator) (hname : Reader.conversion? name = some op)
    (operand : Derivation .expression) : Derivation .primary
  | none : Derivation .arguments
  | argument (before : Derivation .arguments) (last : Derivation .expression) :
    Derivation .arguments

namespace Derivation

/-- The tokens of a derivation from left to right. -/
@[simp]
def yield : {phrase : Phrase} → Derivation phrase → List Token
  | _, plain condition => condition.yield
  | _, conditional condition whenTrue whenFalse =>
    condition.yield ++ .question :: (whenTrue.yield ++ .colon :: whenFalse.yield)
  | _, tighter _ inner => inner.yield
  | _, binary _ token _ _ left right => left.yield ++ token :: right.yield
  | _, not operand => .bang :: operand.yield
  | _, tight inner => inner.yield
  | _, number n => [.number n]
  | _, negative n => [.minus, .number n]
  | _, negativeInfinity => [.minus, .word "Infinity"]
  | _, text s => [.text s]
  | _, constant name _ _ => [.word name]
  | _, parenthesized inner => .open :: (inner.yield ++ [.close])
  | _, .variable name indices =>
    .word "var" :: .open :: .text name ::
      (indices.flatMap (fun index => [.comma, .number index.number]) ++ [.close])
  | _, call name args => .word "call" :: .open :: .text name :: (args.yield ++ [.close])
  | _, scale symbol left right =>
    .word "binary_operator" :: .open :: .text symbol :: .comma ::
      (left.yield ++ .comma :: (right.yield ++ [.close]))
  | _, operation name _ _ left right =>
    .word name :: .open :: (left.yield ++ .comma :: (right.yield ++ [.close]))
  | _, conversion name _ _ operand => .word name :: .open :: (operand.yield ++ [.close])
  | _, none => []
  | _, argument before last => before.yield ++ .comma :: last.yield

/-- The script that a derivation means, or the scripts of arguments. -/
@[simp]
def meaning : {phrase : Phrase} → Derivation phrase → phrase.Meaning
  | _, plain condition => condition.meaning
  | _, conditional condition whenTrue whenFalse =>
    Script.conditional condition.meaning whenTrue.meaning whenFalse.meaning
  | _, tighter _ inner => inner.meaning
  | _, binary _ _ op _ left right => Script.binary op left.meaning right.meaning
  | _, not operand => Script.unary .not operand.meaning
  | _, tight inner => inner.meaning
  | _, number n => Script.literal (.number n)
  | _, negative n => Script.literal (.number n.neg)
  | _, negativeInfinity => Script.literal (.number (.infinity true))
  | _, text s => Script.literal (.text s)
  | _, constant _ value _ => Script.literal value
  | _, parenthesized inner => inner.meaning
  | _, .variable name indices => Script.variable name (indices.map Index.value)
  | _, call name args => Script.call name args.meaning
  | _, scale symbol left right => Script.scale symbol left.meaning right.meaning
  | _, operation _ op _ left right => Script.binary op left.meaning right.meaning
  | _, conversion _ op _ operand => Script.unary op operand.meaning
  | _, none => ([] : List Script)
  | _, argument before last => (before.meaning ++ [last.meaning] : List Script)

/-- How many expressions and operands of `!` stand inside each other at most. -/
@[simp]
def nesting : {phrase : Phrase} → Derivation phrase → Nat
  | _, plain condition => 1 + condition.nesting
  | _, conditional condition whenTrue whenFalse =>
    1 + max condition.nesting (max whenTrue.nesting whenFalse.nesting)
  | _, tighter _ inner => inner.nesting
  | _, binary _ _ _ _ left right => max left.nesting right.nesting
  | _, not operand => 1 + operand.nesting
  | _, tight inner => inner.nesting
  | _, number _ | _, negative _ | _, negativeInfinity | _, text _ | _, constant _ _ _ => 0
  | _, parenthesized inner => inner.nesting
  | _, .variable _ _ => 0
  | _, call _ args => args.nesting
  | _, scale _ left right => max left.nesting right.nesting
  | _, operation _ _ _ left right => max left.nesting right.nesting
  | _, conversion _ _ _ operand => operand.nesting
  | _, none => 0
  | _, argument before last => max before.nesting last.nesting

/-- How many times the loop over a chain or over arguments goes round. -/
@[simp]
def rounds : {phrase : Phrase} → Derivation phrase → Nat
  | _, binary _ _ _ _ left _ => left.rounds + 1
  | _, argument before _ => before.rounds + 1
  | _, _ => 0

end Derivation

/-! ## Tokens ahead -/

/-- No operator of the levels below `n`. -/
def Stops (n : Nat) (token : Token) : Prop := ∀ k < n, operator? k token = none

/-- What may come after a phrase. -/
def Follows : Phrase → Token → Prop
  | .level n, token => Stops (n - 1) token
  | .primary, _ => True
  | _, token => Stops 3 token ∧ token ≠ .question

theorem Stops.mono {n k : Nat} {token : Token} (h : Stops n token) (hle : k ≤ n) : Stops k token :=
  fun i hi => h i (by omega)

/-- Every token is an operator of one level at most. -/
theorem stops_of_operator {n : Nat} {token : Token} {op : BinaryOperator}
    (h : operator? n token = some op) : Stops n token := by
  intro k hk
  match n, k with
  | 0, _ => exact absurd hk (Nat.not_lt_zero _)
  | 1, 0 => cases token <;> simp_all [operator?, Reader.and?, Reader.equality?]
  | 2, 0 => cases token <;> simp_all [operator?, Reader.or?, Reader.equality?]
  | 2, 1 => cases token <;> simp_all [operator?, Reader.or?, Reader.and?]
  | n + 3, _ => exact nomatch h

theorem ne_finish_of_operator {n : Nat} {token : Token} {op : BinaryOperator}
    (h : operator? n token = some op) : token ≠ .finish := by
  rintro rfl
  match n with
  | 0 | 1 | 2 | n + 3 => exact nomatch h

/-- The tokens that end an expression. -/
theorem follows_of_end {token : Token}
    (h : token = .comma ∨ token = .close ∨ token = .colon ∨ token = .finish) :
    Follows .expression token := by
  refine ⟨fun k _ => ?_, ?_⟩
  · match k with
    | 0 | 1 | 2 | k + 3 => rcases h with rfl | rfl | rfl | rfl <;> rfl
  · rcases h with rfl | rfl | rfl | rfl <;> decide

theorem stops_question : Stops 3 .question := fun k _ => by
  match k with
  | 0 | 1 | 2 | k + 3 => rfl

theorem exists_cons_of_map {lexemes : List Lexeme} {token : Token} {tokens : List Token}
    (h : lexemes.map Lexeme.token = token :: tokens) : ∃ offset rest,
      lexemes = ⟨token, offset⟩ :: rest ∧ rest.map Lexeme.token = tokens := by
  obtain ⟨lexeme, rest, rfl, rfl, rfl⟩ := List.map_eq_cons_iff.1 h
  exact ⟨lexeme.offset, rest, rfl, rfl⟩

namespace Reader

theorem next_token (lexemes : List Lexeme) :
    (next lexemes).token = (lexemes.map Lexeme.token).headD .finish := by
  cases lexemes <;> rfl

theorem advance_cons {token : Token} (h : token ≠ .finish) (offset : Nat) (rest : List Lexeme) :
    advance (⟨token, offset⟩ :: rest) = rest := by
  cases token <;> first | rfl | exact absurd rfl h

theorem expect_cons {token : Token} (h : token ≠ .finish) (wanted : Wanted) (offset : Nat)
    (rest : List Lexeme) : expect token wanted (⟨token, offset⟩ :: rest) = .ok rest := by
  simp only [expect, next, ↓reduceIte, advance_cons h]

end Reader

/-! ## Reading derivations -/

open Reader

/-- The reader of a level where so many levels of nesting are left. -/
def readLevel (fuel nesting : Nat) : Nat → Reader Script
  | 0 => operand fuel (nestedOperand fuel nesting) (nestedExpression fuel nesting)
  | n + 1 => chain fuel (operator? n) (readLevel fuel nesting n)

/-- The phrase is read up to `after`; a chain or arguments, as far as the rounds of the loop that have
been made. -/
def ReadsAs (fuel nesting rounds : Nat) :
    (phrase : Phrase) → phrase.Meaning → (before after : List Lexeme) → Prop
  | .expression, script, before, after =>
    nestedExpression fuel nesting before = .ok (script, after)
  | .level 0, script, before, after => readLevel fuel nesting 0 before = .ok (script, after)
  | .level (n + 1), script, before, after =>
    readLevel fuel nesting (n + 1) before =
      chainFrom (operator? n) (readLevel fuel nesting n) (fuel - rounds) script after
  | .primary, script, before, after =>
    primary fuel (nestedExpression fuel nesting) before = .ok (script, after)
  | .arguments, scripts, before, after =>
    afterCommas (nestedExpression fuel nesting) fuel [] before =
      afterCommas (nestedExpression fuel nesting) (fuel - rounds) scripts after

/-- Derivations that do not nest too deep are read. -/
def Complete {phrase : Phrase} (d : Derivation phrase) : Prop :=
  ∀ (fuel nesting : Nat) {before : List Lexeme} {rest : List Token},
    d.nesting ≤ nesting → d.yield.length ≤ fuel → before.map Lexeme.token = d.yield ++ rest →
    Follows phrase (rest.headD .finish) →
    ∃ after, after.map Lexeme.token = rest ∧
      ReadsAs fuel nesting d.rounds phrase d.meaning before after

theorem chainFrom_stop {operator? : Token → Option BinaryOperator} {part : Reader Script}
    {lexemes : List Lexeme} (h : operator? (next lexemes).token = none) (fuel : Nat)
    (script : Script) : chainFrom operator? part fuel script lexemes = .ok (script, lexemes) := by
  cases fuel with
  | zero => rfl
  | succ fuel => rw [chainFrom, h]

theorem afterCommas_stop {α : Type} {item : Reader α} {lexemes : List Lexeme}
    (h : (next lexemes).token ≠ .comma) (fuel : Nat) (items : List α) :
    afterCommas item fuel items lexemes = .ok (items, lexemes) := by
  cases fuel with
  | zero => rfl
  | succ fuel => rw [afterCommas, if_neg h]

/-- A level is read to its end if no operator follows. -/
theorem readLevel_of_readsAs {fuel nesting rounds n : Nat} {script : Script}
    {before after : List Lexeme} (h : ReadsAs fuel nesting rounds (.level n) script before after)
    (hstop : Stops n (next after).token) : readLevel fuel nesting n before = .ok (script, after) := by
  cases n with
  | zero => exact h
  | succ n => exact Eq.trans h (chainFrom_stop (hstop n (Nat.lt_succ_self n)) _ _)

theorem rounds_le_length {phrase : Phrase} (d : Derivation phrase) : d.rounds ≤ d.yield.length := by
  induction d with
  | binary n token op hop left right ihl ihr => simp [Derivation.rounds, Derivation.yield]; omega
  | argument before last ihb ihl => simp [Derivation.rounds, Derivation.yield]; omega
  | _ => exact Nat.zero_le _

/-- A level below an operator or the end, read whole. -/
theorem Complete.level {n : Nat} {d : Derivation (.level n)} (h : Complete d) (fuel nesting : Nat)
    {before : List Lexeme} {rest : List Token} (hnesting : d.nesting ≤ nesting)
    (hfuel : d.yield.length ≤ fuel) (hbefore : before.map Lexeme.token = d.yield ++ rest)
    (hstop : Stops n (rest.headD .finish)) : ∃ after, after.map Lexeme.token = rest ∧
      readLevel fuel nesting n before = .ok (d.meaning, after) := by
  obtain ⟨after, hafter, hreads⟩ := h fuel nesting hnesting hfuel hbefore (hstop.mono (Nat.sub_le n 1))
  refine ⟨after, hafter, readLevel_of_readsAs hreads ?_⟩
  rw [next_token, hafter]
  exact hstop

/-- An expression before one of the tokens that end it. -/
theorem Complete.expression {d : Derivation .expression} (h : Complete d) (fuel nesting : Nat)
    {before : List Lexeme} {token : Token} {rest : List Token} (hnesting : d.nesting ≤ nesting)
    (hfuel : d.yield.length ≤ fuel)
    (hbefore : before.map Lexeme.token = d.yield ++ token :: rest)
    (htoken : token = .comma ∨ token = .close ∨ token = .colon ∨ token = .finish) :
    ∃ offset after, after.map Lexeme.token = rest ∧
      nestedExpression fuel nesting before = .ok (d.meaning, ⟨token, offset⟩ :: after) := by
  obtain ⟨after, hafter, hreads⟩ := h fuel nesting hnesting hfuel hbefore (follows_of_end htoken)
  obtain ⟨offset, after, rfl, hrest⟩ := exists_cons_of_map hafter
  exact ⟨offset, after, hrest, hreads⟩

section Cases

variable {n : Nat}

theorem complete_plain {condition : Derivation (.level 3)} (h : Complete condition) :
    Complete (.plain condition) := by
  intro fuel nesting before rest hnesting hfuel hbefore hfollows
  obtain ⟨nesting, rfl⟩ : ∃ k, nesting = k + 1 :=
    ⟨nesting - 1, by rw [Derivation.nesting] at hnesting; omega⟩
  rw [Derivation.nesting] at hnesting
  obtain ⟨after, hafter, hread⟩ := h.level fuel nesting (by omega) hfuel hbefore hfollows.1
  refine ⟨after, hafter, ?_⟩
  have hnext : (next after).token ≠ .question := by
    rw [next_token, hafter]
    exact hfollows.2
  have hchains : chains fuel (operand fuel (nestedOperand fuel nesting)
      (nestedExpression fuel nesting)) before = .ok (condition.meaning, after) := hread
  show nestedExpression fuel (nesting + 1) before = _
  rw [nestedExpression, branches, hchains]
  simp only [bind, Except.bind]
  rw [if_neg hnext]
  rfl

theorem complete_conditional {condition : Derivation (.level 3)}
    {whenTrue whenFalse : Derivation .expression} (hcondition : Complete condition)
    (htrue : Complete whenTrue) (hfalse : Complete whenFalse) :
    Complete (.conditional condition whenTrue whenFalse) := by
  intro fuel nesting before rest hnesting hfuel hbefore hfollows
  obtain ⟨nesting, rfl⟩ : ∃ k, nesting = k + 1 :=
    ⟨nesting - 1, by rw [Derivation.nesting] at hnesting; omega⟩
  rw [Derivation.nesting] at hnesting
  simp only [Derivation.yield, List.length_append, List.length_cons] at hfuel
  simp only [Derivation.yield, List.append_assoc, List.cons_append] at hbefore
  obtain ⟨after, hafter, hread⟩ := hcondition.level fuel nesting (by omega) (by omega) hbefore stops_question
  obtain ⟨offset, inside, rfl, hinside⟩ := exists_cons_of_map hafter
  obtain ⟨offset', after', hafter', hread'⟩ :=
    htrue.expression fuel nesting (by omega) (by omega) hinside (.inr (.inr (.inl rfl)))
  obtain ⟨after'', hafter'', hread''⟩ := hfalse fuel nesting (by omega) (by omega) hafter' hfollows
  refine ⟨after'', hafter'', ?_⟩
  have hchains : chains fuel (operand fuel (nestedOperand fuel nesting)
      (nestedExpression fuel nesting)) before =
        .ok (condition.meaning, ⟨.question, offset⟩ :: inside) := hread
  have hwhenFalse : nestedExpression fuel nesting after' = .ok (whenFalse.meaning, after'') := hread''
  show nestedExpression fuel (nesting + 1) before = _
  rw [nestedExpression, branches, hchains]
  simp only [bind, Except.bind, next, ↓reduceIte, advance, hread', expect_cons, ne_eq, reduceCtorEq,
    not_false_eq_true, hwhenFalse]
  rfl

theorem complete_tighter {inner : Derivation (.level n)} (h : Complete inner) :
    Complete (.tighter n inner) := by
  intro fuel nesting before rest hnesting hfuel hbefore hfollows
  obtain ⟨after, hafter, hread⟩ := h.level fuel nesting hnesting hfuel hbefore hfollows
  refine ⟨after, hafter, ?_⟩
  show readLevel fuel nesting (n + 1) before = _
  rw [readLevel, chain, hread]
  rfl

theorem complete_binary {token : Token} {op : BinaryOperator} (hop : operator? n token = some op)
    {left : Derivation (.level (n + 1))} {right : Derivation (.level n)} (hleft : Complete left)
    (hright : Complete right) : Complete (.binary n token op hop left right) := by
  intro fuel nesting before rest hnesting hfuel hbefore hfollows
  have hrounds := rounds_le_length left
  rw [Derivation.nesting] at hnesting
  simp only [Derivation.yield, List.length_append, List.length_cons] at hfuel
  simp only [Derivation.yield, List.append_assoc, List.cons_append] at hbefore
  obtain ⟨middle, hmiddle, hread⟩ :=
    hleft fuel nesting (by omega) (by omega) hbefore (stops_of_operator hop)
  obtain ⟨offset, inside, rfl, hinside⟩ := exists_cons_of_map hmiddle
  obtain ⟨after, hafter, hread'⟩ := hright.level fuel nesting (by omega) (by omega) hinside hfollows
  refine ⟨after, hafter, ?_⟩
  have hspare : fuel - left.rounds = fuel - (left.rounds + 1) + 1 := by omega
  refine Eq.trans hread ?_
  rw [hspare, chainFrom]
  simp only [next, hop, advance_cons (ne_finish_of_operator hop), hread']
  rfl

theorem complete_not {inner : Derivation (.level 0)} (h : Complete inner) :
    Complete (.not inner) := by
  intro fuel nesting before rest hnesting hfuel hbefore hfollows
  obtain ⟨nesting, rfl⟩ : ∃ k, nesting = k + 1 :=
    ⟨nesting - 1, by rw [Derivation.nesting] at hnesting; omega⟩
  rw [Derivation.nesting] at hnesting
  simp only [Derivation.yield, List.length_cons] at hfuel
  obtain ⟨offset, inside, rfl, hinside⟩ := exists_cons_of_map hbefore
  obtain ⟨after, hafter, hread⟩ := h fuel nesting (by omega) (by omega) hinside hfollows
  refine ⟨after, hafter, ?_⟩
  have hinner : nestedOperand fuel (nesting + 1) inside = .ok (inner.meaning, after) := hread
  show readLevel fuel (nesting + 1) 0 _ = _
  rw [readLevel, operand]
  simp only [next, ↓reduceIte, advance, hinner, bind, Except.bind]
  rfl

/-- No primary starts with an exclamation mark. -/
theorem exists_yield_primary (d : Derivation .primary) :
    ∃ token rest, d.yield = token :: rest ∧ token ≠ .bang := by
  cases d <;> exact ⟨_, _, rfl, by simp⟩

theorem complete_tight {inner : Derivation .primary} (h : Complete inner) :
    Complete (.tight inner) := by
  intro fuel nesting before rest hnesting hfuel hbefore hfollows
  obtain ⟨after, hafter, hread⟩ := h fuel nesting hnesting hfuel hbefore trivial
  refine ⟨after, hafter, ?_⟩
  obtain ⟨token, more, hyield, htoken⟩ := exists_yield_primary inner
  have hnext : (next before).token ≠ .bang := by
    rw [next_token, hbefore, Derivation.yield, hyield]
    exact htoken
  show readLevel fuel nesting 0 before = _
  rw [readLevel, operand, if_neg hnext]
  exact hread

/-- A primary of one token. -/
theorem complete_single {d : Derivation .primary} {token : Token} {value : Value}
    (hyield : d.yield = [token]) (hmeaning : d.meaning = Script.literal value)
    (hread : ∀ fuel expression offset rest,
      primary fuel expression (⟨token, offset⟩ :: rest) = .ok (Script.literal value, rest)) :
    Complete d := by
  intro fuel nesting before rest _ _ hbefore _
  rw [hyield] at hbefore
  obtain ⟨offset, after, rfl, hafter⟩ := exists_cons_of_map hbefore
  refine ⟨after, hafter, ?_⟩
  show primary fuel _ _ = _
  rw [hread, hmeaning]

theorem complete_signed {d : Derivation .primary} {token : Token} {value : Value}
    (hyield : d.yield = [.minus, token]) (hmeaning : d.meaning = Script.literal value)
    (hread : ∀ fuel expression offset offset' rest,
      primary fuel expression (⟨.minus, offset⟩ :: ⟨token, offset'⟩ :: rest) =
        .ok (Script.literal value, rest)) :
    Complete d := by
  intro fuel nesting before rest _ _ hbefore _
  rw [hyield] at hbefore
  obtain ⟨offset, inside, rfl, hinside⟩ := exists_cons_of_map hbefore
  obtain ⟨offset', after, rfl, hafter⟩ := exists_cons_of_map hinside
  refine ⟨after, hafter, ?_⟩
  show primary fuel _ _ = _
  rw [hread, hmeaning]

theorem complete_parenthesized {inner : Derivation .expression} (h : Complete inner) :
    Complete (.parenthesized inner) := by
  intro fuel nesting before rest hnesting hfuel hbefore _
  simp only [Derivation.yield, List.length_append, List.length_cons] at hfuel
  simp only [Derivation.yield, List.cons_append, List.append_assoc, List.nil_append] at hbefore
  obtain ⟨offset, inside, rfl, hinside⟩ := exists_cons_of_map hbefore
  obtain ⟨offset', after, hafter, hread⟩ :=
    h.expression fuel nesting hnesting (by omega) hinside (.inr (.inl rfl))
  refine ⟨after, hafter, ?_⟩
  show primary fuel (nestedExpression fuel nesting) _ = _
  simp only [primary, hread, bind, Except.bind, expect_cons, ne_eq, reduceCtorEq, not_false_eq_true]
  rfl

end Cases

/-! ## Calls -/

/-- A word before an opening parenthesis is read by `callBody` and its closing parenthesis. -/
theorem primary_call {fuel : Nat} {expression : Reader Script} {name : String} {script : Script}
    {inside after : List Lexeme} (offset : Nat) (hname : constant? name = none)
    (hbody : callBody fuel expression name inside = .ok (script, ⟨.close, offset⟩ :: after))
    (offset' offset'' : Nat) :
    primary fuel expression (⟨.word name, offset'⟩ :: ⟨.open, offset''⟩ :: inside) =
      .ok (script, after) := by
  simp only [primary, hname, callOf, expect_cons, ne_eq, reduceCtorEq, not_false_eq_true, bind,
    Except.bind, hbody]

theorem constant?_of_operation {name : String} {op : BinaryOperator}
    (h : operation? name = some op) : constant? name = none ∧
      name ≠ "var" ∧ name ≠ "call" ∧ name ≠ "binary_operator" := by
  unfold operation? at h
  split at h <;> simp_all [constant?]

theorem constant?_of_conversion {name : String} {op : UnaryOperator}
    (h : conversion? name = some op) : constant? name = none ∧ operation? name = none ∧
      name ≠ "var" ∧ name ≠ "call" ∧ name ≠ "binary_operator" := by
  unfold conversion? at h
  split at h <;> simp_all [constant?, operation?]

theorem expectIndex_cons (index : Index) (offset : Nat) (rest : List Lexeme) :
    expectIndex (⟨.number index.number, offset⟩ :: rest) = .ok (index.value, rest) := by
  have h := index.denotes
  unfold index? at h
  unfold expectIndex
  split at h
  · next i hi =>
    simp only [hi]
    split at h
    · next hc => rw [if_pos hc, Option.some.inj h]
    · exact nomatch h
  · exact nomatch h

/-- Indices after commas are read up to the first token that is no comma. -/
theorem afterCommas_indices (indices : List Index) {fuel : Nat} {before : List Lexeme}
    {token : Token} {rest : List Token} (items : List Nat) (hfuel : indices.length ≤ fuel)
    (hbefore : before.map Lexeme.token =
      indices.flatMap (fun index => [.comma, .number index.number]) ++ token :: rest)
    (htoken : token ≠ .comma) : ∃ offset after, after.map Lexeme.token = rest ∧
      afterCommas expectIndex fuel items before =
        .ok (items ++ indices.map Index.value, ⟨token, offset⟩ :: after) := by
  induction indices generalizing fuel before items with
  | nil =>
    obtain ⟨offset, after, rfl, hafter⟩ := exists_cons_of_map hbefore
    refine ⟨offset, after, hafter, ?_⟩
    rw [List.map_nil, List.append_nil]
    exact afterCommas_stop (by exact htoken) fuel items
  | cons index indices ih =>
    simp only [List.flatMap_cons, List.cons_append, List.nil_append] at hbefore
    obtain ⟨offset, inside, rfl, hinside⟩ := exists_cons_of_map hbefore
    obtain ⟨offset', inside, rfl, hrest⟩ := exists_cons_of_map hinside
    rw [List.length_cons] at hfuel
    obtain ⟨fuel, rfl⟩ : ∃ k, fuel = k + 1 := ⟨fuel - 1, by omega⟩
    have hspare : indices.length ≤ fuel := by omega
    obtain ⟨offset'', after, hafter, hread⟩ := ih (items ++ [index.value]) hspare hrest
    refine ⟨offset'', after, hafter, ?_⟩
    rw [afterCommas]
    simp only [next, ↓reduceIte, advance, expectIndex_cons, bind, Except.bind, hread]
    simp

section Calls

variable {fuel nesting : Nat}

theorem complete_variable (name : String) (indices : List Index) :
    Complete (.variable name indices) := by
  intro fuel nesting before rest _ hfuel hbefore _
  simp only [Derivation.yield, List.length_append, List.length_cons, List.length_flatMap] at hfuel
  simp only [Derivation.yield, List.cons_append, List.append_assoc, List.nil_append] at hbefore
  obtain ⟨_, inside, rfl, hopen⟩ := exists_cons_of_map hbefore
  obtain ⟨_, inside, rfl, htext⟩ := exists_cons_of_map hopen
  obtain ⟨_, inside, rfl, hindices⟩ := exists_cons_of_map htext
  have hlength : indices.length ≤ fuel := by
    simp only [List.length_nil, List.map_const', List.sum_replicate_nat] at hfuel
    omega
  obtain ⟨offset, after, hafter, hread⟩ := afterCommas_indices indices [] hlength hindices (by decide)
  refine ⟨after, hafter, ?_⟩
  show primary fuel (nestedExpression fuel nesting) _ = _
  refine primary_call offset (by rfl) ?_ _ _
  rw [callBody, if_pos rfl]
  simp only [expectText, bind, Except.bind, hread]
  rfl

theorem complete_call (name : String) {args : Derivation .arguments} (h : Complete args) :
    Complete (.call name args) := by
  intro fuel nesting before rest hnesting hfuel hbefore _
  simp only [Derivation.yield, List.length_append, List.length_cons] at hfuel
  simp only [Derivation.yield, List.cons_append, List.append_assoc, List.nil_append] at hbefore
  obtain ⟨_, inside, rfl, hopen⟩ := exists_cons_of_map hbefore
  obtain ⟨_, inside, rfl, htext⟩ := exists_cons_of_map hopen
  obtain ⟨_, inside, rfl, hargs⟩ := exists_cons_of_map htext
  obtain ⟨after, hafter, hread⟩ :=
    h fuel nesting hnesting (by omega) hargs (follows_of_end (.inr (.inl rfl)))
  obtain ⟨offset, after, rfl, hrest⟩ := exists_cons_of_map hafter
  refine ⟨after, hrest, ?_⟩
  have hclose : (next (⟨.close, offset⟩ :: after)).token ≠ .comma := by simp [next]
  have hcommas : afterCommas (nestedExpression fuel nesting) fuel [] inside =
      .ok (args.meaning, ⟨.close, offset⟩ :: after) := Eq.trans hread (afterCommas_stop hclose _ _)
  show primary fuel (nestedExpression fuel nesting) _ = _
  refine primary_call offset (by rfl) ?_ _ _
  rw [callBody, if_neg (by decide), if_pos rfl]
  simp only [expectText, bind, Except.bind, hcommas]
  rfl

/-- Two expressions with a comma between them, before a closing parenthesis. -/
theorem pair_complete {left right : Derivation .expression} (hleft : Complete left)
    (hright : Complete right) {before : List Lexeme} {rest : List Token}
    (hnesting : max left.nesting right.nesting ≤ nesting)
    (hfuel : left.yield.length + right.yield.length ≤ fuel)
    (hbefore : before.map Lexeme.token = left.yield ++ .comma :: (right.yield ++ .close :: rest)) :
    ∃ offset after, after.map Lexeme.token = rest ∧
      pair (nestedExpression fuel nesting) before =
        .ok ((left.meaning, right.meaning), ⟨.close, offset⟩ :: after) := by
  obtain ⟨_, inside, hinside, hread⟩ :=
    hleft.expression fuel nesting (by omega) (by omega) hbefore (.inl rfl)
  obtain ⟨offset, after, hafter, hread'⟩ :=
    hright.expression fuel nesting (by omega) (by omega) hinside (.inr (.inl rfl))
  refine ⟨offset, after, hafter, ?_⟩
  simp only [pair, hread, bind, Except.bind, expect_cons, ne_eq, reduceCtorEq, not_false_eq_true,
    hread']

theorem complete_scale (symbol : String) {left right : Derivation .expression} (hleft : Complete left)
    (hright : Complete right) : Complete (.scale symbol left right) := by
  intro fuel nesting before rest hnesting hfuel hbefore _
  simp only [Derivation.yield, List.length_append, List.length_cons] at hfuel
  simp only [Derivation.yield, List.cons_append, List.append_assoc, List.nil_append] at hbefore
  obtain ⟨_, inside, rfl, hopen⟩ := exists_cons_of_map hbefore
  obtain ⟨_, inside, rfl, htext⟩ := exists_cons_of_map hopen
  obtain ⟨_, inside, rfl, hcomma⟩ := exists_cons_of_map htext
  obtain ⟨_, inside, rfl, hpair⟩ := exists_cons_of_map hcomma
  have hlength : left.yield.length + right.yield.length ≤ fuel := by omega
  obtain ⟨offset, after, hafter, hread⟩ := pair_complete hleft hright hnesting hlength hpair
  refine ⟨after, hafter, ?_⟩
  show primary fuel (nestedExpression fuel nesting) _ = _
  refine primary_call offset (by rfl) ?_ _ _
  rw [callBody, if_neg (by decide), if_neg (by decide), if_pos rfl]
  simp only [expectText, bind, Except.bind, expect_cons, ne_eq, reduceCtorEq, not_false_eq_true,
    hread]
  rfl

theorem complete_operation {name : String} {op : BinaryOperator} (hname : operation? name = some op)
    {left right : Derivation .expression} (hleft : Complete left) (hright : Complete right) :
    Complete (.operation name op hname left right) := by
  intro fuel nesting before rest hnesting hfuel hbefore _
  simp only [Derivation.yield, List.length_append, List.length_cons] at hfuel
  simp only [Derivation.yield, List.cons_append, List.append_assoc, List.nil_append] at hbefore
  obtain ⟨_, inside, rfl, hopen⟩ := exists_cons_of_map hbefore
  obtain ⟨_, inside, rfl, hpair⟩ := exists_cons_of_map hopen
  have hlength : left.yield.length + right.yield.length ≤ fuel := by omega
  obtain ⟨offset, after, hafter, hread⟩ := pair_complete hleft hright hnesting hlength hpair
  refine ⟨after, hafter, ?_⟩
  obtain ⟨hconstant, hvar, hcall, hscale⟩ := constant?_of_operation hname
  show primary fuel (nestedExpression fuel nesting) _ = _
  refine primary_call offset hconstant ?_ _ _
  rw [callBody, if_neg hvar, if_neg hcall, if_neg hscale]
  simp only [hname, bind, Except.bind, hread]
  rfl

theorem complete_conversion {name : String} {op : UnaryOperator} (hname : conversion? name = some op)
    {inner : Derivation .expression} (h : Complete inner) :
    Complete (.conversion name op hname inner) := by
  intro fuel nesting before rest hnesting hfuel hbefore _
  simp only [Derivation.yield, List.length_append, List.length_cons] at hfuel
  simp only [Derivation.yield, List.cons_append, List.append_assoc, List.nil_append] at hbefore
  obtain ⟨_, inside, rfl, hopen⟩ := exists_cons_of_map hbefore
  obtain ⟨_, inside, rfl, hinner⟩ := exists_cons_of_map hopen
  obtain ⟨offset, after, hafter, hread⟩ :=
    h.expression fuel nesting hnesting (by omega) hinner (.inr (.inl rfl))
  refine ⟨after, hafter, ?_⟩
  obtain ⟨hconstant, hoperation, hvar, hcall, hscale⟩ := constant?_of_conversion hname
  show primary fuel (nestedExpression fuel nesting) _ = _
  refine primary_call offset hconstant ?_ _ _
  rw [callBody, if_neg hvar, if_neg hcall, if_neg hscale]
  simp only [hname, hoperation, bind, Except.bind, hread]
  rfl

theorem complete_argument {args : Derivation .arguments} {last : Derivation .expression}
    (hargs : Complete args) (hlast : Complete last) : Complete (.argument args last) := by
  intro fuel nesting before rest hnesting hfuel hbefore hfollows
  have hrounds := rounds_le_length args
  rw [Derivation.nesting] at hnesting
  simp only [Derivation.yield, List.length_append, List.length_cons] at hfuel
  simp only [Derivation.yield, List.append_assoc, List.cons_append] at hbefore
  obtain ⟨middle, hmiddle, hread⟩ :=
    hargs fuel nesting (by omega) (by omega) hbefore (follows_of_end (.inl rfl))
  obtain ⟨_, inside, rfl, hinside⟩ := exists_cons_of_map hmiddle
  obtain ⟨after, hafter, hread'⟩ := hlast fuel nesting (by omega) (by omega) hinside hfollows
  refine ⟨after, hafter, ?_⟩
  have hspare : fuel - args.rounds = fuel - (args.rounds + 1) + 1 := by omega
  have hexpression : nestedExpression fuel nesting inside = .ok (last.meaning, after) := hread'
  refine Eq.trans hread ?_
  rw [hspare, afterCommas]
  simp only [next, ↓reduceIte, advance, bind, Except.bind, hexpression]
  rfl

end Calls

/-- **Completeness.** Every derivation that does not nest too deep is read as what it means. -/
theorem complete {phrase : Phrase} (d : Derivation phrase) : Complete d := by
  induction d with
  | plain condition ih => exact complete_plain ih
  | conditional condition whenTrue whenFalse ihc iht ihf => exact complete_conditional ihc iht ihf
  | tighter n inner ih => exact complete_tighter ih
  | binary n token op hop left right ihl ihr => exact complete_binary hop ihl ihr
  | not operand ih => exact complete_not ih
  | tight inner ih => exact complete_tight ih
  | number n => exact complete_single rfl rfl fun _ _ _ _ => rfl
  | negative n => exact complete_signed rfl rfl fun _ _ _ _ _ => rfl
  | negativeInfinity => exact complete_signed rfl rfl fun _ _ _ _ _ => rfl
  | text s => exact complete_single rfl rfl fun _ _ _ _ => rfl
  | constant name value hname =>
    exact complete_single rfl rfl fun _ _ _ _ => by simp only [primary, hname]
  | parenthesized inner ih => exact complete_parenthesized ih
  | «variable» name indices => exact complete_variable name indices
  | call name args ih => exact complete_call name ih
  | scale symbol left right ihl ihr => exact complete_scale symbol ihl ihr
  | operation name op hname left right ihl ihr => exact complete_operation hname ihl ihr
  | conversion name op hname operand ih => exact complete_conversion hname ih
  | none =>
    intro fuel nesting before rest _ _ hbefore _
    exact ⟨before, hbefore, rfl⟩
  | argument before last ihb ihl => exact complete_argument ihb ihl

/-- The tokens of a derivation, followed by the last one, are read as what it means. -/
theorem ofLexemes_derivation {d : Derivation .expression} {nesting : Nat} {lexemes : List Lexeme}
    (hnesting : d.nesting ≤ nesting) (htokens : lexemes.map Lexeme.token = d.yield ++ [.finish]) :
    ofLexemes nesting lexemes = .ok d.meaning := by
  have hlength : d.yield.length ≤ lexemes.length := by
    have := congrArg List.length htokens
    simp at this
    omega
  obtain ⟨offset, after, -, hread⟩ :=
    (complete d).expression lexemes.length nesting hnesting hlength htokens (.inr (.inr (.inr rfl)))
  simp only [ofLexemes, hread, bind, Except.bind, next, ↓reduceIte]

end Script

end Formulary
