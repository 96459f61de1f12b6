import Formulary.Proofs.Expr.Recognized
import Formulary.Proofs.Reader
import Formulary.Source.Parser
import Mathlib.Data.List.Chain

/-!
# The grammar of formulas

The derivations of the grammar that `Parser` reads, as data: what they yield, what they mean and how deep
they nest. From the loosest phrase to the tightest, where `operator n` is one of `operators n`:

    conditional ::= level6 | level6 '?' conditional ':' conditional
    level(n+1)  ::= level(n) | level(n+1) operator(n) level(n)
    level0      ::= power | prefix level0
    power       ::= primary | primary '^' level0
    primary     ::= number | text | boolean | name | name '(' arguments? ')' | '(' conditional ')'
    arguments   ::= conditional | arguments ',' conditional

The grammar is unambiguous (`Derivation.unique`). It refers to itself on the left, so the induction for this
is on the parts of a chain, which come from left to right (`Derivation.parts`).
-/

namespace Formulary

namespace Parser

/-! ## Derivations -/

inductive Phrase where
  | conditional
  | level (n : Nat)
  | power
  | primary
  /-- The arguments of a call, at least one. -/
  | arguments

/-- What the derivations of a phrase mean. -/
abbrev Phrase.Meaning : Phrase → Type
  | arguments => List Expr
  | _ => Expr

/-- The operators that make a level out of the one below it. -/
def operators : Nat → List BinaryOperator
  | 0 => [.multiply, .divide, .remainder]
  | 1 => [.add, .subtract]
  | 2 => [.lessThan, .lessEqual, .greaterThan, .greaterEqual]
  | 3 => [.equal, .strictEqual, .notEqual, .strictNotEqual]
  | 4 => [.and]
  | 5 => [.or]
  | _ => []

def prefixToken : UnaryOperator → Token
  | .plus => .operator .add
  | .negate => .operator .subtract
  | .not => .bang

inductive Derivation : Phrase → Type where
  | plain (condition : Derivation (.level 6)) : Derivation .conditional
  | conditional (condition : Derivation (.level 6)) (whenTrue whenFalse : Derivation .conditional) :
    Derivation .conditional
  | tighter (n : Nat) (inner : Derivation (.level n)) : Derivation (.level (n + 1))
  | binary (n : Nat) (op : BinaryOperator) (hop : op ∈ operators n)
    (left : Derivation (.level (n + 1))) (right : Derivation (.level n)) : Derivation (.level (n + 1))
  | tight (inner : Derivation .power) : Derivation (.level 0)
  | unary (op : UnaryOperator) (operand : Derivation (.level 0)) : Derivation (.level 0)
  | bare (inner : Derivation .primary) : Derivation .power
  | power (base : Derivation .primary) (exponent : Derivation (.level 0)) : Derivation .power
  | number (n : Number) : Derivation .primary
  | text (s : String) : Derivation .primary
  | boolean (b : Bool) : Derivation .primary
  | variable (name : String) : Derivation .primary
  | emptyCall (name : String) : Derivation .primary
  | call (name : String) (args : Derivation .arguments) : Derivation .primary
  | parenthesized (inner : Derivation .conditional) : Derivation .primary
  | first (arg : Derivation .conditional) : Derivation .arguments
  | argument (before : Derivation .arguments) (last : Derivation .conditional) :
    Derivation .arguments

namespace Derivation

/-- The tokens of a derivation from left to right. -/
@[simp]
def yield : {phrase : Phrase} → Derivation phrase → List Token
  | _, plain condition => condition.yield
  | _, conditional condition whenTrue whenFalse =>
    condition.yield ++ .question :: (whenTrue.yield ++ .colon :: whenFalse.yield)
  | _, tighter _ inner => inner.yield
  | _, binary _ op _ left right => left.yield ++ .operator op :: right.yield
  | _, tight inner => inner.yield
  | _, unary op operand => prefixToken op :: operand.yield
  | _, bare inner => inner.yield
  | _, power base exponent => base.yield ++ .operator .power :: exponent.yield
  | _, number n => [.number n]
  | _, text s => [.text s]
  | _, boolean b => [.boolean b]
  | _, .variable name => [.name name]
  | _, emptyCall name => [.name name, .open, .close]
  | _, call name args => .name name :: .open :: (args.yield ++ [.close])
  | _, parenthesized inner => .open :: (inner.yield ++ [.close])
  | _, first arg => arg.yield
  | _, argument before last => before.yield ++ .comma :: last.yield

/-- The tree that a derivation means, or the trees of arguments. -/
@[simp]
def meaning : {phrase : Phrase} → Derivation phrase → phrase.Meaning
  | _, plain condition => condition.meaning
  | _, conditional condition whenTrue whenFalse =>
    Expr.conditional condition.meaning whenTrue.meaning whenFalse.meaning
  | _, tighter _ inner => inner.meaning
  | _, binary _ op _ left right => Expr.binary op.symbol left.meaning right.meaning
  | _, tight inner => inner.meaning
  | _, unary op operand => Expr.unary op.symbol operand.meaning
  | _, bare inner => inner.meaning
  | _, power base exponent =>
    Expr.binary BinaryOperator.power.symbol base.meaning exponent.meaning
  | _, number n => Expr.number n
  | _, text s => Expr.text s
  | _, boolean b => Expr.boolean b
  | _, .variable name => Expr.variable name
  | _, emptyCall name => Expr.call name []
  | _, call name args => Expr.call name args.meaning
  | _, parenthesized inner => inner.meaning
  | _, first arg => ([arg.meaning] : List Expr)
  | _, argument before last => (before.meaning ++ [last.meaning] : List Expr)

/-- How many conditionals, operands of prefixes and exponents stand inside each other at most. -/
@[simp]
def nesting : {phrase : Phrase} → Derivation phrase → Nat
  | _, plain condition => 1 + condition.nesting
  | _, conditional condition whenTrue whenFalse =>
    1 + max condition.nesting (max whenTrue.nesting whenFalse.nesting)
  | _, tighter _ inner => inner.nesting
  | _, binary _ _ _ left right => max left.nesting right.nesting
  | _, tight inner => inner.nesting
  | _, unary _ operand => 1 + operand.nesting
  | _, bare inner => inner.nesting
  | _, power base exponent => max base.nesting (1 + exponent.nesting)
  | _, number _ | _, text _ | _, boolean _ | _, .variable _ | _, emptyCall _ => 0
  | _, call _ args => args.nesting
  | _, parenthesized inner => inner.nesting
  | _, first arg => arg.nesting
  | _, argument before last => max before.nesting last.nesting

/-! ## The trees that derivations mean -/

/-- Every operator that a derivation means is known. -/
def MeansRecognized : {phrase : Phrase} → phrase.Meaning → Prop
  | .arguments, args => Expr.RecognizedAll args
  | .conditional, expr | .level _, expr | .power, expr | .primary, expr => Expr.Recognized expr

theorem meansRecognized {phrase : Phrase} (d : Derivation phrase) : MeansRecognized d.meaning := by
  induction d with
  | plain condition ih => exact ih
  | conditional condition whenTrue whenFalse ihc iht ihf => exact ⟨ihc, iht, ihf⟩
  | tighter n inner ih => exact ih
  | binary n op hop left right ihl ihr =>
    exact ⟨by rw [BinaryOperator.ofSymbol?_symbol]; rfl, ihl, ihr⟩
  | tight inner ih => exact ih
  | unary op operand ih => exact ⟨by rw [UnaryOperator.ofSymbol?_symbol]; rfl, ih⟩
  | bare inner ih => exact ih
  | power base exponent ihb ihe =>
    exact ⟨by rw [BinaryOperator.ofSymbol?_symbol]; rfl, ihb, ihe⟩
  | number | text | boolean | «variable» | emptyCall => trivial
  | call name args ih => exact ih
  | parenthesized inner ih => exact ih
  | first arg ih => exact ⟨ih, trivial⟩
  | argument before last ihb ihl =>
    have ihb := Expr.recognizedAll_iff.1 ihb
    refine Expr.recognizedAll_iff.2 fun expr hexpr => ?_
    rcases List.mem_append.1 hexpr with h | h
    · exact ihb expr h
    · exact List.mem_singleton.1 h ▸ ihl

/-- The number of nodes of what is meant. -/
@[simp]
def meantSize : {phrase : Phrase} → phrase.Meaning → Nat
  | .arguments, args => Expr.sizeAll args
  | .conditional, expr | .level _, expr | .power, expr | .primary, expr => Expr.size expr

/-- Every node stands for a token of its own. -/
theorem meantSize_le {phrase : Phrase} (d : Derivation phrase) :
    meantSize d.meaning ≤ d.yield.length := by
  induction d with
  | plain | tighter | tight | bare => assumption
  | number | text | boolean | «variable» => exact Nat.le_refl 1
  | emptyCall => exact Nat.le_add_left 1 2
  | conditional condition whenTrue whenFalse ihc iht ihf =>
    simp only [meantSize, meaning, yield, Expr.size, List.length_append, List.length_cons] at *
    omega
  | binary n op hop left right ihl ihr =>
    simp only [meantSize, meaning, yield, Expr.size, List.length_append, List.length_cons] at *
    omega
  | unary op operand ih =>
    simp only [meantSize, meaning, yield, Expr.size, List.length_cons] at *
    omega
  | power base exponent ihb ihe =>
    simp only [meantSize, meaning, yield, Expr.size, List.length_append, List.length_cons] at *
    omega
  | call name args ih =>
    simp only [meantSize, meaning, yield, Expr.size, List.length_append, List.length_cons] at *
    omega
  | parenthesized inner ih =>
    simp only [meantSize, meaning, yield, List.length_append, List.length_cons] at *
    omega
  | first arg ih =>
    simp only [meantSize, meaning, yield, Expr.sizeAll] at *
    omega
  | argument before last ihb ihl =>
    simp only [meantSize, meaning, yield, Expr.sizeAll_append, Expr.sizeAll, List.length_append,
      List.length_cons] at *
    omega

/-! ## Numbers and names -/

/-- The second token may follow the first: it is no name after a number. -/
def Adjoins (token token' : Token) : Prop := ∀ n, token = .number n → ∀ s, token' ≠ .name s

theorem chain_cons {token : Token} {tokens : List Token} (htoken : ∀ n, token ≠ .number n)
    (h : tokens.IsChain Adjoins) : (token :: tokens).IsChain Adjoins :=
  List.isChain_cons.2 ⟨fun _ _ n hn => absurd hn (htoken n), h⟩

theorem chain_append {token : Token} {tokens tokens' : List Token} (hnumber : ∀ n, token ≠ .number n)
    (hname : ∀ s, token ≠ .name s) (h : tokens.IsChain Adjoins) (h' : tokens'.IsChain Adjoins) :
    (tokens ++ token :: tokens').IsChain Adjoins := by
  refine List.isChain_append.2 ⟨h, chain_cons hnumber h', fun x _ y hy n _ s => ?_⟩
  obtain rfl := Option.some.inj hy
  exact hname s

theorem prefixToken_ne (op : UnaryOperator) (n : Number) : prefixToken op ≠ .number n := by
  cases op <;> exact fun h => nomatch h

theorem yield_chain {phrase : Phrase} (d : Derivation phrase) : d.yield.IsChain Adjoins := by
  induction d with
  | plain | tighter | tight | bare | first => assumption
  | number | text | boolean | «variable» => exact .singleton _
  | emptyCall name =>
    exact chain_cons (fun _ h => nomatch h) (chain_cons (fun _ h => nomatch h) (.singleton _))
  | conditional condition whenTrue whenFalse ihc iht ihf =>
    exact chain_append (fun _ h => nomatch h) (fun _ h => nomatch h) ihc
      (chain_append (fun _ h => nomatch h) (fun _ h => nomatch h) iht ihf)
  | binary n op hop left right ihl ihr =>
    exact chain_append (fun _ h => nomatch h) (fun _ h => nomatch h) ihl ihr
  | unary op operand ih => exact chain_cons (prefixToken_ne op) ih
  | power base exponent ihb ihe =>
    exact chain_append (fun _ h => nomatch h) (fun _ h => nomatch h) ihb ihe
  | call name args ih =>
    exact chain_cons (fun _ h => nomatch h) (chain_cons (fun _ h => nomatch h)
      (chain_append (fun _ h => nomatch h) (fun _ h => nomatch h) ih .nil))
  | parenthesized inner ih =>
    exact chain_cons (fun _ h => nomatch h)
      (chain_append (fun _ h => nomatch h) (fun _ h => nomatch h) ih .nil)
  | argument before last ihb ihl =>
    exact chain_append (fun _ h => nomatch h) (fun _ h => nomatch h) ihb ihl

/-- In what a derivation yields no name follows a number. -/
theorem not_infix_yield {phrase : Phrase} (d : Derivation phrase) (n : Number) (s : String) :
    ¬ [.number n, .name s] <:+: d.yield := by
  intro h
  have hchain := d.yield_chain.infix h
  exact (List.isChain_cons_cons.1 hchain).1 n rfl s rfl

end Derivation

/-! ## Tokens ahead -/

/-- The token, if there is one, goes on with no call, no power and no chain below level `n`. -/
structure Stops (n : Nat) (token : Option Token) : Prop where
  ne_open : token ≠ some .open
  ne_power : token ≠ some (.operator .power)
  ne_operator : ∀ k < n, ∀ op ∈ operators k, token ≠ some (.operator op)

theorem Stops.mono {n k : Nat} {token : Option Token} (h : Stops n token) (hle : k ≤ n) :
    Stops k token :=
  ⟨h.ne_open, h.ne_power, fun i hi => h.ne_operator i (Nat.lt_of_lt_of_le hi hle)⟩

theorem stops_none (n : Nat) : Stops n none := ⟨nofun, nofun, nofun⟩

theorem stops_of_ne {n : Nat} {token : Token} (hopen : token ≠ .open)
    (hop : ∀ op, token ≠ .operator op) : Stops n (some token) :=
  ⟨fun h => hopen (Option.some.inj h), fun h => hop _ (Option.some.inj h),
    fun _ _ op _ h => hop op (Option.some.inj h)⟩

theorem lt_of_mem_operators {n : Nat} {op : BinaryOperator} (h : op ∈ operators n) : n < 6 := by
  match n with
  | 0 | 1 | 2 | 3 | 4 | 5 => decide
  | n + 6 => exact nomatch h

/-- Every operator is of one level at most. -/
theorem operators_disjoint {n k : Nat} {op : BinaryOperator} (h : op ∈ operators n)
    (h' : op ∈ operators k) : n = k := by
  have hall : ∀ n < 6, ∀ k < 6, ∀ op ∈ operators n, op ∈ operators k → n = k := by decide
  exact hall n (lt_of_mem_operators h) k (lt_of_mem_operators h') op h h'

theorem power_not_mem_operators (n : Nat) : BinaryOperator.power ∉ operators n := by
  intro h
  have hall : ∀ n < 6, BinaryOperator.power ∉ operators n := by decide
  exact hall n (lt_of_mem_operators h) h

theorem stops_operator {n : Nat} {op : BinaryOperator} (h : op ∈ operators n) :
    Stops n (some (.operator op)) := by
  refine ⟨nofun, fun heq => ?_, fun k hk op' hop' heq => ?_⟩
  · obtain rfl : op = .power := by simpa using heq
    exact power_not_mem_operators n h
  · obtain rfl : op = op' := by simpa using heq
    exact Nat.ne_of_lt hk (operators_disjoint hop' h)

/-- What may come after a phrase that is not to go on. -/
def Ends : Phrase → Option Token → Prop
  | .conditional, token => Stops 6 token ∧ token ≠ some .question
  | .level n, token => Stops n token
  | .power, token => Stops 0 token
  | .primary, token => token ≠ some .open
  | .arguments, token => (Stops 6 token ∧ token ≠ some .question) ∧ token ≠ some .comma

/-! ## Unambiguity -/

/-- Any tokens that start with what the derivation yields, and end there, start with what no other
derivation of the phrase yields. -/
def Alone {phrase : Phrase} (d : Derivation phrase) : Prop :=
  ∀ (d' : Derivation phrase) (rest rest' : List Token), d.yield ++ rest = d'.yield ++ rest' →
    Ends phrase rest.head? → Ends phrase rest'.head? → d = d' ∧ rest = rest'

/-- The tokens of parts with their separators in front. -/
def separated {phrase : Phrase} (parts : List (Token × Derivation phrase)) : List Token :=
  parts.flatMap fun part => part.1 :: part.2.yield

namespace Derivation

/-- The first part of a chain, and the others with their operators. -/
@[simp]
def chainParts : {n : Nat} → Derivation (.level (n + 1)) →
    Derivation (.level n) × List (Token × Derivation (.level n))
  | _, tighter _ inner => (inner, [])
  | _, binary _ op _ left right =>
    (left.chainParts.1, left.chainParts.2 ++ [(.operator op, right)])

/-- The first argument, and the others with their commas. -/
@[simp]
def argumentParts : Derivation .arguments →
    Derivation .conditional × List (Token × Derivation .conditional)
  | first arg => (arg, [])
  | argument before last => (before.argumentParts.1, before.argumentParts.2 ++ [(.comma, last)])

theorem separated_append {phrase : Phrase} (parts : List (Token × Derivation phrase))
    (part : Token × Derivation phrase) :
    separated (parts ++ [part]) = separated parts ++ part.1 :: part.2.yield := by
  simp [separated]

theorem yield_chainParts : {n : Nat} → (d : Derivation (.level (n + 1))) →
    d.yield = d.chainParts.1.yield ++ separated d.chainParts.2
  | _, tighter _ inner => by
    rw [yield, chainParts]
    exact (List.append_nil _).symm
  | _, binary _ op _ left right => by
    rw [yield, chainParts, yield_chainParts left, separated_append, List.append_assoc]

theorem yield_argumentParts : (d : Derivation .arguments) →
    d.yield = d.argumentParts.1.yield ++ separated d.argumentParts.2
  | first arg => by
    rw [yield, argumentParts]
    exact (List.append_nil _).symm
  | argument before last => by
    rw [yield, argumentParts, yield_argumentParts before, separated_append, List.append_assoc]

theorem chainParts_injective : {n : Nat} → (d d' : Derivation (.level (n + 1))) →
    d.chainParts = d'.chainParts → d = d'
  | _, tighter _ inner, tighter _ inner', h => by
    rw [chainParts, chainParts] at h
    rw [(Prod.mk.inj h).1]
  | _, tighter _ inner, binary _ op _ left right, h => by
    rw [chainParts, chainParts] at h
    simp at h
  | _, binary _ op _ left right, tighter _ inner, h => by
    rw [chainParts, chainParts] at h
    simp at h
  | _, binary _ op hop left right, binary _ op' hop' left' right', h => by
    rw [chainParts, chainParts] at h
    obtain ⟨hfirst, hparts⟩ := Prod.mk.inj h
    obtain ⟨hbefore, hlast⟩ := List.append_inj' hparts rfl
    obtain ⟨heq, rfl⟩ := Prod.mk.inj (List.cons.inj hlast).1
    obtain rfl := Token.operator.inj heq
    rw [chainParts_injective left left' (Prod.ext hfirst hbefore)]

theorem argumentParts_injective : (d d' : Derivation .arguments) →
    d.argumentParts = d'.argumentParts → d = d'
  | first arg, first arg', h => by
    rw [argumentParts, argumentParts] at h
    rw [(Prod.mk.inj h).1]
  | first arg, argument before last, h => by
    rw [argumentParts, argumentParts] at h
    simp at h
  | argument before last, first arg, h => by
    rw [argumentParts, argumentParts] at h
    simp at h
  | argument before last, argument before' last', h => by
    rw [argumentParts, argumentParts] at h
    obtain ⟨hfirst, hparts⟩ := Prod.mk.inj h
    obtain ⟨hbefore, hlast⟩ := List.append_inj' hparts rfl
    obtain ⟨-, rfl⟩ := Prod.mk.inj (List.cons.inj hlast).1
    rw [argumentParts_injective before before' (Prod.ext hfirst hbefore)]

theorem operator_of_mem_chainParts : {n : Nat} → (d : Derivation (.level (n + 1))) →
    ∀ part ∈ d.chainParts.2, ∃ op ∈ operators n, part.1 = .operator op
  | _, tighter _ inner, part, h => by
    rw [chainParts] at h
    exact nomatch h
  | _, binary _ op hop left right, part, h => by
    rw [chainParts] at h
    rcases List.mem_append.1 h with h | h
    · exact operator_of_mem_chainParts left part h
    · exact ⟨op, hop, by rw [List.mem_singleton.1 h]⟩

theorem comma_of_mem_argumentParts : (d : Derivation .arguments) →
    ∀ part ∈ d.argumentParts.2, part.1 = .comma
  | first arg, part, h => by
    rw [argumentParts] at h
    exact nomatch h
  | argument before last, part, h => by
    rw [argumentParts] at h
    rcases List.mem_append.1 h with h | h
    · exact comma_of_mem_argumentParts before part h
    · rw [List.mem_singleton.1 h]

/-- What the phrase starts with: not the end of a call, and no prefix if it is tighter than prefixes. -/
def Starts : Phrase → Token → Prop
  | .power, token | .primary, token => token ≠ .close ∧ ∀ op, token ≠ prefixToken op
  | _, token => token ≠ .close

theorem starts_of_content {token : Token} (hclose : token ≠ .close) (hbang : token ≠ .bang)
    (hop : ∀ op, token ≠ .operator op) : Starts .primary token :=
  ⟨hclose, fun op => by cases op <;> first | exact hop _ | exact hbang⟩

theorem yield_starts {phrase : Phrase} (d : Derivation phrase) :
    ∃ token tokens, d.yield = token :: tokens ∧ Starts phrase token := by
  induction d with
  | plain | tighter | bare | first => assumption
  | tight inner ih =>
    obtain ⟨token, tokens, hyield, hstarts⟩ := ih
    exact ⟨token, tokens, hyield, hstarts.1⟩
  | number | text | boolean | «variable» =>
    exact ⟨_, [], rfl, starts_of_content nofun nofun nofun⟩
  | emptyCall | call | parenthesized => exact ⟨_, _, rfl, starts_of_content nofun nofun nofun⟩
  | unary op operand => exact ⟨_, _, rfl, by cases op <;> exact nofun⟩
  | conditional condition whenTrue whenFalse ih | power base exponent ih | argument before last ih =>
    obtain ⟨token, tokens, hyield, hstarts⟩ := ih
    rw [yield, hyield]
    exact ⟨token, _, rfl, hstarts⟩
  | binary n op hop left right ih =>
    obtain ⟨token, tokens, hyield, hstarts⟩ := ih
    rw [yield, hyield]
    exact ⟨token, _, rfl, hstarts⟩

end Derivation

section Alone

open Parser.Derivation

theorem alone_chain {n : Nat} {d : Derivation (.level (n + 1))} (hfirst : Alone d.chainParts.1)
    (hmore : ∀ part ∈ d.chainParts.2, Alone part.2) : Alone d := by
  intro d' rest rest' h hrest hrest'
  have hends : ∀ token, (∃ op ∈ operators n, token = .operator op) → Ends (.level n) (some token) := by
    rintro token ⟨op, hop, rfl⟩
    exact stops_operator hop
  have hstop : ∀ {token : Option Token}, Stops (n + 1) token →
      ∀ t ∈ token, ¬ ∃ op ∈ operators n, t = .operator op := by
    rintro token hstops t ht ⟨op, hop, rfl⟩
    exact hstops.ne_operator n (Nat.lt_succ_self n) op hop ht
  rw [yield_chainParts d, yield_chainParts d'] at h
  obtain ⟨heq, hsame⟩ := Parts.unique_first hends (operator_of_mem_chainParts d)
    (operator_of_mem_chainParts d') hfirst hmore h (hrest.mono (Nat.le_succ n))
    (hrest'.mono (Nat.le_succ n)) (hstop hrest) (hstop hrest')
  exact ⟨chainParts_injective d d' heq, hsame⟩

theorem alone_arguments {d : Derivation .arguments} (hfirst : Alone d.argumentParts.1)
    (hmore : ∀ part ∈ d.argumentParts.2, Alone part.2) : Alone d := by
  intro d' rest rest' h hrest hrest'
  have hends : ∀ token, token = .comma → Ends .conditional (some token) := by
    rintro token rfl
    exact ⟨stops_of_ne nofun nofun, nofun⟩
  have hstop : ∀ {token : Option Token}, token ≠ some .comma → ∀ t ∈ token, ¬ t = .comma := by
    rintro token hne t ht rfl
    exact hne ht
  rw [yield_argumentParts d, yield_argumentParts d'] at h
  obtain ⟨heq, hsame⟩ := Parts.unique_first hends (comma_of_mem_argumentParts d)
    (comma_of_mem_argumentParts d') hfirst hmore h hrest.1 hrest'.1 (hstop hrest.2) (hstop hrest'.2)
  exact ⟨argumentParts_injective d d' heq, hsame⟩

theorem alone_conditional {condition : Derivation (.level 6)} {whenTrue whenFalse : Derivation .conditional}
    (hcondition : Alone condition) (htrue : Alone whenTrue) (hfalse : Alone whenFalse) :
    Alone (.conditional condition whenTrue whenFalse) := by
  intro d' rest rest' h hrest hrest'
  have hquestion : Ends (.level 6) (some .question) := stops_of_ne nofun nofun
  have hcolon : Ends .conditional (some .colon) := ⟨stops_of_ne nofun nofun, nofun⟩
  cases d' with
  | plain condition' =>
    simp only [yield, List.append_assoc, List.cons_append] at h
    -- the condition would end before a question mark in one reading and at the end in the other
    obtain ⟨-, htail⟩ := hcondition _ _ _ h hquestion hrest'.1
    exact absurd (htail ▸ rfl) hrest'.2
  | conditional condition' whenTrue' whenFalse' =>
    simp only [yield, List.append_assoc, List.cons_append] at h
    obtain ⟨rfl, htail⟩ := hcondition _ _ _ h hquestion hquestion
    obtain ⟨rfl, htail'⟩ := htrue _ _ _ (List.cons.inj htail).2 hcolon hcolon
    obtain ⟨rfl, hsame⟩ := hfalse _ _ _ (List.cons.inj htail').2 hrest hrest'
    exact ⟨rfl, hsame⟩

theorem alone_plain {condition : Derivation (.level 6)} (hcondition : Alone condition) :
    Alone (.plain condition) := by
  intro d' rest rest' h hrest hrest'
  cases d' with
  | plain condition' =>
    obtain ⟨rfl, htail⟩ := hcondition _ _ _ h hrest.1 hrest'.1
    exact ⟨rfl, htail⟩
  | conditional condition' whenTrue' whenFalse' =>
    simp only [yield, List.append_assoc, List.cons_append] at h
    obtain ⟨-, htail⟩ := hcondition _ _ _ h hrest.1 (stops_of_ne nofun nofun)
    exact absurd (htail ▸ rfl) hrest.2

theorem prefixToken_injective {op op' : UnaryOperator} (h : prefixToken op = prefixToken op') :
    op = op' := by
  cases op <;> cases op' <;> simp_all [prefixToken]

theorem alone_tight {inner : Derivation .power} (hinner : Alone inner) : Alone (.tight inner) := by
  intro d' rest rest' h hrest hrest'
  cases d' with
  | tight inner' =>
    obtain ⟨rfl, hsame⟩ := hinner _ _ _ h hrest hrest'
    exact ⟨rfl, hsame⟩
  | unary op operand =>
    obtain ⟨token, tokens, hyield, hstarts⟩ := inner.yield_starts
    simp only [yield, hyield, List.cons_append, List.cons.injEq] at h
    exact absurd h.1 (hstarts.2 op)

theorem alone_unary (op : UnaryOperator) {operand : Derivation (.level 0)} (hoperand : Alone operand) :
    Alone (.unary op operand) := by
  intro d' rest rest' h hrest hrest'
  cases d' with
  | tight inner =>
    obtain ⟨token, tokens, hyield, hstarts⟩ := inner.yield_starts
    simp only [yield, hyield, List.cons_append, List.cons.injEq] at h
    exact absurd h.1.symm (hstarts.2 op)
  | unary op' operand' =>
    obtain ⟨hop, htail⟩ := List.cons.inj h
    obtain rfl := prefixToken_injective hop
    obtain ⟨rfl, hsame⟩ := hoperand _ _ _ htail hrest hrest'
    exact ⟨rfl, hsame⟩

theorem alone_bare {inner : Derivation .primary} (hinner : Alone inner) : Alone (.bare inner) := by
  intro d' rest rest' h hrest hrest'
  cases d' with
  | bare inner' =>
    obtain ⟨rfl, hsame⟩ := hinner _ _ _ h hrest.ne_open hrest'.ne_open
    exact ⟨rfl, hsame⟩
  | power base exponent =>
    simp only [yield, List.append_assoc, List.cons_append] at h
    obtain ⟨-, htail⟩ := hinner _ _ _ h hrest.ne_open nofun
    exact absurd (htail ▸ rfl) hrest.ne_power

theorem alone_power {base : Derivation .primary} {exponent : Derivation (.level 0)} (hbase : Alone base)
    (hexponent : Alone exponent) : Alone (.power base exponent) := by
  intro d' rest rest' h hrest hrest'
  cases d' with
  | bare inner =>
    simp only [yield, List.append_assoc, List.cons_append] at h
    obtain ⟨-, htail⟩ := hbase _ _ _ h nofun hrest'.ne_open
    exact absurd (htail ▸ rfl) hrest'.ne_power
  | power base' exponent' =>
    simp only [yield, List.append_assoc, List.cons_append] at h
    obtain ⟨rfl, htail⟩ := hbase _ _ _ h nofun nofun
    obtain ⟨rfl, hsame⟩ := hexponent _ _ _ (List.cons.inj htail).2 hrest hrest'
    exact ⟨rfl, hsame⟩

/-- A primary phrase without parentheses. -/
theorem alone_content {d : Derivation .primary} {token : Token} (hyield : d.yield = [token])
    (hunique : ∀ (d' : Derivation .primary) tokens, d'.yield = token :: tokens →
      d = d' ∨ ∃ more, tokens = .open :: more) : Alone d := by
  intro d' rest rest' h hrest hrest'
  obtain ⟨token', tokens, hyield', -⟩ := d'.yield_starts
  rw [hyield, hyield'] at h
  obtain ⟨rfl, htail⟩ := List.cons.inj h
  rcases hunique d' tokens hyield' with rfl | ⟨more, rfl⟩
  · rw [hyield] at hyield'
    obtain rfl := (List.cons.inj hyield').2
    exact ⟨rfl, htail⟩
  · refine absurd ?_ hrest
    rw [show rest = _ from htail]
    rfl

theorem alone_number (n : Number) : Alone (.number n) := by
  refine alone_content rfl fun d' tokens h => ?_
  cases d' <;> simp_all [yield]

theorem alone_text (s : String) : Alone (.text s) := by
  refine alone_content rfl fun d' tokens h => ?_
  cases d' <;> simp_all [yield]

theorem alone_boolean (b : Bool) : Alone (.boolean b) := by
  refine alone_content rfl fun d' tokens h => ?_
  cases d' <;> simp_all [yield]

theorem alone_variable (name : String) : Alone (.variable name) := by
  refine alone_content rfl fun d' tokens h => ?_
  cases d' with
  | number | text | boolean | parenthesized => simp [yield] at h
  | «variable» name' =>
    simp only [yield, List.cons.injEq, Token.name.injEq] at h
    exact .inl (by rw [h.1])
  | emptyCall | call => exact .inr ⟨_, (List.cons.inj h).2.symm⟩

theorem alone_emptyCall (name : String) : Alone (.emptyCall name) := by
  intro d' rest rest' h hrest hrest'
  cases d' with
  | number | text | boolean | parenthesized => simp [yield] at h
  | «variable» name' =>
    simp only [yield, List.cons_append, List.nil_append, List.cons.injEq] at h
    exact absurd (h.2 ▸ rfl) hrest'
  | emptyCall name' =>
    simp only [yield, List.cons_append, List.nil_append, List.cons.injEq, Token.name.injEq,
      true_and] at h
    obtain ⟨rfl, rfl⟩ := h
    exact ⟨rfl, rfl⟩
  | call name' args =>
    obtain ⟨token, tokens, hyield, hstarts⟩ := args.yield_starts
    simp only [yield, hyield, List.cons_append, List.nil_append, List.cons.injEq] at h
    exact absurd h.2.2.1.symm hstarts

theorem alone_call (name : String) {args : Derivation .arguments} (hargs : Alone args) :
    Alone (.call name args) := by
  intro d' rest rest' h hrest hrest'
  have hclose : Ends .arguments (some .close) := ⟨⟨stops_of_ne nofun nofun, nofun⟩, nofun⟩
  cases d' with
  | number | text | boolean | parenthesized => simp [yield] at h
  | «variable» name' =>
    simp only [yield, List.cons_append, List.nil_append, List.cons.injEq] at h
    exact absurd (h.2 ▸ rfl) hrest'
  | emptyCall name' =>
    obtain ⟨token, tokens, hyield, hstarts⟩ := args.yield_starts
    simp only [yield, hyield, List.cons_append, List.nil_append, List.cons.injEq] at h
    exact absurd h.2.2.1 hstarts
  | call name' args' =>
    simp only [yield, List.cons_append, List.append_assoc, List.nil_append, List.cons.injEq,
      Token.name.injEq, true_and] at h
    obtain ⟨rfl, htail⟩ := h
    obtain ⟨rfl, hsame⟩ := hargs _ _ _ htail hclose hclose
    exact ⟨rfl, (List.cons.inj hsame).2⟩

theorem alone_parenthesized {inner : Derivation .conditional} (hinner : Alone inner) :
    Alone (.parenthesized inner) := by
  intro d' rest rest' h hrest hrest'
  have hclose : Ends .conditional (some .close) := ⟨stops_of_ne nofun nofun, nofun⟩
  cases d' with
  | number | text | boolean | «variable» | emptyCall | call => simp [yield] at h
  | parenthesized inner' =>
    simp only [yield, List.cons_append, List.append_assoc, List.nil_append, List.cons.injEq,
      true_and] at h
    obtain ⟨rfl, hsame⟩ := hinner _ _ _ h hclose hclose
    exact ⟨rfl, (List.cons.inj hsame).2⟩

/-- What the induction over derivations shows: a chain and arguments are known by their parts. -/
def Known : {phrase : Phrase} → Derivation phrase → Prop
  | .level (_ + 1), d => Alone d.chainParts.1 ∧ ∀ part ∈ d.chainParts.2, Alone part.2
  | .arguments, d => Alone d.argumentParts.1 ∧ ∀ part ∈ d.argumentParts.2, Alone part.2
  | .conditional, d | .level 0, d | .power, d | .primary, d => Alone d

theorem Known.alone : {phrase : Phrase} → {d : Derivation phrase} → Known d → Alone d
  | .level (_ + 1), _, h => alone_chain h.1 h.2
  | .arguments, _, h => alone_arguments h.1 h.2
  | .conditional, _, h | .level 0, _, h | .power, _, h | .primary, _, h => h

theorem known {phrase : Phrase} (d : Derivation phrase) : Known d := by
  induction d with
  | plain condition ih => exact alone_plain ih.alone
  | conditional condition whenTrue whenFalse ihc iht ihf => exact alone_conditional ihc.alone iht ihf
  | tighter n inner ih =>
    rw [Known, chainParts]
    exact ⟨ih.alone, fun _ h => absurd h List.not_mem_nil⟩
  | binary n op hop left right ihl ihr =>
    rw [Known, chainParts]
    refine ⟨ihl.1, fun part hpart => ?_⟩
    rcases List.mem_append.1 hpart with h | h
    · exact ihl.2 part h
    · exact List.mem_singleton.1 h ▸ ihr.alone
  | tight inner ih => exact alone_tight ih
  | unary op operand ih => exact alone_unary op ih
  | bare inner ih => exact alone_bare ih
  | power base exponent ihb ihe => exact alone_power ihb ihe
  | number n => exact alone_number n
  | text s => exact alone_text s
  | boolean b => exact alone_boolean b
  | «variable» name => exact alone_variable name
  | emptyCall name => exact alone_emptyCall name
  | call name args ih => exact alone_call name ih.alone
  | parenthesized inner ih => exact alone_parenthesized ih
  | first arg ih =>
    rw [Known, argumentParts]
    exact ⟨ih, fun _ h => absurd h List.not_mem_nil⟩
  | argument before last ihb ihl =>
    rw [Known, argumentParts]
    refine ⟨ihb.1, fun part hpart => ?_⟩
    rcases List.mem_append.1 hpart with h | h
    · exact ihb.2 part h
    · exact List.mem_singleton.1 h ▸ ihl

end Alone

/-- **Unambiguity.** Tokens are yielded by one derivation at most. -/
theorem Derivation.unique {d d' : Derivation .conditional} (h : d.yield = d'.yield) : d = d' :=
  have hends : Ends .conditional none := ⟨stops_none 6, nofun⟩
  ((known d).alone d' [] [] (by rw [h]) hends hends).1

end Parser

end Formulary
