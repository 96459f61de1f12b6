import Formulary.Proofs.Source.Reading
import Formulary.Proofs.Source.Spacing

/-!
# Trees as text

`Written strength expr nesting tokens`: the tokens are one way to write the tree where nothing that binds
more loosely than `strength` may stand without parentheses. It is said with the strengths of the operators,
not with the grammar, and any further parentheses are allowed. `nesting` counts the parentheses, arguments,
branches, operands of prefixes and exponents that stand inside each other.

Every writing is derived by the grammar, with this meaning and this nesting (`Written.stands`). So however
it is spaced, it is read back as the tree (`Written.ofText?_eq_ok_iff`).
-/

namespace Formulary

open Formulary.Parser

/-! ## Strengths -/

namespace BinaryOperator

/-- How tightly an operator binds: a conditional has strength 1, a prefix 8 and what needs no parentheses
anywhere 10. -/
def strength : BinaryOperator → Nat
  | or => 2
  | and => 3
  | equal | strictEqual | notEqual | strictNotEqual => 4
  | lessThan | lessEqual | greaterThan | greaterEqual => 5
  | add | subtract => 6
  | multiply | divide | remainder => 7
  | power => 9

/-- What an operator needs on its left: chains group to the left, but powers do not. -/
def leftStrength : BinaryOperator → Nat
  | power => 10
  | op => op.strength

/-- What an operator needs on its right; an exponent may have a prefix. -/
def rightStrength : BinaryOperator → Nat
  | power => 8
  | op => op.strength + 1

/-- How much deeper the right operand nests. -/
def rightNesting : BinaryOperator → Nat
  | power => 1
  | _ => 0

end BinaryOperator

/-! ## Writings -/

/-- A tree with tokens that write it. -/
structure Writing where
  expr : Expr
  nesting : Nat
  tokens : List Token

namespace Writing

/-- The tokens of arguments, with commas between them. -/
def argumentTokens : List Writing → List Token
  | [] => []
  | first :: rest => first.tokens ++ rest.flatMap (.comma :: ·.tokens)

def argumentNesting : List Writing → Nat
  | [] => 0
  | first :: rest => max (1 + first.nesting) (argumentNesting rest)

end Writing

inductive Written : Nat → Expr → Nat → List Token → Prop where
  | boolean (strength : Nat) (b : Bool) : Written strength (.boolean b) 0 [.boolean b]
  | number (strength : Nat) (n : Number) : Written strength (.number n) 0 [.number n]
  | text (strength : Nat) (s : String) : Written strength (.text s) 0 [.text s]
  | variable (strength : Nat) (name : String) : Written strength (.variable name) 0 [.name name]
  | call (strength : Nat) (name : String) {args : List Writing}
    (hargs : ∀ arg ∈ args, Written 1 arg.expr arg.nesting arg.tokens) :
    Written strength (.call name (args.map Writing.expr)) (Writing.argumentNesting args)
      (.name name :: .open :: (Writing.argumentTokens args ++ [.close]))
  | unary {strength : Nat} {symbol : String} {op : UnaryOperator} {operand : Expr} {k : Nat}
    {tokens : List Token} (hstrength : strength ≤ 8) (hop : UnaryOperator.ofSymbol? symbol = some op)
    (h : Written 8 operand k tokens) :
    Written strength (.unary symbol operand) (1 + k) (prefixToken op :: tokens)
  | binary {strength : Nat} {symbol : String} {op : BinaryOperator} {left right : Expr} {k k' : Nat}
    {tokens tokens' : List Token} (hstrength : strength ≤ op.strength)
    (hop : BinaryOperator.ofSymbol? symbol = some op) (hleft : Written op.leftStrength left k tokens)
    (hright : Written op.rightStrength right k' tokens') :
    Written strength (.binary symbol left right) (max k (op.rightNesting + k'))
      (tokens ++ .operator op :: tokens')
  | conditional {strength : Nat} {condition whenTrue whenFalse : Expr} {k k' k'' : Nat}
    {tokens tokens' tokens'' : List Token} (hstrength : strength ≤ 1)
    (hcondition : Written 2 condition k tokens) (htrue : Written 1 whenTrue k' tokens')
    (hfalse : Written 1 whenFalse k'' tokens'') :
    Written strength (.conditional condition whenTrue whenFalse) (max k (max (1 + k') (1 + k'')))
      (tokens ++ .question :: (tokens' ++ .colon :: tokens''))
  | parenthesized (strength : Nat) {expr : Expr} {k : Nat} {tokens : List Token}
    (h : Written 1 expr k tokens) : Written strength expr (1 + k) (.open :: (tokens ++ [.close]))

/-! ## Derivations of writings -/

/-- The grammar derives the tokens, with this meaning and nesting. -/
def Yields (phrase : Phrase) (tokens : List Token) (meaning : phrase.Meaning) (nesting : Nat) : Prop :=
  ∃ d : Derivation phrase, d.yield = tokens ∧ d.meaning = meaning ∧ d.nesting = nesting

namespace Yields

variable {expr expr' expr'' : Expr} {k k' k'' : Nat} {tokens tokens' tokens'' : List Token}

theorem plain (h : Yields (.level 6) tokens expr k) : Yields .conditional tokens expr (1 + k) := by
  obtain ⟨d, rfl, rfl, rfl⟩ := h
  exact ⟨.plain d, rfl, rfl, rfl⟩

theorem tighter {n : Nat} (h : Yields (.level n) tokens expr k) : Yields (.level (n + 1)) tokens expr k := by
  obtain ⟨d, rfl, rfl, rfl⟩ := h
  exact ⟨.tighter n d, rfl, rfl, rfl⟩

theorem tight (h : Yields .power tokens expr k) : Yields (.level 0) tokens expr k := by
  obtain ⟨d, rfl, rfl, rfl⟩ := h
  exact ⟨.tight d, rfl, rfl, rfl⟩

theorem bare (h : Yields .primary tokens expr k) : Yields .power tokens expr k := by
  obtain ⟨d, rfl, rfl, rfl⟩ := h
  exact ⟨.bare d, rfl, rfl, rfl⟩

theorem parenthesized (h : Yields .conditional tokens expr k) :
    Yields .primary (.open :: (tokens ++ [.close])) expr k := by
  obtain ⟨d, rfl, rfl, rfl⟩ := h
  exact ⟨.parenthesized d, rfl, rfl, rfl⟩

theorem unary (op : UnaryOperator) (h : Yields (.level 0) tokens expr k) :
    Yields (.level 0) (prefixToken op :: tokens) (.unary op.symbol expr) (1 + k) := by
  obtain ⟨d, rfl, rfl, rfl⟩ := h
  exact ⟨.unary op d, rfl, rfl, rfl⟩

theorem binary {n : Nat} {op : BinaryOperator} (hop : op ∈ operators n)
    (h : Yields (.level (n + 1)) tokens expr k) (h' : Yields (.level n) tokens' expr' k') :
    Yields (.level (n + 1)) (tokens ++ .operator op :: tokens') (.binary op.symbol expr expr')
      (max k k') := by
  obtain ⟨d, rfl, rfl, rfl⟩ := h
  obtain ⟨d', rfl, rfl, rfl⟩ := h'
  exact ⟨.binary n op hop d d', rfl, rfl, rfl⟩

theorem power (h : Yields .primary tokens expr k) (h' : Yields (.level 0) tokens' expr' k') :
    Yields .power (tokens ++ .operator .power :: tokens')
      (.binary BinaryOperator.power.symbol expr expr') (max k (1 + k')) := by
  obtain ⟨d, rfl, rfl, rfl⟩ := h
  obtain ⟨d', rfl, rfl, rfl⟩ := h'
  exact ⟨.power d d', rfl, rfl, rfl⟩

theorem conditional (h : Yields (.level 6) tokens expr k) (h' : Yields .conditional tokens' expr' k')
    (h'' : Yields .conditional tokens'' expr'' k'') :
    Yields .conditional (tokens ++ .question :: (tokens' ++ .colon :: tokens''))
      (.conditional expr expr' expr'') (1 + max k (max k' k'')) := by
  obtain ⟨d, rfl, rfl, rfl⟩ := h
  obtain ⟨d', rfl, rfl, rfl⟩ := h'
  obtain ⟨d'', rfl, rfl, rfl⟩ := h''
  exact ⟨.conditional d d' d'', rfl, rfl, rfl⟩

/-- Arguments after others. -/
theorem arguments {args : List Writing} {exprs : List Expr}
    (hargs : ∀ arg ∈ args, Yields .conditional arg.tokens arg.expr (1 + arg.nesting))
    (h : Yields .arguments tokens exprs k) :
    Yields .arguments (tokens ++ args.flatMap (.comma :: ·.tokens)) (exprs ++ args.map Writing.expr)
      (max k (Writing.argumentNesting args)) := by
  induction args generalizing tokens exprs k with
  | nil => simpa [Writing.argumentNesting] using h
  | cons arg args ih =>
    obtain ⟨before, rfl, rfl, rfl⟩ := h
    obtain ⟨last, hyield, hmeaning, hnesting⟩ := hargs arg List.mem_cons_self
    have hfront : Yields .arguments (before.yield ++ .comma :: arg.tokens)
        ((before.meaning ++ [arg.expr] : List Expr)) (max before.nesting (1 + arg.nesting)) :=
      ⟨.argument before last, by rw [Derivation.yield, hyield], by rw [Derivation.meaning, hmeaning],
        by rw [Derivation.nesting, hnesting]⟩
    have hall := ih (fun x hx => hargs x (List.mem_cons_of_mem _ hx)) hfront
    simpa [Writing.argumentNesting, max_assoc] using hall

theorem call (name : String) {args : List Writing}
    (hargs : ∀ arg ∈ args, Yields .conditional arg.tokens arg.expr (1 + arg.nesting)) :
    Yields .primary (.name name :: .open :: (Writing.argumentTokens args ++ [.close]))
      (.call name (args.map Writing.expr)) (Writing.argumentNesting args) := by
  cases args with
  | nil => exact ⟨.emptyCall name, rfl, rfl, rfl⟩
  | cons first rest =>
    obtain ⟨arg, hyield, hmeaning, hnesting⟩ := hargs first List.mem_cons_self
    have hfirst : Yields .arguments first.tokens ([first.expr] : List Expr) (1 + first.nesting) :=
      ⟨.first arg, hyield, by rw [Derivation.meaning, hmeaning], hnesting⟩
    obtain ⟨d, hd, hd', hd''⟩ := arguments (fun x hx => hargs x (List.mem_cons_of_mem _ hx)) hfirst
    exact ⟨.call name d, by rw [Derivation.yield, hd]; rfl, by rw [Derivation.meaning, hd']; rfl, hd''⟩

end Yields

/-- The tokens are derived where such a strength is needed. -/
def Stands (strength : Nat) (expr : Expr) (nesting : Nat) (tokens : List Token) : Prop :=
  match strength with
  | 0 | 1 => Yields .conditional tokens expr (1 + nesting)
  | 2 => Yields (.level 6) tokens expr nesting
  | 3 => Yields (.level 5) tokens expr nesting
  | 4 => Yields (.level 4) tokens expr nesting
  | 5 => Yields (.level 3) tokens expr nesting
  | 6 => Yields (.level 2) tokens expr nesting
  | 7 => Yields (.level 1) tokens expr nesting
  | 8 => Yields (.level 0) tokens expr nesting
  | 9 => Yields .power tokens expr nesting
  | _ + 10 => Yields .primary tokens expr nesting

namespace Stands

variable {expr expr' : Expr} {k k' : Nat} {tokens tokens' : List Token}

theorem looser {n : Nat} (h : Stands (n + 1) expr k tokens) : Stands n expr k tokens := by
  match n with
  | 0 => exact h
  | 1 => exact Yields.plain h
  | 2 | 3 | 4 | 5 | 6 | 7 => exact Yields.tighter h
  | 8 => exact Yields.tight h
  | 9 => exact Yields.bare h
  | _ + 10 => exact h

theorem mono {n strength : Nat} (h : Stands n expr k tokens) (hle : strength ≤ n) :
    Stands strength expr k tokens := by
  induction hle with
  | refl => exact h
  | step hle ih => exact ih h.looser

/-- What needs no parentheses stands everywhere. -/
theorem primary (strength : Nat) (h : Yields .primary tokens expr k) : Stands strength expr k tokens :=
  mono (n := strength + 10) h (by omega)

theorem binary (op : BinaryOperator) (h : Stands op.leftStrength expr k tokens)
    (h' : Stands op.rightStrength expr' k' tokens') :
    Stands op.strength (.binary op.symbol expr expr') (max k (op.rightNesting + k'))
      (tokens ++ .operator op :: tokens') := by
  by_cases hpower : op = .power
  · obtain rfl := hpower
    exact Yields.power h h'
  · have hnesting : op.rightNesting + k' = k' := by
      cases op <;> first | exact absurd rfl hpower | exact Nat.zero_add k'
    rw [hnesting]
    cases op with
    | multiply | divide | remainder => exact Yields.binary (n := 0) (by decide) h h'
    | add | subtract => exact Yields.binary (n := 1) (by decide) h h'
    | lessThan | lessEqual | greaterThan | greaterEqual => exact Yields.binary (n := 2) (by decide) h h'
    | equal | strictEqual | notEqual | strictNotEqual => exact Yields.binary (n := 3) (by decide) h h'
    | and => exact Yields.binary (n := 4) (by decide) h h'
    | or => exact Yields.binary (n := 5) (by decide) h h'
    | power => exact absurd rfl hpower

end Stands

/-- Every writing is derived with its meaning and its nesting. -/
theorem Written.stands {strength nesting : Nat} {expr : Expr} {tokens : List Token}
    (h : Written strength expr nesting tokens) : Stands strength expr nesting tokens := by
  induction h with
  | boolean strength b => exact .primary strength ⟨.boolean b, rfl, rfl, rfl⟩
  | number strength n => exact .primary strength ⟨.number n, rfl, rfl, rfl⟩
  | text strength s => exact .primary strength ⟨.text s, rfl, rfl, rfl⟩
  | «variable» strength name => exact .primary strength ⟨.variable name, rfl, rfl, rfl⟩
  | call strength name hargs ih => exact .primary strength (.call name ih)
  | @unary strength symbol op operand k tokens hstrength hop h ih =>
    obtain rfl := UnaryOperator.symbol_of_ofSymbol? hop
    exact Stands.mono (n := 8) (Yields.unary op ih) hstrength
  | @binary strength symbol op left right k k' tokens tokens' hstrength hop hleft hright ihl ihr =>
    obtain rfl := BinaryOperator.symbol_of_ofSymbol? hop
    exact (Stands.binary op ihl ihr).mono hstrength
  | @conditional strength condition whenTrue whenFalse k k' k'' tokens tokens' tokens'' hstrength
      hcondition htrue hfalse ihc iht ihf =>
    exact Stands.mono (n := 1) (Yields.conditional ihc iht ihf) hstrength
  | parenthesized strength h ih => exact .primary strength (.parenthesized ih)

/-! ## Reading back -/

mutual

/-- Every number in the tree is finite and without a sign, and no name has the quote of names in it. -/
def Expr.Writable : Expr → Prop
  | .boolean _ | .text _ => True
  | .number n => (Token.number n).Writable
  | .variable name => (Token.name name).Writable
  | .call name args => (Token.name name).Writable ∧ WritableAll args
  | .unary _ operand => operand.Writable
  | .binary _ left right => left.Writable ∧ right.Writable
  | .conditional condition whenTrue whenFalse =>
    condition.Writable ∧ whenTrue.Writable ∧ whenFalse.Writable

def Expr.WritableAll : List Expr → Prop
  | [] => True
  | expr :: rest => expr.Writable ∧ WritableAll rest

end

theorem Expr.writableAll_iff {exprs : List Expr} :
    WritableAll exprs ↔ ∀ expr ∈ exprs, expr.Writable := by
  induction exprs with
  | nil => simp [WritableAll]
  | cons expr rest ih => simp [WritableAll, ih]

theorem Writing.mem_argumentTokens {args : List Writing} {token : Token}
    (h : token ∈ Writing.argumentTokens args) : token = .comma ∨ ∃ arg ∈ args, token ∈ arg.tokens := by
  cases args with
  | nil => exact nomatch h
  | cons first rest =>
    simp only [argumentTokens, List.mem_append, List.mem_flatMap, List.mem_cons] at h
    rcases h with h | ⟨arg, harg, rfl | h⟩
    · exact .inr ⟨first, List.mem_cons_self, h⟩
    · exact .inl rfl
    · exact .inr ⟨arg, List.mem_cons_of_mem _ harg, h⟩

namespace Written

variable {strength nesting : Nat} {expr : Expr} {tokens : List Token}

theorem writable_tokens (h : Written strength expr nesting tokens) (hexpr : expr.Writable) :
    ∀ token ∈ tokens, token.Writable := by
  induction h with
  | boolean | number | text | «variable» =>
    intro token htoken
    obtain rfl := List.mem_singleton.1 htoken
    exact hexpr
  | call strength name hargs ih =>
    obtain ⟨hname, hexprs⟩ := hexpr
    have hexprs := Expr.writableAll_iff.1 hexprs
    intro token htoken
    simp only [List.mem_cons, List.mem_append, List.not_mem_nil, or_false] at htoken
    rcases htoken with rfl | rfl | htoken | rfl
    · exact hname
    · trivial
    · rcases Writing.mem_argumentTokens htoken with rfl | ⟨arg, harg, hmem⟩
      · trivial
      · exact ih arg harg (hexprs _ (List.mem_map_of_mem harg)) token hmem
    · trivial
  | @unary strength symbol op operand k tokens hstrength hop h ih =>
    intro token htoken
    rcases List.mem_cons.1 htoken with rfl | htoken
    · cases op <;> trivial
    · exact ih hexpr token htoken
  | binary hstrength hop hleft hright ihl ihr =>
    intro token htoken
    simp only [List.mem_append, List.mem_cons] at htoken
    rcases htoken with htoken | rfl | htoken
    · exact ihl hexpr.1 token htoken
    · trivial
    · exact ihr hexpr.2 token htoken
  | conditional hstrength hcondition htrue hfalse ihc iht ihf =>
    intro token htoken
    simp only [List.mem_append, List.mem_cons] at htoken
    rcases htoken with htoken | rfl | htoken | rfl | htoken
    · exact ihc hexpr.1 token htoken
    · trivial
    · exact iht hexpr.2.1 token htoken
    · trivial
    · exact ihf hexpr.2.2 token htoken
  | parenthesized strength h ih =>
    intro token htoken
    simp only [List.mem_cons, List.mem_append, List.not_mem_nil, or_false] at htoken
    rcases htoken with rfl | htoken | rfl
    · trivial
    · exact ih hexpr token htoken
    · trivial

/-- A spaced writing of a whole tree is cut into what a derivation of the tree yields. -/
theorem exists_derivation (h : Written 1 expr nesting tokens) (hexpr : expr.Writable)
    {source : String} (hlayout : Token.Layout tokens source.toList) :
    ∃ d : Derivation .conditional, Lexemes.Cut source.toList d.yield ∧ d.meaning = expr ∧
      d.nesting = 1 + nesting := by
  obtain ⟨d, hyield, hmeaning, hnesting⟩ := h.stands
  have hcut := hlayout.cut (hyield ▸ d.yield_spaced.chain) (h.writable_tokens hexpr)
  exact ⟨d, hyield ▸ hcut, hmeaning, hnesting⟩

/-- **Reading back.** A spaced writing is read as its tree if and only if neither it nests nor the tree is
too deep. -/
theorem ofText?_eq_ok_iff (h : Written 1 expr nesting tokens) (hexpr : expr.Writable)
    {source : String} (hlayout : Token.Layout tokens source.toList) :
    Expr.ofText? source = .ok expr ↔ 1 + nesting ≤ Expr.maxDepth ∧ expr.depth ≤ Expr.maxDepth := by
  obtain ⟨d, hcut, rfl, hnesting⟩ := h.exists_derivation hexpr hlayout
  constructor
  · intro haccepted
    obtain ⟨d', hcut', -, -, hbound, hdepth⟩ := derivation_of_ofText? haccepted
    obtain rfl := Derivation.unique (hcut.unique hcut')
    exact ⟨hnesting ▸ hbound, hdepth⟩
  · rintro ⟨hbound, hdepth⟩
    exact ofText?_derivation hcut (hnesting ▸ hbound) hdepth

end Written

end Formulary
