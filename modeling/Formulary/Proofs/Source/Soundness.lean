import Formulary.Proofs.Source.Grammar

/-!
# What is read as a formula is derived

Tokens that a reader of `Parser` accepts are yielded by a derivation of the reader's phrase, which means what
the reader gives and does not nest too deep (`Sound`). A loop goes on from a derivation of what has been read
before it, so a chain and the arguments of a call are derived from left to right.
-/

namespace Formulary

namespace Parser

open Parser.Derivation

def tokensOf (lexemes : List Lexeme) : List Token := lexemes.map Lexeme.token

variable {ending : Ending}

/-- The next token has been found readable. -/
def Arrived (ending : Ending) (lexemes : List Lexeme) : Prop :=
  lexemes = [] → ∃ offset, ending = .finish offset

theorem arrive_ok {lexemes after : List Lexeme} (h : arrive ending lexemes = .ok after) :
    after = lexemes ∧ Arrived ending lexemes := by
  unfold arrive at h
  split at h
  · exact nomatch h
  · next hfault =>
    refine ⟨(Except.ok.inj h).symm, ?_⟩
    rintro rfl
    cases ending with
    | finish offset => exact ⟨offset, rfl⟩
    | fault error => exact absurd rfl (hfault error rfl)

theorem advance_ok {lexemes after : List Lexeme} (h : advance ending lexemes = .ok after) :
    after = lexemes.tail ∧ Arrived ending after := by
  obtain ⟨rfl, harrived⟩ := arrive_ok h
  exact ⟨rfl, harrived⟩

theorem isNext_iff {token : Token} {lexemes : List Lexeme} :
    isNext token lexemes = true ↔ ∃ lexeme rest, lexemes = lexeme :: rest ∧ lexeme.token = token := by
  cases lexemes with
  | nil => simp [isNext]
  | cons lexeme rest => simp [isNext]

theorem expect_ok {token : Token} {expected : Expected} {lexemes after : List Lexeme}
    (h : expect ending token expected lexemes = .ok after) :
    tokensOf lexemes = token :: tokensOf after ∧ Arrived ending after := by
  rw [expect] at h
  split at h
  · next hnext =>
    obtain ⟨lexeme, rest, rfl, rfl⟩ := isNext_iff.1 hnext
    obtain ⟨rfl, harrived⟩ := advance_ok h
    exact ⟨rfl, harrived⟩
  · exact nomatch h

theorem nextOperator?_some {candidates : List BinaryOperator} {lexemes : List Lexeme}
    {op : BinaryOperator} (h : nextOperator? candidates lexemes = some op) :
    op ∈ candidates ∧ tokensOf lexemes = .operator op :: tokensOf lexemes.tail := by
  unfold nextOperator? at h
  split at h
  · split at h
    · next hmem =>
      obtain rfl := Option.some.inj h
      exact ⟨List.contains_iff_mem.1 hmem, rfl⟩
    · exact nomatch h
  · exact nomatch h

theorem nextPrefix?_some {lexemes : List Lexeme} {op : UnaryOperator}
    (h : nextPrefix? lexemes = some op) :
    tokensOf lexemes = prefixToken op :: tokensOf lexemes.tail := by
  unfold nextPrefix? at h
  split at h
  · obtain rfl := Option.some.inj h
    rfl
  · obtain rfl := Option.some.inj h
    rfl
  · obtain rfl := Option.some.inj h
    rfl
  · exact nomatch h

theorem tokensOf_of_isNext {token : Token} {lexemes : List Lexeme} (h : isNext token lexemes = true) :
    tokensOf lexemes = token :: tokensOf lexemes.tail := by
  obtain ⟨lexeme, rest, rfl, rfl⟩ := isNext_iff.1 h
  rfl

/-! ## Derivations of what is read -/

/-- The reader accepts only what derivations of the phrase yield, which leave `cost` of the levels of
nesting. -/
def Sound (ending : Ending) (cost nesting : Nat) (phrase : Phrase) (reader : Reader phrase.Meaning) :
    Prop :=
  ∀ ⦃lexemes x after⦄, reader lexemes = .ok (x, after) → ∃ d : Derivation phrase, d.meaning = x ∧
    cost + d.nesting ≤ nesting ∧ tokensOf lexemes = d.yield ++ tokensOf after ∧ Arrived ending after

/-- The reader of a level where so many levels of nesting are left. -/
def readLevel (ending : Ending) (fuel nesting : Nat) : Nat → Reader Expr
  | 0 => operand ending fuel (nestedOperand ending fuel nesting) (nestedConditional ending fuel nesting)
  | n + 1 => chain ending fuel (operators n) (readLevel ending fuel nesting n)

section Readers

variable {fuel nesting : Nat}

theorem chainFrom_sound {n : Nat} {part : Reader Expr} (hpart : Sound ending 0 nesting (.level n) part)
    (left : Derivation (.level (n + 1))) (hleft : left.nesting ≤ nesting) {lexemes after : List Lexeme}
    {x : Expr} (harrived : Arrived ending lexemes)
    (h : chainFrom ending (operators n) part fuel left.meaning lexemes = .ok (x, after)) :
    ∃ d : Derivation (.level (n + 1)), d.meaning = x ∧ d.nesting ≤ nesting ∧
      left.yield ++ tokensOf lexemes = d.yield ++ tokensOf after ∧ Arrived ending after := by
  induction fuel generalizing left lexemes with
  | zero =>
    obtain ⟨rfl, rfl⟩ := Prod.mk.inj (Except.ok.inj h)
    exact ⟨left, rfl, hleft, rfl, harrived⟩
  | succ fuel ih =>
    rw [chainFrom] at h
    split at h
    · obtain ⟨rfl, rfl⟩ := Prod.mk.inj (Except.ok.inj h)
      exact ⟨left, rfl, hleft, rfl, harrived⟩
    · next op hop =>
      obtain ⟨hmem, htokens⟩ := nextOperator?_some hop
      obtain ⟨inside, hadvance, h⟩ := exists_of_bind_ok h
      obtain ⟨rfl, -⟩ := advance_ok hadvance
      obtain ⟨⟨y, rest⟩, hread, h⟩ := exists_of_bind_ok h
      obtain ⟨right, rfl, hright, hyield, harrived'⟩ := hpart hread
      obtain ⟨d, hmeaning, hnesting, htokens', hend⟩ :=
        ih (.binary n op hmem left right) (by rw [Derivation.nesting]; omega) harrived' h
      refine ⟨d, hmeaning, hnesting, ?_, hend⟩
      rw [← htokens', htokens, hyield]
      simp [yield]

theorem chain_sound {n : Nat} {part : Reader Expr} (hpart : Sound ending 0 nesting (.level n) part) :
    Sound ending 0 nesting (.level (n + 1)) (chain ending fuel (operators n) part) := by
  intro lexemes x after h
  obtain ⟨⟨y, rest⟩, hread, h⟩ := exists_of_bind_ok h
  obtain ⟨first, rfl, hfirst, hyield, harrived⟩ := hpart hread
  have hleft : (Derivation.tighter n first).nesting ≤ nesting := by rw [Derivation.nesting]; omega
  obtain ⟨d, hmeaning, hnesting, htokens, hend⟩ :=
    chainFrom_sound hpart (.tighter n first) hleft harrived h
  exact ⟨d, hmeaning, by omega, hyield.trans htokens, hend⟩

/-- A primary phrase of one token. -/
theorem content_sound {d : Derivation .primary} {token : Token} {lexeme : Lexeme}
    {rest after : List Lexeme} {x : Expr} (hyield : d.yield = [token]) (hnesting : d.nesting = 0)
    (htoken : lexeme.token = token)
    (h : (do .ok (d.meaning, ← advance ending (lexeme :: rest))) = Except.ok (x, after)) :
    ∃ d : Derivation .primary, d.meaning = x ∧ 0 + d.nesting ≤ nesting ∧
      tokensOf (lexeme :: rest) = d.yield ++ tokensOf after ∧ Arrived ending after := by
  obtain ⟨after', hadvance, hdone⟩ := exists_of_bind_ok h
  obtain ⟨rfl, rfl⟩ := Prod.mk.inj (Except.ok.inj hdone)
  obtain ⟨rfl, harrived⟩ := advance_ok hadvance
  exact ⟨d, rfl, by omega, by rw [hyield, ← htoken]; rfl, harrived⟩

section Nested

variable {conditional prefixed : Reader Expr} (hconditional : Sound ending 0 nesting .conditional conditional)

include hconditional

theorem argumentsFrom_sound (before : Derivation .arguments) (hbefore : before.nesting ≤ nesting)
    {lexemes after : List Lexeme} {xs : List Expr} (harrived : Arrived ending lexemes)
    (h : argumentsFrom ending conditional fuel before.meaning lexemes = .ok (xs, after)) :
    ∃ d : Derivation .arguments, d.meaning = xs ∧ d.nesting ≤ nesting ∧
      before.yield ++ tokensOf lexemes = d.yield ++ tokensOf after ∧ Arrived ending after := by
  induction fuel generalizing before lexemes with
  | zero =>
    obtain ⟨rfl, rfl⟩ := Prod.mk.inj (Except.ok.inj h)
    exact ⟨before, rfl, hbefore, rfl, harrived⟩
  | succ fuel ih =>
    rw [argumentsFrom] at h
    split at h
    · next hcomma =>
      have htokens := tokensOf_of_isNext hcomma
      obtain ⟨inside, hadvance, h⟩ := exists_of_bind_ok h
      obtain ⟨rfl, -⟩ := advance_ok hadvance
      obtain ⟨⟨y, rest⟩, hread, h⟩ := exists_of_bind_ok h
      obtain ⟨last, rfl, hlast, hyield, harrived'⟩ := hconditional hread
      obtain ⟨d, hmeaning, hnesting, htokens', hend⟩ :=
        ih (.argument before last) (by rw [Derivation.nesting]; omega) harrived' h
      refine ⟨d, hmeaning, hnesting, ?_, hend⟩
      rw [← htokens', htokens, hyield]
      simp [yield]
    · obtain ⟨rfl, rfl⟩ := Prod.mk.inj (Except.ok.inj h)
      exact ⟨before, rfl, hbefore, rfl, harrived⟩

/-- A call from its opening parenthesis on. -/
theorem arguments_sound (name : String) {lexemes after : List Lexeme} {xs : List Expr}
    (h : arguments ending fuel conditional lexemes = .ok (xs, after)) :
    ∃ d : Derivation .primary, d.meaning = Expr.call name xs ∧ d.nesting ≤ nesting ∧
      .name name :: .open :: tokensOf lexemes = d.yield ++ tokensOf after ∧ Arrived ending after := by
  rw [arguments] at h
  split at h
  · change (do .ok ([], ← expect ending .close .closeParen lexemes)) = _ at h
    obtain ⟨after', hexpect, hdone⟩ := exists_of_bind_ok h
    obtain ⟨rfl, rfl⟩ := Prod.mk.inj (Except.ok.inj hdone)
    obtain ⟨hclose, hend⟩ := expect_ok hexpect
    exact ⟨.emptyCall name, rfl, Nat.zero_le _, by rw [hclose]; rfl, hend⟩
  · obtain ⟨⟨y, inside⟩, hread, hrest⟩ := exists_of_bind_ok h
    obtain ⟨⟨args, rest⟩, hargs, hmore⟩ := exists_of_bind_ok hrest
    obtain ⟨after', hexpect, hdone⟩ := exists_of_bind_ok hmore
    obtain ⟨rfl, rfl⟩ := Prod.mk.inj (Except.ok.inj hdone)
    obtain ⟨hclose, hend⟩ := expect_ok hexpect
    obtain ⟨first, rfl, hfirst, hyield, harrived⟩ := hconditional hread
    have hbefore : (Derivation.first first).nesting ≤ nesting := by rw [Derivation.nesting]; omega
    obtain ⟨d, rfl, hnesting, htokens, -⟩ :=
      argumentsFrom_sound hconditional (.first first) hbefore harrived hargs
    refine ⟨.call name d, rfl, hnesting, ?_, hend⟩
    rw [hyield, show first.yield ++ _ = _ from htokens, hclose]
    simp [yield]

theorem primary_sound :
    Sound ending 0 nesting .primary (primary ending fuel conditional) := by
  intro lexemes x after h
  unfold primary at h
  split at h
  · next n _ _ _ _ => exact content_sound (d := .number n) rfl rfl rfl h
  · next s _ _ _ _ => exact content_sound (d := .text s) rfl rfl rfl h
  · next b _ _ _ _ => exact content_sound (d := .boolean b) rfl rfl rfl h
  · obtain ⟨inside, hadvance, hrest⟩ := exists_of_bind_ok h
    obtain ⟨⟨y, rest⟩, hread, hmore⟩ := exists_of_bind_ok hrest
    obtain ⟨after', hexpect, hdone⟩ := exists_of_bind_ok hmore
    obtain ⟨rfl, rfl⟩ := Prod.mk.inj (Except.ok.inj hdone)
    obtain ⟨rfl, -⟩ := advance_ok hadvance
    obtain ⟨inner, rfl, hinner, hyield, -⟩ := hconditional hread
    obtain ⟨hclose, hend⟩ := expect_ok hexpect
    refine ⟨.parenthesized inner, rfl, hinner, ?_, hend⟩
    rw [hclose] at hyield
    simpa [yield, tokensOf] using hyield
  · next name _ _ _ rest =>
    obtain ⟨inside, hadvance, hrest⟩ := exists_of_bind_ok h
    obtain ⟨rfl, harrived⟩ := advance_ok hadvance
    split at hrest
    · next hopen =>
      obtain ⟨inside', hadvance', hmore⟩ := exists_of_bind_ok hrest
      obtain ⟨⟨args, rest'⟩, hread, hdone⟩ := exists_of_bind_ok hmore
      obtain ⟨rfl, rfl⟩ := Prod.mk.inj (Except.ok.inj hdone)
      obtain ⟨rfl, -⟩ := advance_ok hadvance'
      obtain ⟨d, hmeaning, hnesting, htokens, hend⟩ := arguments_sound hconditional name hread
      refine ⟨d, hmeaning, by omega, ?_, hend⟩
      rw [← htokens, ← tokensOf_of_isNext hopen]
      rfl
    · obtain ⟨rfl, rfl⟩ := Prod.mk.inj (Except.ok.inj hrest)
      exact ⟨.variable name, rfl, Nat.zero_le _, rfl, harrived⟩
  · exact nomatch h

theorem operand_sound (hprefixed : Sound ending 1 nesting (.level 0) prefixed) :
    Sound ending 0 nesting (.level 0) (operand ending fuel prefixed conditional) := by
  intro lexemes x after h
  unfold operand at h
  split at h
  · next op hop =>
    obtain ⟨inside, hadvance, hrest⟩ := exists_of_bind_ok h
    obtain ⟨⟨y, rest⟩, hread, hdone⟩ := exists_of_bind_ok hrest
    obtain ⟨rfl, rfl⟩ := Prod.mk.inj (Except.ok.inj hdone)
    obtain ⟨rfl, -⟩ := advance_ok hadvance
    obtain ⟨inner, rfl, hinner, hyield, harrived⟩ := hprefixed hread
    refine ⟨.unary op inner, rfl, by rw [Derivation.nesting]; omega, ?_, harrived⟩
    rw [nextPrefix?_some hop, hyield]
    rfl
  · obtain ⟨⟨y, rest⟩, hread, hmore⟩ := exists_of_bind_ok h
    obtain ⟨base, rfl, hbase, hyield, harrived⟩ := primary_sound hconditional hread
    dsimp only at hmore
    split at hmore
    · next hpower =>
      obtain ⟨inside, hadvance, hinside⟩ := exists_of_bind_ok hmore
      obtain ⟨⟨z, rest'⟩, hread', hdone⟩ := exists_of_bind_ok hinside
      obtain ⟨rfl, rfl⟩ := Prod.mk.inj (Except.ok.inj hdone)
      obtain ⟨rfl, -⟩ := advance_ok hadvance
      obtain ⟨exponent, rfl, hexponent, hyield', harrived'⟩ := hprefixed hread'
      refine ⟨.tight (.power base exponent), rfl, ?_, ?_, harrived'⟩
      · simp only [Derivation.nesting]
        omega
      · rw [hyield, tokensOf_of_isNext hpower, hyield']
        simp [yield]
    · obtain ⟨rfl, rfl⟩ := Prod.mk.inj (Except.ok.inj hmore)
      exact ⟨.tight (.bare base), rfl, by simpa only [Derivation.nesting] using hbase, hyield, harrived⟩

theorem branches_sound (hprefixed : Sound ending 1 nesting (.level 0) prefixed) :
    Sound ending 0 (nesting + 1) .conditional (branches ending fuel prefixed conditional) := by
  intro lexemes x after h
  have hoperand : Sound ending 0 nesting (.level 0) (operand ending fuel prefixed conditional) :=
    operand_sound hconditional hprefixed
  have hchains : Sound ending 0 nesting (.level 6)
      (chains ending fuel (operand ending fuel prefixed conditional)) :=
    chain_sound (chain_sound (chain_sound (chain_sound (chain_sound (chain_sound hoperand)))))
  obtain ⟨⟨y, rest⟩, hread, hmore⟩ := exists_of_bind_ok h
  obtain ⟨condition, rfl, hcondition, hyield, harrived⟩ := hchains hread
  dsimp only at hmore
  split at hmore
  · next hquestion =>
    obtain ⟨inside, hadvance, hinside⟩ := exists_of_bind_ok hmore
    obtain ⟨⟨z, rest₁⟩, hread₁, hrest₁⟩ := exists_of_bind_ok hinside
    obtain ⟨rest₂, hexpect, hrest₂⟩ := exists_of_bind_ok hrest₁
    obtain ⟨⟨w, rest₃⟩, hread₃, hdone⟩ := exists_of_bind_ok hrest₂
    obtain ⟨rfl, rfl⟩ := Prod.mk.inj (Except.ok.inj hdone)
    obtain ⟨rfl, -⟩ := advance_ok hadvance
    obtain ⟨hcolon, -⟩ := expect_ok hexpect
    obtain ⟨whenTrue, rfl, htrue, hyield₁, -⟩ := hconditional hread₁
    obtain ⟨whenFalse, rfl, hfalse, hyield₃, harrived'⟩ := hconditional hread₃
    refine ⟨.conditional condition whenTrue whenFalse, rfl, ?_, ?_, harrived'⟩
    · rw [Derivation.nesting]
      omega
    · rw [hyield, tokensOf_of_isNext hquestion, hyield₁, hcolon, hyield₃]
      simp [yield]
  · obtain ⟨rfl, rfl⟩ := Prod.mk.inj (Except.ok.inj hmore)
    exact ⟨.plain condition, rfl, by rw [Derivation.nesting]; omega, hyield, harrived⟩

end Nested

theorem nested_sound (nesting : Nat) :
    Sound ending 1 nesting (.level 0) (nestedOperand ending fuel nesting) ∧
      Sound ending 0 nesting .conditional (nestedConditional ending fuel nesting) := by
  induction nesting with
  | zero => exact ⟨fun _ _ _ h => (nomatch h), fun _ _ _ h => (nomatch h)⟩
  | succ nesting ih =>
    refine ⟨fun lexemes x after h => ?_, branches_sound ih.2 ih.1⟩
    obtain ⟨d, hmeaning, hnesting, hyield⟩ := operand_sound ih.2 ih.1 h
    exact ⟨d, hmeaning, by omega, hyield⟩

end Readers

end Parser

end Formulary
