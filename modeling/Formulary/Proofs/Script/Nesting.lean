import Formulary.Proofs.Script.Loading

/-!
# How deep the reading of scripts gets

A reader with less nesting left gives the same answer or finds the code too deep (`nested_abates`). So the tokens of a
derivation are read wherever its nesting is allowed and are too deep elsewhere: its nesting is the number of levels
that are in use at once when they are read (`usesLevels_derivation`).
-/

namespace Formulary

namespace Script

open Reader

/-- So many levels of nesting are in use at once when the tokens are read: a lower limit stops the reader, and no
other one does. -/
def UsesLevels (lexemes : List Lexeme) (levels : Nat) : Prop :=
  ∀ limit, ofLexemes limit lexemes = .error .tooDeep ↔ limit < levels

/-! ## Readers with less nesting left -/

section Readers

variable {shallow deep shallow' deep' : Reader Script}
  (h : ∀ lexemes, Abates (· = .tooDeep) (shallow lexemes) (deep lexemes))

include h

theorem chainFrom_abates (operator? : Token → Option BinaryOperator) (fuel : Nat) (left : Script)
    (lexemes : List Lexeme) : Abates (· = .tooDeep) (chainFrom operator? shallow fuel left lexemes)
      (chainFrom operator? deep fuel left lexemes) := by
  induction fuel generalizing left lexemes with
  | zero => rfl
  | succ fuel ih =>
    unfold chainFrom
    split
    · rfl
    · exact .bind (h _) fun _ => ih _ _

theorem chain_abates (operator? : Token → Option BinaryOperator) (fuel : Nat) (lexemes : List Lexeme) :
    Abates (· = .tooDeep) (chain fuel operator? shallow lexemes) (chain fuel operator? deep lexemes) :=
  .bind (h lexemes) fun _ => chainFrom_abates h operator? fuel _ _

theorem chains_abates (fuel : Nat) (lexemes : List Lexeme) :
    Abates (· = .tooDeep) (chains fuel shallow lexemes) (chains fuel deep lexemes) :=
  chain_abates (chain_abates (chain_abates h _ fuel) _ fuel) _ fuel lexemes

theorem afterCommas_abates (fuel : Nat) (items : List Script) (lexemes : List Lexeme) :
    Abates (· = .tooDeep) (afterCommas shallow fuel items lexemes) (afterCommas deep fuel items lexemes) := by
  induction fuel generalizing items lexemes with
  | zero => rfl
  | succ fuel ih =>
    unfold afterCommas
    exact .ite (.bind (h _) fun _ => ih _ _) (.refl _)

theorem pair_abates (lexemes : List Lexeme) :
    Abates (· = .tooDeep) (pair shallow lexemes) (pair deep lexemes) := by
  refine .bind (h lexemes) fun _ => .bind (.refl _) fun _ => ?_
  exact .bind (h _) fun _ => .refl _

/-- Only `call` and the operations read expressions. -/
theorem callBody_abates (fuel : Nat) (name : String) (lexemes : List Lexeme) :
    Abates (· = .tooDeep) (callBody fuel shallow name lexemes) (callBody fuel deep name lexemes) := by
  unfold callBody
  refine .ite (.refl _) (.ite ?_ (.ite ?_ ?_))
  · exact .bind (.refl _) fun _ => .bind (afterCommas_abates h fuel _ _) fun _ => .refl _
  · refine .bind (.refl _) fun _ => .bind (.refl _) fun _ => ?_
    exact .bind (pair_abates h _) fun _ => .refl _
  · split
    · exact .bind (pair_abates h _) fun _ => .refl _
    · exact .bind (h _) fun _ => .refl _
    · rfl

theorem primary_abates (fuel : Nat) (lexemes : List Lexeme) :
    Abates (· = .tooDeep) (primary fuel shallow lexemes) (primary fuel deep lexemes) := by
  unfold primary
  split
  · rfl
  · rfl
  · exact .refl _
  · rfl
  · split
    · rfl
    · refine .bind (.refl _) fun _ => .bind (callBody_abates h fuel _ _) fun _ => ?_
      exact .bind (.refl _) fun _ => .refl _
  · exact .bind (h _) fun _ => .bind (.refl _) fun _ => .refl _
  · rfl

variable (h' : ∀ lexemes, Abates (· = .tooDeep) (shallow' lexemes) (deep' lexemes))

include h'

theorem operand_abates (fuel : Nat) (lexemes : List Lexeme) :
    Abates (· = .tooDeep) (operand fuel shallow' shallow lexemes) (operand fuel deep' deep lexemes) :=
  .ite (.bind (h' _) fun _ => .refl _) (primary_abates h fuel lexemes)

theorem branches_abates (fuel : Nat) (lexemes : List Lexeme) :
    Abates (· = .tooDeep) (branches fuel shallow' shallow lexemes) (branches fuel deep' deep lexemes) := by
  refine .bind (chains_abates (operand_abates h h' fuel) fuel lexemes) fun _ => .ite ?_ (.refl _)
  refine .bind (h _) fun _ => .bind (.refl _) fun _ => ?_
  exact .bind (h _) fun _ => .refl _

end Readers

/-- One level of nesting less. -/
theorem nested_step (fuel nesting : Nat) :
    (∀ lexemes, Abates (· = .tooDeep) (nestedOperand fuel nesting lexemes)
      (nestedOperand fuel (nesting + 1) lexemes)) ∧
    ∀ lexemes, Abates (· = .tooDeep) (nestedExpression fuel nesting lexemes)
      (nestedExpression fuel (nesting + 1) lexemes) := by
  induction nesting with
  | zero => exact ⟨fun _ => .inr ⟨_, rfl, rfl⟩, fun _ => .inr ⟨_, rfl, rfl⟩⟩
  | succ nesting ih =>
    obtain ⟨hoperand, hexpression⟩ := ih
    refine ⟨fun lexemes => ?_, fun lexemes => ?_⟩
    · rw [nestedOperand, nestedOperand]
      exact operand_abates hexpression hoperand fuel lexemes
    · rw [nestedExpression, nestedExpression]
      exact branches_abates hexpression hoperand fuel lexemes

theorem nested_abates (fuel : Nat) {nesting nesting' : Nat} (hle : nesting ≤ nesting') (lexemes : List Lexeme) :
    Abates (· = .tooDeep) (nestedExpression fuel nesting lexemes) (nestedExpression fuel nesting' lexemes) := by
  induction hle with
  | refl => rfl
  | step hle ih => exact ih.trans ((nested_step fuel _).2 lexemes)

theorem ofLexemes_abates {nesting nesting' : Nat} (hle : nesting ≤ nesting') (lexemes : List Lexeme) :
    Abates (· = .tooDeep) (ofLexemes nesting lexemes) (ofLexemes nesting' lexemes) :=
  .bind (nested_abates lexemes.length hle lexemes) fun _ => .refl _

/-! ## Levels in use -/

/-- **Levels.** The reading of a derivation's tokens uses as many levels as the derivation nests. -/
theorem usesLevels_derivation {d : Derivation .expression} {lexemes : List Lexeme}
    (htokens : tokensOf lexemes = d.yield ++ [.finish]) : UsesLevels lexemes d.nesting := by
  intro limit
  constructor
  · intro hdeep
    by_contra hle
    rw [ofLexemes_derivation (Nat.le_of_not_lt hle) htokens] at hdeep
    exact nomatch hdeep
  · intro hlt
    rcases ofLexemes_abates (Nat.le_of_lt hlt) lexemes with hsame | ⟨_, rfl, hdeep⟩
    · -- what is read within the limit has a derivation within it, and there is no other derivation
      rw [ofLexemes_derivation (Nat.le_refl _) htokens] at hsame
      obtain ⟨d', -, hnesting, rest, htokens', hrest⟩ := exists_derivation_of_ofLexemes hsame
      rw [htokens] at htokens'
      obtain rfl := Derivation.unique (eq_yield_of_append d.finish_not_mem htokens' hrest)
      omega
    · exact hdeep

-- the whole, the operand of `!` and what the parentheses hold
example : (lexemes "!(true)").bind (ofLexemes 2) = .error .tooDeep := by
  rfl

end Script

end Formulary
