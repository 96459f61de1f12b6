import Formulary.Proofs.Source.Reading

/-!
# Too little nesting

A reader with less nesting left gives the same answer or finds the text too deep (`nested_abates`). So a text
that is cut into what a derivation yields is read as what it means, or else it is too deep: it gives no
other error (`ofText?_outcome`).
-/

namespace Formulary

namespace Parser

/-- The text is too deep. -/
def TooDeep (error : ParseError) : Prop := error.fault = .tooDeep

section

variable {ending : Ending} {shallow deep shallow' deep' : Reader Expr}
  (h : ∀ lexemes, Abates TooDeep (shallow lexemes) (deep lexemes))

include h

theorem chainFrom_abates (operators : List BinaryOperator) (fuel : Nat) (left : Expr)
    (lexemes : List Lexeme) : Abates TooDeep (chainFrom ending operators shallow fuel left lexemes)
      (chainFrom ending operators deep fuel left lexemes) := by
  induction fuel generalizing left lexemes with
  | zero => rfl
  | succ fuel ih =>
    unfold chainFrom
    split
    · rfl
    · exact .bind (.refl _) fun _ => .bind (h _) fun _ => ih _ _

theorem chains_abates (fuel : Nat) (lexemes : List Lexeme) :
    Abates TooDeep (chains ending fuel shallow lexemes) (chains ending fuel deep lexemes) := by
  unfold chains
  induction levels generalizing lexemes with
  | nil => exact h lexemes
  | cons operators levels ih =>
    exact .bind (ih lexemes) fun _ => chainFrom_abates ih operators fuel _ _

theorem argumentsFrom_abates (fuel : Nat) (args : List Expr) (lexemes : List Lexeme) :
    Abates TooDeep (argumentsFrom ending shallow fuel args lexemes)
      (argumentsFrom ending deep fuel args lexemes) := by
  induction fuel generalizing args lexemes with
  | zero => rfl
  | succ fuel ih =>
    unfold argumentsFrom
    exact .ite (.bind (.refl _) fun _ => .bind (h _) fun _ => ih _ _) (.refl _)

theorem arguments_abates (fuel : Nat) (lexemes : List Lexeme) :
    Abates TooDeep (arguments ending fuel shallow lexemes) (arguments ending fuel deep lexemes) := by
  unfold arguments
  refine .ite (.refl _) (.bind (h _) fun _ => ?_)
  exact .bind (argumentsFrom_abates h fuel _ _) fun _ => .refl _

theorem primary_abates (fuel : Nat) (lexemes : List Lexeme) :
    Abates TooDeep (primary ending fuel shallow lexemes) (primary ending fuel deep lexemes) := by
  unfold primary
  split
  · rfl
  · rfl
  · rfl
  · exact .bind (.refl _) fun _ => .bind (h _) fun _ => .refl _
  · refine .bind (.refl _) fun _ => .ite ?_ (.refl _)
    exact .bind (.refl _) fun _ => .bind (arguments_abates h fuel _) fun _ => .refl _
  · rfl

variable (h' : ∀ lexemes, Abates TooDeep (shallow' lexemes) (deep' lexemes))

include h'

theorem operand_abates (fuel : Nat) (lexemes : List Lexeme) :
    Abates TooDeep (operand ending fuel shallow' shallow lexemes) (operand ending fuel deep' deep lexemes) := by
  unfold operand
  split
  · exact .bind (.refl _) fun _ => .bind (h' _) fun _ => .refl _
  · refine .bind (primary_abates h fuel lexemes) fun _ => .ite ?_ (.refl _)
    exact .bind (.refl _) fun _ => .bind (h' _) fun _ => .refl _

theorem branches_abates (fuel : Nat) (lexemes : List Lexeme) :
    Abates TooDeep (branches ending fuel shallow' shallow lexemes)
      (branches ending fuel deep' deep lexemes) := by
  unfold branches
  refine .bind (chains_abates (operand_abates h h' fuel) fuel lexemes) fun _ => .ite ?_ (.refl _)
  refine .bind (.refl _) fun _ => .bind (h _) fun _ => .bind (.refl _) fun _ => ?_
  exact .bind (h _) fun _ => .refl _

end

/-- One level of nesting less. -/
theorem nested_step (ending : Ending) (fuel nesting : Nat) :
    (∀ lexemes, Abates TooDeep (nestedOperand ending fuel nesting lexemes)
      (nestedOperand ending fuel (nesting + 1) lexemes)) ∧
    ∀ lexemes, Abates TooDeep (nestedConditional ending fuel nesting lexemes)
      (nestedConditional ending fuel (nesting + 1) lexemes) := by
  induction nesting with
  | zero => exact ⟨fun _ => .inr ⟨⟨.tooDeep, _⟩, rfl, rfl⟩, fun _ => .inr ⟨⟨.tooDeep, _⟩, rfl, rfl⟩⟩
  | succ nesting ih =>
    obtain ⟨hoperand, hconditional⟩ := ih
    exact ⟨operand_abates hconditional hoperand fuel, branches_abates hconditional hoperand fuel⟩

theorem nested_abates (ending : Ending) (fuel : Nat) {nesting nesting' : Nat} (hle : nesting ≤ nesting')
    (lexemes : List Lexeme) : Abates TooDeep (nestedConditional ending fuel nesting lexemes)
      (nestedConditional ending fuel nesting' lexemes) := by
  induction hle with
  | refl => rfl
  | step hle ih => exact ih.trans ((nested_step ending fuel _).2 lexemes)

/-- **Outcome.** A text that is cut into what a derivation yields is read as what it means or is too deep. -/
theorem ofText?_outcome {source : String} {d : Derivation .conditional}
    (hcut : Lexemes.Cut source.toList d.yield) :
    Expr.ofText? source = .ok d.meaning ∨ ∃ offset, Expr.ofText? source = .error ⟨.tooDeep, offset⟩ := by
  obtain ⟨lexemes, finish, hlexemes, hread⟩ := exists_read hcut
  have habates := nested_abates (.finish finish) lexemes.length
    (Nat.le_max_right d.nesting Expr.maxDepth) lexemes
  rw [hread _ (Nat.le_max_left d.nesting Expr.maxDepth)] at habates
  rw [Expr.ofText?, hlexemes]
  simp only [arrive_finish, bind, Except.bind]
  rcases habates with h | ⟨⟨-, offset⟩, rfl, h⟩
  · rw [h]
    simp only [List.isEmpty_nil, ↓reduceIte]
    split
    · exact .inr ⟨0, rfl⟩
    · exact .inl rfl
  · rw [h]
    exact .inr ⟨offset, rfl⟩

end Parser

end Formulary
