import Formulary.Proofs.Value.Readings

/-!
# A value and its text

The operators that coerce cannot tell a value from its text, as far as the text says all of it
(`coercing_toText`). They look at an operand through a few readings only; operands that agree in these
(`Interchangeable`) give equal results on either side, and a value agrees with its text because the text is
read back.
-/

namespace Formulary

/-- The operators that read their operands as numbers, dates or texts, whatever kind these are of. -/
def BinaryOperator.coercing : List BinaryOperator :=
  [add, subtract, multiply, divide, remainder, power, lessThan, lessEqual, greaterThan, greaterEqual]

namespace Value

/-! ## Operands with the same readings -/

/-- Two operands, neither of them an error marker, with the same readings in every coercing operator. The
loose reading does not matter for dates, which the operators that read so refuse. -/
structure Interchangeable (v w : Value) : Prop where
  not_error : v.isError = false ∧ w.isError = false
  isNaN_eq : v.isNaN = w.isNaN
  strictReading_eq : v.strictReading = w.strictReading
  toText_eq : v.toText = w.toText
  isDate_eq : v.asDate?.isSome = w.asDate?.isSome
  looseReading_eq : v.asDate?.isSome = false → v.looseReading = w.looseReading

namespace Interchangeable

variable {v w : Value} (h : Interchangeable v w) (b : Value)

include h

theorem settled?_left : settled? v b = settled? w b := by
  simp only [settled?, h.not_error, h.isNaN_eq, Bool.false_eq_true, ↓reduceIte]

theorem settled?_right : settled? b v = settled? b w := by
  simp only [settled?, h.not_error, h.isNaN_eq, Bool.false_eq_true, ↓reduceIte]

theorem add_left : v.add b = w.add b := by
  simp only [add, h.settled?_left, h.strictReading_eq, h.toText_eq]

theorem add_right : b.add v = b.add w := by
  simp only [add, h.settled?_right, h.strictReading_eq, h.toText_eq]

theorem subtract_left : v.subtract b = w.subtract b := by
  simp only [subtract, h.settled?_left, h.strictReading_eq]

theorem subtract_right : b.subtract v = b.subtract w := by
  simp only [subtract, h.settled?_right, h.strictReading_eq]

theorem compare_left (numeric : Number → Number → Bool) (lexical : String → String → Bool) :
    compare numeric lexical v b = compare numeric lexical w b := by
  simp only [compare, h.settled?_left, h.strictReading_eq, h.toText_eq]

theorem compare_right (numeric : Number → Number → Bool) (lexical : String → String → Bool) :
    compare numeric lexical b v = compare numeric lexical b w := by
  simp only [compare, h.settled?_right, h.strictReading_eq, h.toText_eq]

theorem scale_left (symbol : String) : scale symbol v b = scale symbol w b := by
  cases hdate : v.asDate?.isSome with
  | true => simp only [scale, hdate, h.isDate_eq ▸ hdate, Bool.true_or, ↓reduceIte]
  | false => simp only [scale, h.isDate_eq, h.settled?_left, h.looseReading_eq hdate]

theorem scale_right (symbol : String) : scale symbol b v = scale symbol b w := by
  cases hdate : v.asDate?.isSome with
  | true => simp only [scale, hdate, h.isDate_eq ▸ hdate, Bool.or_true, ↓reduceIte]
  | false => simp only [scale, h.isDate_eq, h.settled?_right, h.looseReading_eq hdate]

theorem apply_left {op : BinaryOperator} (hop : op ∈ BinaryOperator.coercing) : op.apply v b = op.apply w b := by
  cases op with
  | add => exact congrArg Except.ok (h.add_left b)
  | subtract => exact h.subtract_left b
  | multiply | divide | remainder | power => simp only [BinaryOperator.apply, h.scale_left]
  | lessThan | lessEqual => simp only [BinaryOperator.apply, lessThan, lessOrEqual, h.compare_left]
  | greaterThan | greaterEqual =>
    simp only [BinaryOperator.apply, greaterThan, greaterOrEqual, lessThan, lessOrEqual, h.compare_right]
  | equal | strictEqual | notEqual | strictNotEqual | and | or => exact absurd hop (by decide)

theorem apply_right {op : BinaryOperator} (hop : op ∈ BinaryOperator.coercing) :
    op.apply b v = op.apply b w := by
  cases op with
  | add => exact congrArg Except.ok (h.add_right b)
  | subtract => exact h.subtract_right b
  | multiply | divide | remainder | power => simp only [BinaryOperator.apply, h.scale_right]
  | lessThan | lessEqual => simp only [BinaryOperator.apply, lessThan, lessOrEqual, h.compare_right]
  | greaterThan | greaterEqual =>
    simp only [BinaryOperator.apply, greaterThan, greaterOrEqual, lessThan, lessOrEqual, h.compare_left]
  | equal | strictEqual | notEqual | strictNotEqual | and | or => exact absurd hop (by decide)

end Interchangeable

/-! ## Values that their text says -/

/-- No data, a number that is no negative zero, and a date with a plain year. -/
inductive SaidByText : Value → Prop where
  | empty : SaidByText empty
  | number {n : Number} (hnan : n ≠ .nan) (hzero : n ≠ .zero true) : SaidByText (number n)
  | date {d : Date} (hyear : d.HasPlainYear) : SaidByText (date d)

theorem interchangeable_empty : Interchangeable empty (text empty.toText) := by
  have hdate : (asDate? (text empty.toText)).isSome = false := by decide
  refine ⟨⟨rfl, rfl⟩, rfl, ?_, rfl, hdate.symm, fun _ => ?_⟩
  · simp [strictReading, isEmpty, toText]
  · simp [looseReading, isEmpty, toText]

theorem interchangeable_number {n : Number} (hnan : n ≠ .nan) (hzero : n ≠ .zero true) :
    Interchangeable (number n) (text (number n).toText) := by
  have hread : Number.ofText? (number n).toText = some n := Number.ofText?_format hnan hzero
  have hdate : Date.ofText? (number n).toText = none := Date.ofText?_eq_none hread
  have hblank := Number.not_blank_of_ofText? hread
  have hnumber : n.isNaN = false := by
    cases n with
    | nan => exact absurd rfl hnan
    | infinity | finite => rfl
  refine ⟨⟨rfl, rfl⟩, hnumber, ?_, rfl, ?_, fun _ => ?_⟩
  · rw [strictReading_text hblank, hread, hdate]
    simp [strictReading, isEmpty, Value.isBlank, asDate?, strictNumber]
  · simp [asDate?, hdate]
  · rw [looseReading_text hblank, hread]
    simp [looseReading, isEmpty, toNumber]

theorem interchangeable_date {d : Date} (hyear : d.HasPlainYear) :
    Interchangeable (date d) (text (date d).toText) := by
  have hread : Date.ofText? (date d).toText = some d := hyear.ofText?_toText
  have hnumber : Number.ofText? (date d).toText = none := Date.number_of_ofText? hread
  have hblank := Date.not_blank_of_ofText? hread
  refine ⟨⟨rfl, rfl⟩, rfl, ?_, rfl, ?_, fun h => nomatch h⟩
  · -- said of any number, because that of a date is too large to compute with
    have hfirst : ∀ n : Number, ((none : Option Number) <|> some n).getD .nan = n := fun _ => rfl
    rw [strictReading_text hblank, hread, hnumber, Option.map_some, hfirst]
    simp [strictReading, isEmpty, Value.isBlank, asDate?, strictNumber]
  · simp [asDate?, hread]

theorem SaidByText.interchangeable {v : Value} (h : v.SaidByText) : Interchangeable v (text v.toText) := by
  cases h with
  | empty => exact interchangeable_empty
  | number hnan hzero => exact interchangeable_number hnan hzero
  | date hyear => exact interchangeable_date hyear

/-- **Transparency of texts.** A coercing operator gives the same for a value and for its text, on either
side of any other operand. -/
theorem coercing_toText {v : Value} (h : v.SaidByText) {op : BinaryOperator}
    (hop : op ∈ BinaryOperator.coercing) (b : Value) :
    op.apply (text v.toText) b = op.apply v b ∧ op.apply b (text v.toText) = op.apply b v :=
  ⟨(h.interchangeable.apply_left b hop).symm, (h.interchangeable.apply_right b hop).symm⟩

/-- At the start of 1970, beside a truth value. -/
theorem coercing_toText_epoch :
    (date ⟨0, by decide⟩).toText = "1970-01-01T00:00:00.000Z" ∧
      BinaryOperator.subtract.apply (text (date ⟨0, by decide⟩).toText) (boolean true) =
        BinaryOperator.subtract.apply (date ⟨0, by decide⟩) (boolean true) ∧
      BinaryOperator.subtract.apply (boolean true) (text (date ⟨0, by decide⟩).toText) =
        BinaryOperator.subtract.apply (boolean true) (date ⟨0, by decide⟩) :=
  ⟨by decide, coercing_toText (.date (by decide)) (by decide) (boolean true)⟩

end Value

end Formulary
