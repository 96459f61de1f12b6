import Formulary.Proofs.Value.Coercion

/-!
# The order of values

The comparisons `<`, `<=`, `>` and `>=` of two values never contradict each other (`comparisons_consistent`).

A comparison is decided in one of three ways, and in the same way whichever operand comes first (`Decided`):
without looking at an order, between two numbers, or between two texts. In the first the result is neither true
nor false, in the others there is a total order (`IsTotal`), of which `>` and `>=` only exchange the places.
-/

namespace Formulary

/-! ## Total orders -/

/-- At two places, a test for less and a test for at most are those of a total order. -/
structure IsTotal {α : Type} (less atMost : α → α → Bool) (x y : α) : Prop where
  asymm : less x y = true → less y x = false
  atMost_eq : atMost x y = !less y x
  atMost_swap_eq : atMost y x = !less x y

theorem Number.isTotal {x y : Number} (hx : x.isNaN = false) (hy : y.isNaN = false) :
    IsTotal less lessOrEqual x y := by
  have hless (a b : Int) : decide (a ≤ b) = !decide (b < a) := by
    by_cases h : b < a
    · simp [h]
    · simp [h, Int.not_lt.1 h]
  refine ⟨fun h => ?_, ?_, ?_⟩
  · simp only [less, hx, hy, Bool.not_false, Bool.true_and, decide_eq_true_eq, decide_eq_false_iff_not] at h ⊢
    omega
  · simp only [less, lessOrEqual, hx, hy, Bool.not_false, Bool.true_and, hless]
  · simp only [less, lessOrEqual, hx, hy, Bool.not_false, Bool.true_and, hless]

theorem isTotal_text (s t : String) :
    IsTotal (fun s t : String => decide (s < t)) (fun s t => !decide (t < s)) s t :=
  ⟨fun h => decide_eq_false (String.lt_asymm (of_decide_eq_true h)), rfl, rfl⟩

namespace Value

/-! ## Decisions -/

/-- A result of a comparison that is neither true nor false. -/
inductive Inconclusive : Value → Prop where
  | marker (marker : ErrorMarker) : Inconclusive (error marker)
  | nan : Inconclusive (number .nan)
  | noData : Inconclusive (text "")

theorem Inconclusive.ne_boolean {r : Value} (h : Inconclusive r) (c : Bool) : r ≠ boolean c := by
  cases h <;> exact fun h => nomatch h

theorem Settled.inconclusive {Numeric : Value → Prop} {a b r : Value} (h : Settled Numeric a b r) :
    Inconclusive r := by
  cases h with
  | first marker | second marker => exact .marker marker
  | nan => exact .nan
  | noData => exact .noData

/-- How the comparisons of two values are decided, in the one order of the operands and in the other. -/
inductive Decided (a b : Value) : Prop where
  | without {r : Value} (hr : Inconclusive r)
    (h : ∀ numeric lexical, compare numeric lexical a b = r)
    (hswap : ∀ numeric lexical, compare numeric lexical b a = r)
  | numbers {x y : Number} (hx : x.isNaN = false) (hy : y.isNaN = false)
    (h : ∀ numeric lexical, compare numeric lexical a b = boolean (numeric x y))
    (hswap : ∀ numeric lexical, compare numeric lexical b a = boolean (numeric y x))
  | texts {s t : String}
    (h : ∀ numeric lexical, compare numeric lexical a b = boolean (lexical s t))
    (hswap : ∀ numeric lexical, compare numeric lexical b a = boolean (lexical t s))

section NotSettled

variable {a b : Value} (h : ∀ r, ¬ Settled IsNumeric a b r)

include h

theorem compare_numbers (hnumeric : (a.strictReading.isNumeric && b.strictReading.isNumeric) = true)
    (numeric : Number → Number → Bool) (lexical : String → String → Bool) :
    compare numeric lexical a b = boolean (numeric a.strictReading.number b.strictReading.number) := by
  obtain ⟨hsettled, -⟩ := outcome_of_not_settled (reads_strictReading a) (reads_strictReading b) h
  simp only [compare, hsettled, hnumeric, ↓reduceIte]

theorem compare_texts (hnumeric : (a.strictReading.isNumeric && b.strictReading.isNumeric) = false)
    (numeric : Number → Number → Bool) (lexical : String → String → Bool) :
    compare numeric lexical a b = boolean (lexical a.toText b.toText) := by
  obtain ⟨hsettled, hempty⟩ := outcome_of_not_settled (reads_strictReading a) (reads_strictReading b) h
  simp only [compare, hsettled, hnumeric, hempty, Bool.false_eq_true, ↓reduceIte, Option.getD_none]

theorem decided_of_not_settled : Decided a b := by
  have hswap := not_settled_comm h
  cases hnumeric : a.strictReading.isNumeric && b.strictReading.isNumeric with
  | true =>
    have hnumeric' := hnumeric
    simp only [Operand.isNumeric, Bool.and_eq_true, Bool.not_eq_true'] at hnumeric'
    exact .numbers hnumeric'.1.2 hnumeric'.2.2 (compare_numbers h hnumeric)
      (compare_numbers hswap (Bool.and_comm _ _ ▸ hnumeric))
  | false =>
    exact .texts (compare_texts h hnumeric) (compare_texts hswap (Bool.and_comm _ _ ▸ hnumeric))

end NotSettled

/-- Two operands that are not both error markers are compared in the same way in either order. -/
theorem decided {a b : Value} (hone : ¬ (a.isError = true ∧ b.isError = true)) : Decided a b := by
  by_cases h : ∃ r, Settled IsNumeric a b r
  · obtain ⟨r, hr⟩ := h
    exact .without hr.inconclusive (compare_of_settled hr) (compare_of_settled (hr.comm hone))
  · exact decided_of_not_settled fun r hr => h ⟨r, hr⟩

/-! ## Consistency -/

/-- The results say the opposite of each other, or neither says anything and they are the same. -/
inductive Opposed : Value → Value → Prop where
  | boolean (c : Bool) : Opposed (boolean c) (boolean !c)
  | inconclusive {r : Value} (h : Inconclusive r) : Opposed r r

theorem consistent_of_isTotal {α : Type} {less atMost : α → α → Bool} {x y : α} (h : IsTotal less atMost x y) :
    Opposed (boolean (less x y)) (boolean (atMost y x)) ∧
    Opposed (boolean (less y x)) (boolean (atMost x y)) ∧
    ¬ (boolean (less x y) = boolean true ∧ boolean (less y x) = boolean true) ∧
    (boolean (atMost x y) = boolean true ∧ boolean (atMost y x) = boolean true ↔
      boolean (less x y) ≠ boolean true ∧ boolean (less y x) ≠ boolean true ∧
        ∀ r ∈ [boolean (less x y), boolean (less y x), boolean (atMost x y), boolean (atMost y x)],
          ∃ c, r = boolean c) := by
  rw [h.atMost_eq, h.atMost_swap_eq]
  refine ⟨.boolean _, .boolean _, fun hboth => ?_, ?_⟩
  · simp only [boolean.injEq] at hboth
    rw [h.asymm hboth.1] at hboth
    exact Bool.false_ne_true hboth.2
  · cases less x y <;> cases less y x <;> simp

/-- **Consistency.** Of two values that are not both error markers, `<` is opposed to `>=` and `>` to `<=`. They
are not less than each other, and they are at most each other if and only if they can be compared and neither is
less. -/
theorem comparisons_consistent {a b : Value} (hone : ¬ (a.isError = true ∧ b.isError = true)) :
    Opposed (a.lessThan b) (a.greaterOrEqual b) ∧ Opposed (a.greaterThan b) (a.lessOrEqual b) ∧
    ¬ (a.lessThan b = boolean true ∧ b.lessThan a = boolean true) ∧
    (a.lessOrEqual b = boolean true ∧ b.lessOrEqual a = boolean true ↔
      a.lessThan b ≠ boolean true ∧ b.lessThan a ≠ boolean true ∧
        ∀ r ∈ [a.lessThan b, b.lessThan a, a.lessOrEqual b, b.lessOrEqual a], ∃ c, r = boolean c) := by
  unfold greaterOrEqual greaterThan lessThan lessOrEqual
  cases decided hone with
  | without hr h hswap =>
    simp only [h, hswap]
    refine ⟨.inconclusive hr, .inconclusive hr, fun hboth => hr.ne_boolean true hboth.1,
      fun hboth => absurd hboth.1 (hr.ne_boolean true), fun ⟨_, _, hall⟩ => ?_⟩
    obtain ⟨c, hc⟩ := hall _ List.mem_cons_self
    exact absurd hc (hr.ne_boolean c)
  | numbers hx hy h hswap =>
    simp only [h, hswap]
    exact consistent_of_isTotal (Number.isTotal hx hy)
  | texts h hswap =>
    simp only [h, hswap]
    exact consistent_of_isTotal (isTotal_text _ _)

/-- A date that is compared by its text, since the other text is neither a date nor a number. -/
theorem comparisons_consistent_date_text :
    Opposed ((text "2024-02-29").lessThan (text "2024-02-30"))
      ((text "2024-02-29").greaterOrEqual (text "2024-02-30")) ∧
    (text "2024-02-29").lessThan (text "2024-02-30") = boolean true :=
  ⟨(comparisons_consistent (by decide)).1, by decide +kernel⟩

end Value

end Formulary
