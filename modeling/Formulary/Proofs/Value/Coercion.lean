import Formulary.Proofs.Calendar.Date
import Formulary.Proofs.Number.Spelling
import Formulary.Value.Operations

/-!
# What decides a binary operation

Error markers, not-a-number and missing data settle the result of a coercing operator, in this order
(`Settled`); what remains depends on the operator (`coercion_priority`).

Two families differ in what counts as numeric. Sums, differences and comparisons take dates and leave blank
texts out (`IsNumeric`); products, quotients, remainders and powers take blank texts and refuse dates before
all else (`IsLooselyNumeric`).
-/

namespace Formulary

namespace Value

/-! ## Kinds of operands -/

/-- No value, or the empty text. -/
def HasNoData : Value → Prop
  | empty => True
  | text s => s = ""
  | boolean _ | number _ | date _ | error _ => False

/-- A date, or a text that names one. -/
def IsDate : Value → Prop
  | date _ => True
  | text s => (Date.ofText? s).isSome
  | empty | boolean _ | number _ | error _ => False

/-- A number, a truth value, a date, or a text that is not blank and denotes a number or names a date. -/
def IsNumeric : Value → Prop
  | number n => n ≠ .nan
  | boolean _ | date _ => True
  | text s => isBlankText s = false ∧ ((Number.ofText? s).isSome ∨ (Date.ofText? s).isSome)
  | empty | error _ => False

/-- A number, a truth value, or a text with something in it that is blank or denotes a number. -/
def IsLooselyNumeric : Value → Prop
  | number n => n ≠ .nan
  | boolean _ => True
  | text s => s ≠ "" ∧ (isBlankText s = true ∨ (Number.ofText? s).isSome)
  | empty | date _ | error _ => False

/-- What two operands make of an operation before they are computed with: the marker that an operand is, the
first one's if both are; then not-a-number; then the empty text, if both have no data or one has none and the
other is numeric. -/
inductive Settled (Numeric : Value → Prop) : (first second result : Value) → Prop where
  | first (marker : ErrorMarker) (second : Value) : Settled Numeric (error marker) second (error marker)
  | second {first : Value} (marker : ErrorMarker) (hfirst : first.isError = false) :
    Settled Numeric first (error marker) (error marker)
  | nan {first second : Value} (hfirst : first.isError = false) (hsecond : second.isError = false)
    (hnan : first = number .nan ∨ second = number .nan) : Settled Numeric first second (number .nan)
  | noData {first second : Value} (hfirst : first.isError = false) (hsecond : second.isError = false)
    (hnumber : first ≠ number .nan) (hnumber' : second ≠ number .nan)
    (hnone : first.HasNoData ∧ second.HasNoData ∨ first.HasNoData ∧ Numeric second ∨
      second.HasNoData ∧ Numeric first) : Settled Numeric first second (text "")

/-! ## Readings -/

theorem isNaN_iff {v : Value} : v.isNaN = true ↔ v = number .nan := by
  cases v with
  | number n => cases n <;> simp [isNaN, Number.isNaN]
  | empty | boolean _ | text _ | date _ | error _ => simp [isNaN]

theorem isEmpty_iff {v : Value} : v.isEmpty = true ↔ v.HasNoData := by
  cases v with
  | text s => exact String.isEmpty_iff
  | empty | boolean _ | number _ | date _ | error _ => simp [isEmpty, HasNoData]

theorem asDate?_isSome_iff {v : Value} : v.asDate?.isSome = true ↔ v.IsDate := by
  cases v <;> simp [asDate?, IsDate]

theorem asDate?_or_eq_false {a b : Value} (ha : ¬ a.IsDate) (hb : ¬ b.IsDate) :
    (a.asDate?.isSome || b.asDate?.isSome) = false := by
  rw [← Bool.not_eq_true, Bool.or_eq_true, asDate?_isSome_iff, asDate?_isSome_iff]
  exact not_or.2 ⟨ha, hb⟩

theorem isNaN_getD {n? : Option Number} (h : ∀ n ∈ n?, n.isNaN = false) :
    (n?.getD .nan).isNaN = false ↔ n?.isSome = true := by
  cases n? with
  | none => simp [Number.isNaN]
  | some n => simp [h n rfl]

@[simp] theorem isNaN_ofBool (b : Bool) : (ofBool b).isNaN = false := by
  rw [ofBool, Number.isNaN_ofNat]

@[simp] theorem isNaN_toNumber_date (d : Date) : d.toNumber.isNaN = false := by
  rw [Date.toNumber, Number.isNaN_ofInt]

theorem isNaN_number {n : Number} : n.isNaN = false ↔ n ≠ .nan := by
  cases n <;> simp [Number.isNaN]

/-- What is neither missing nor blank is numeric if its reading is a number. -/
theorem isNaN_strictNumber {v : Value} (hempty : v.isEmpty = false) (hblank : v.isBlank = false) :
    v.strictNumber.isNaN = false ↔ v.IsNumeric := by
  cases v with
  | empty => exact nomatch hempty
  | boolean b => simp [strictNumber, IsNumeric]
  | number n => exact isNaN_number
  | date d => simp [strictNumber, IsNumeric]
  | error marker => simp [strictNumber, IsNumeric, Number.isNaN]
  | text s =>
    have htext : isBlankText s = false := by
      rw [isEmpty] at hempty
      simpa [Value.isBlank, hempty] using hblank
    rw [strictNumber, isNaN_getD fun n hn => ?_]
    · simp [IsNumeric, htext]
    · rcases (Option.orElse_eq_some _ _ _).1 hn with hn | ⟨-, hn⟩
      · exact Number.isNaN_of_ofText? hn
      · obtain ⟨d, -, rfl⟩ := Option.map_eq_some_iff.1 hn
        exact isNaN_toNumber_date d

theorem not_isNumeric {v : Value} (h : v.isEmpty = true ∨ v.isBlank = true) : ¬ v.IsNumeric := by
  cases v with
  | empty => exact id
  | text s =>
    rintro ⟨hblank, -⟩
    rcases h with h | h
    · rw [isEmpty] at h
      rw [String.isEmpty_iff.1 h] at hblank
      exact nomatch hblank
    · rw [Value.isBlank, hblank, Bool.and_false] at h
      exact nomatch h
  | boolean _ | number _ | date _ | error _ => simp [isEmpty, Value.isBlank] at h

theorem isNumeric_strictReading {v : Value} : v.strictReading.isNumeric = true ↔ v.IsNumeric := by
  rw [strictReading]
  split_ifs with hempty hblank
  · simp [Operand.isNumeric, not_isNumeric (.inl hempty)]
  · simp [Operand.isNumeric, Number.isNaN, not_isNumeric (.inr hblank)]
  · rw [Bool.not_eq_true] at hempty hblank
    simpa [Operand.isNumeric] using isNaN_strictNumber hempty hblank

theorem isEmpty_strictReading {v : Value} : v.strictReading.isEmpty = true ↔ v.HasNoData := by
  rw [← isEmpty_iff, strictReading]
  split_ifs with hempty hblank
  · simp [hempty]
  · simp [hempty]
  · simp [hempty]

theorem isDate_strictReading {v : Value} (h : v.IsNumeric) : v.strictReading.isDate = true ↔ v.IsDate := by
  rw [strictReading, if_neg fun hempty => not_isNumeric (.inl hempty) h,
    if_neg fun hblank => not_isNumeric (.inr hblank) h, ← asDate?_isSome_iff]

theorem isEmpty_looseReading {v : Value} : v.looseReading.isEmpty = true ↔ v.HasNoData := isEmpty_iff

theorem isNumeric_looseReading {v : Value} (h : ¬ v.IsDate) :
    v.looseReading.isNumeric = true ↔ v.IsLooselyNumeric := by
  cases v with
  | empty => simp [looseReading, isEmpty, Operand.isNumeric, IsLooselyNumeric]
  | boolean b => simp [looseReading, isEmpty, Operand.isNumeric, IsLooselyNumeric, toNumber]
  | number n => simpa [looseReading, isEmpty, Operand.isNumeric, IsLooselyNumeric, toNumber] using isNaN_number
  | date d => exact absurd trivial h
  | error marker => simp [looseReading, isEmpty, Operand.isNumeric, IsLooselyNumeric, toNumber, Number.isNaN]
  | text s =>
    have hnumber : ((Number.ofText? s).getD .nan).isNaN = false ↔ (Number.ofText? s).isSome = true :=
      isNaN_getD fun n => Number.isNaN_of_ofText?
    by_cases hempty : s = ""
    · simp [looseReading, isEmpty, Operand.isNumeric, IsLooselyNumeric, hempty]
    · cases hblank : isBlankText s <;>
        simp [looseReading, isEmpty, Operand.isNumeric, IsLooselyNumeric, toNumber, hempty, hblank, hnumber]

/-! ## What settles the result -/

/-- An operand tells of a value whether it has no data and whether it is numeric. -/
structure Operand.Reads (x : Operand) (Numeric : Value → Prop) (v : Value) : Prop where
  isEmpty_iff : x.isEmpty = true ↔ v.HasNoData
  isNumeric_iff : x.isNumeric = true ↔ Numeric v

theorem reads_strictReading (v : Value) : v.strictReading.Reads IsNumeric v :=
  ⟨isEmpty_strictReading, isNumeric_strictReading⟩

theorem reads_looseReading {v : Value} (h : ¬ v.IsDate) : v.looseReading.Reads IsLooselyNumeric v :=
  ⟨isEmpty_looseReading, isNumeric_looseReading h⟩

theorem exists_error {v : Value} (h : v.isError = true) : ∃ marker, v = error marker := by
  cases v with
  | error marker => exact ⟨marker, rfl⟩
  | empty | boolean _ | number _ | text _ | date _ => exact nomatch h

section Settled

variable {Numeric : Value → Prop} {a b r : Value} {x y : Operand} (hx : x.Reads Numeric a)
  (hy : y.Reads Numeric b)

include hx hy

theorem emptyText?_iff : x.emptyText? y = some (text "") ↔ a.HasNoData ∧ b.HasNoData ∨
    a.HasNoData ∧ Numeric b ∨ b.HasNoData ∧ Numeric a := by
  rw [← hx.isEmpty_iff, ← hy.isEmpty_iff, ← hx.isNumeric_iff, ← hy.isNumeric_iff, Operand.emptyText?]
  simp only [Option.ite_none_right_eq_some, and_true, Bool.or_eq_true, Bool.and_eq_true, or_assoc]

theorem Settled.outcome (h : Settled Numeric a b r) : settled? a b = some r ∨
    settled? a b = none ∧ (x.isNumeric && y.isNumeric) = false ∧ x.emptyText? y = some r := by
  cases h with
  | first marker second => exact .inl rfl
  | second marker hfirst =>
    rw [settled?, hfirst]
    exact .inl rfl
  | nan hfirst hsecond hnan =>
    rw [settled?, hfirst, hsecond]
    have hor : (a.isNaN || b.isNaN) = true := by simpa [isNaN_iff] using hnan
    exact .inl (by simp [hor])
  | noData hfirst hsecond hnumber hnumber' hnone =>
    have hor : (a.isNaN || b.isNaN) = false := by
      rw [Bool.or_eq_false_iff, ← Bool.not_eq_true, ← Bool.not_eq_true, isNaN_iff, isNaN_iff]
      exact ⟨hnumber, hnumber'⟩
    refine .inr ⟨by simp [settled?, hfirst, hsecond, hor], ?_, (emptyText?_iff hx hy).2 hnone⟩
    -- an operand without data is not numeric
    have hempty : x.isEmpty = true ∨ y.isEmpty = true := by
      rw [hx.isEmpty_iff, hy.isEmpty_iff]
      rcases hnone with h | h | h
      · exact .inl h.1
      · exact .inl h.1
      · exact .inr h.1
    rcases hempty with h | h <;> simp [Operand.isNumeric, h]

theorem outcome_of_not_settled (h : ∀ r, ¬ Settled Numeric a b r) :
    settled? a b = none ∧ x.emptyText? y = none := by
  have hfirst : a.isError = false := by
    rw [← Bool.not_eq_true]
    rintro herror
    obtain ⟨marker, rfl⟩ := exists_error herror
    exact h _ (.first marker b)
  have hsecond : b.isError = false := by
    rw [← Bool.not_eq_true]
    rintro herror
    obtain ⟨marker, rfl⟩ := exists_error herror
    exact h _ (.second marker hfirst)
  have hnumber : ¬ (a = number .nan ∨ b = number .nan) := fun hnan => h _ (.nan hfirst hsecond hnan)
  have hor : (a.isNaN || b.isNaN) = false := by
    rw [← Bool.not_eq_true, Bool.or_eq_true, isNaN_iff, isNaN_iff]
    exact hnumber
  have hnone : x.emptyText? y ≠ some (text "") := fun hempty =>
    h _ (.noData hfirst hsecond (fun ha => hnumber (.inl ha)) (fun hb => hnumber (.inr hb))
      ((emptyText?_iff hx hy).1 hempty))
  refine ⟨by simp [settled?, hfirst, hsecond, hor], ?_⟩
  rw [Operand.emptyText?] at hnone ⊢
  split at hnone
  · exact absurd rfl hnone
  · next hc => rw [if_neg hc]

end Settled

/-- Unless both operands are markers, it does not matter which is the first. -/
theorem Settled.comm {Numeric : Value → Prop} {a b r : Value} (h : Settled Numeric a b r)
    (hone : ¬ (a.isError = true ∧ b.isError = true)) : Settled Numeric b a r := by
  cases h with
  | first marker _ => exact .second marker (Bool.eq_false_iff.2 fun herror => hone ⟨rfl, herror⟩)
  | second marker hfirst => exact .first marker a
  | nan hfirst hsecond hnan => exact .nan hsecond hfirst hnan.symm
  | noData hfirst hsecond hnumber hnumber' hnone =>
    refine .noData hsecond hfirst hnumber' hnumber ?_
    rcases hnone with hboth | hone | hone
    · exact .inl hboth.symm
    · exact .inr (.inr hone)
    · exact .inr (.inl hone)

theorem not_settled_comm {Numeric : Value → Prop} {a b : Value} (h : ∀ r, ¬ Settled Numeric a b r) :
    ∀ r, ¬ Settled Numeric b a r := by
  intro r hr
  by_cases hboth : b.isError = true ∧ a.isError = true
  · obtain ⟨marker, rfl⟩ := exists_error hboth.2
    exact h _ (.first marker b)
  · exact h r (hr.comm hboth)

/-! ## The operators -/

/-- A type error on the symbol under a condition, and no error else. -/
def FailsIff (condition : Prop) (symbol : String) (result : Except FormulaError Value) : Prop :=
  condition ∧ result = .error (.typeMismatch symbol) ∨ ¬ condition ∧ ∃ v, result = .ok v

section Strict

variable {a b r : Value}

theorem add_of_settled (h : Settled IsNumeric a b r) : a.add b = r := by
  rcases h.outcome (reads_strictReading a) (reads_strictReading b) with h | ⟨h, hnumeric, hempty⟩
  · simp only [add, h]
  · simp only [add, h, hnumeric, hempty, Bool.false_eq_true, ↓reduceIte]

theorem subtract_of_settled (h : Settled IsNumeric a b r) : a.subtract b = .ok r := by
  rcases h.outcome (reads_strictReading a) (reads_strictReading b) with h | ⟨h, hnumeric, hempty⟩
  · simp only [subtract, h]
  · simp only [subtract, h, hnumeric, hempty, Bool.false_eq_true, ↓reduceIte]

theorem compare_of_settled (h : Settled IsNumeric a b r) (numeric : Number → Number → Bool)
    (lexical : String → String → Bool) : compare numeric lexical a b = r := by
  rcases h.outcome (reads_strictReading a) (reads_strictReading b) with h | ⟨h, hnumeric, hempty⟩
  · simp only [compare, h]
  · simp only [compare, h, hnumeric, hempty, Bool.false_eq_true, ↓reduceIte, Option.getD_some]

theorem compare_of_not_settled (h : ∀ r, ¬ Settled IsNumeric a b r) (numeric : Number → Number → Bool)
    (lexical : String → String → Bool) : ∃ c, compare numeric lexical a b = boolean c := by
  obtain ⟨hsettled, hempty⟩ := outcome_of_not_settled (reads_strictReading a) (reads_strictReading b) h
  simp only [compare, hsettled, hempty, Option.getD_none]
  split
  · exact ⟨_, rfl⟩
  · exact ⟨_, rfl⟩

theorem subtract_of_not_settled (h : ∀ r, ¬ Settled IsNumeric a b r) :
    FailsIff (¬ a.IsNumeric ∨ ¬ b.IsNumeric ∨ b.IsDate ∧ ¬ a.IsDate) minusSign (a.subtract b) := by
  obtain ⟨hsettled, hempty⟩ := outcome_of_not_settled (reads_strictReading a) (reads_strictReading b) h
  simp only [subtract, hsettled, hempty]
  split
  · next hnumeric =>
    rw [Bool.and_eq_true, isNumeric_strictReading, isNumeric_strictReading] at hnumeric
    have hkinds : ¬ a.IsNumeric ∨ ¬ b.IsNumeric ∨ b.IsDate ∧ ¬ a.IsDate ↔
        b.strictReading.isDate = true ∧ ¬ a.strictReading.isDate = true := by
      rw [isDate_strictReading hnumeric.1, isDate_strictReading hnumeric.2]
      simp [hnumeric]
    rw [FailsIff, hkinds]
    cases a.strictReading.isDate <;> cases b.strictReading.isDate <;> simp
  · next hnumeric =>
    rw [Bool.and_eq_true, isNumeric_strictReading, isNumeric_strictReading, not_and_or] at hnumeric
    exact .inl ⟨hnumeric.imp_right .inl, rfl⟩

end Strict

theorem exists_compare {op : BinaryOperator} (hop : op ∈ [.lessThan, .lessEqual]) :
    ∃ numeric lexical, ∀ a b, op.apply a b = .ok (compare numeric lexical a b) := by
  simp only [List.mem_cons, List.not_mem_nil, or_false] at hop
  rcases hop with rfl | rfl
  all_goals exact ⟨_, _, fun a b => rfl⟩

/-- A greater operand is one that the other is less than. -/
theorem exists_compare_swapped {op : BinaryOperator} (hop : op ∈ [.greaterThan, .greaterEqual]) :
    ∃ numeric lexical, ∀ a b, op.apply a b = .ok (compare numeric lexical b a) := by
  simp only [List.mem_cons, List.not_mem_nil, or_false] at hop
  rcases hop with rfl | rfl
  · exact ⟨Number.less, _, fun a b => by rw [BinaryOperator.apply, greaterThan, lessThan]⟩
  · exact ⟨Number.lessOrEqual, _, fun a b => by rw [BinaryOperator.apply, greaterOrEqual, lessOrEqual]⟩

section Scaling

variable {op : BinaryOperator} (hop : op ∈ [.multiply, .divide, .remainder, .power]) {a b r : Value}

include hop

theorem exists_scaling : ∃ operation, (BinaryOperator.ofSymbol? op.symbol).bind scaling? = some operation ∧
    op.apply a b = scale op.symbol a b := by
  rw [BinaryOperator.ofSymbol?_symbol]
  simp only [List.mem_cons, List.not_mem_nil, or_false] at hop
  rcases hop with rfl | rfl | rfl | rfl
  all_goals exact ⟨_, rfl, by rw [BinaryOperator.apply]⟩

theorem scale_of_date (h : a.IsDate ∨ b.IsDate) : op.apply a b = .error (.typeMismatch op.symbol) := by
  obtain ⟨operation, hoperation, happly⟩ := exists_scaling (a := a) (b := b) hop
  rw [← asDate?_isSome_iff, ← asDate?_isSome_iff, ← Bool.or_eq_true] at h
  simp only [happly, scale, hoperation, h, ↓reduceIte]

theorem scale_of_settled (ha : ¬ a.IsDate) (hb : ¬ b.IsDate) (h : Settled IsLooselyNumeric a b r) :
    op.apply a b = .ok r := by
  obtain ⟨operation, hoperation, happly⟩ := exists_scaling (a := a) (b := b) hop
  have hdate := asDate?_or_eq_false ha hb
  rcases h.outcome (reads_looseReading ha) (reads_looseReading hb) with h | ⟨h, hnumeric, hempty⟩
  · simp only [happly, scale, hoperation, hdate, h, Bool.false_eq_true, ↓reduceIte]
  · simp only [happly, scale, hoperation, hdate, h, hnumeric, hempty, Bool.false_eq_true, ↓reduceIte]

theorem scale_of_not_settled (ha : ¬ a.IsDate) (hb : ¬ b.IsDate) (h : ∀ r, ¬ Settled IsLooselyNumeric a b r) :
    FailsIff (¬ a.IsLooselyNumeric ∨ ¬ b.IsLooselyNumeric) op.symbol (op.apply a b) := by
  obtain ⟨operation, hoperation, happly⟩ := exists_scaling (a := a) (b := b) hop
  have hdate := asDate?_or_eq_false ha hb
  obtain ⟨hsettled, hempty⟩ := outcome_of_not_settled (reads_looseReading ha) (reads_looseReading hb) h
  simp only [happly, scale, hoperation, hdate, hsettled, hempty, Bool.false_eq_true, ↓reduceIte]
  rw [FailsIff, ← not_and_or, ← isNumeric_looseReading ha, ← isNumeric_looseReading hb, ← Bool.and_eq_true]
  split
  · next hnumeric => exact .inr ⟨fun h => h hnumeric, _, rfl⟩
  · next hnumeric => exact .inl ⟨hnumeric, rfl⟩

end Scaling

/-- **Priority.** Markers, not-a-number and missing data come first, for comparisons by `>` and `>=` with the
operands exchanged. Then a sum has a result, a comparison is true or false, and a difference fails if and only
if an operand is not numeric or a date is taken from what is none. Products, quotients, remainders and
powers refuse dates before all else, and at last fail if and only if an operand is not loosely numeric. -/
theorem coercion_priority (a b : Value) :
    (∀ op ∈ [BinaryOperator.add, .subtract, .lessThan, .lessEqual],
      ∀ r, Settled IsNumeric a b r → op.apply a b = .ok r) ∧
    (∀ op ∈ [BinaryOperator.greaterThan, .greaterEqual],
      ∀ r, Settled IsNumeric b a r → op.apply a b = .ok r) ∧
    ((∀ r, ¬ Settled IsNumeric a b r) →
      (∃ r, BinaryOperator.add.apply a b = .ok r) ∧
      (∀ op ∈ [BinaryOperator.lessThan, .lessEqual, .greaterThan, .greaterEqual],
        ∃ c, op.apply a b = .ok (boolean c)) ∧
      FailsIff (¬ a.IsNumeric ∨ ¬ b.IsNumeric ∨ b.IsDate ∧ ¬ a.IsDate) minusSign
        (BinaryOperator.subtract.apply a b)) ∧
    ∀ op ∈ [BinaryOperator.multiply, .divide, .remainder, .power],
      (a.IsDate ∨ b.IsDate → op.apply a b = .error (.typeMismatch op.symbol)) ∧
      (¬ (a.IsDate ∨ b.IsDate) →
        (∀ r, Settled IsLooselyNumeric a b r → op.apply a b = .ok r) ∧
        ((∀ r, ¬ Settled IsLooselyNumeric a b r) →
          FailsIff (¬ a.IsLooselyNumeric ∨ ¬ b.IsLooselyNumeric) op.symbol (op.apply a b))) := by
  refine ⟨fun op hop r h => ?_, fun op hop r h => ?_,
    fun h => ⟨⟨_, rfl⟩, fun op hop => ?_, subtract_of_not_settled h⟩,
    fun op hop => ⟨scale_of_date hop, fun hdate => ?_⟩⟩
  · rcases List.mem_cons.1 hop with rfl | hop
    · exact congrArg Except.ok (add_of_settled h)
    · rcases List.mem_cons.1 hop with rfl | hop
      · exact subtract_of_settled h
      · obtain ⟨numeric, lexical, happly⟩ := exists_compare hop
        rw [happly, compare_of_settled h]
  · obtain ⟨numeric, lexical, happly⟩ := exists_compare_swapped hop
    rw [happly, compare_of_settled h]
  · have hop : op ∈ [.lessThan, .lessEqual] ++ [.greaterThan, .greaterEqual] := hop
    rcases List.mem_append.1 hop with hop | hop
    · obtain ⟨numeric, lexical, happly⟩ := exists_compare hop
      exact (compare_of_not_settled h numeric lexical).imp fun c hc => by rw [happly, hc]
    · obtain ⟨numeric, lexical, happly⟩ := exists_compare_swapped hop
      exact (compare_of_not_settled (not_settled_comm h) numeric lexical).imp fun c hc => by rw [happly, hc]
  · obtain ⟨ha, hb⟩ := not_or.1 hdate
    exact ⟨fun r => scale_of_settled hop ha hb, scale_of_not_settled hop ha hb⟩

end Value

end Formulary
