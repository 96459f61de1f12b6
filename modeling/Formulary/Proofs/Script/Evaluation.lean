import Formulary.Proofs.Audit
import Formulary.Proofs.Script.Grammar
import Formulary.Script.Run

/-!
# The evaluation of derivations

`Derivation.Evaluates` says what happens when a derivation is evaluated in a context: its parts are evaluated
from left to right, of `&&`, `||` and conditionals only those that decide, up to the first failure. All that
happens is in the audit: the result, the queries to the context in their order, and the state that is left.
The run of the script that a derivation means has that audit and no other (`Derivation.evaluates_iff`).
-/

namespace Formulary

variable {σ α β : Type}

/-- From a state there may be such an audit. -/
abbrev Course (σ α : Type) := σ → Audit σ α → Prop

namespace Course

/-- Nothing is asked for a result. -/
inductive Gives (result : Except FormulaError α) : Course σ α where
  | intro (state : σ) : Gives result state ⟨result, [], state⟩

/-- The context is asked once. -/
inductive Asks (query : Query) (answer : Answer (StateM σ) α) : Course σ α where
  | intro (state : σ) :
    Asks query answer state ⟨(answer.runIn state).1, [query], (answer.runIn state).2⟩

/-- One course after the other, unless the first fails. -/
inductive AndThen (first : Course σ α) (next : α → Course σ β) : Course σ β where
  | failed {state state' : σ} {error : FormulaError} {queries : List Query}
    (h : first state ⟨.error error, queries, state'⟩) :
    AndThen first next state ⟨.error error, queries, state'⟩
  | continued {state state' : σ} {value : α} {queries : List Query} {rest : Audit σ β}
    (h : first state ⟨.ok value, queries, state'⟩) (hnext : next value state' rest) :
    AndThen first next state ⟨rest.result, queries ++ rest.queries, rest.state⟩

/-- Both operands are evaluated, the left one first. -/
def both (op : Value → Value → Except FormulaError Value) (left right : Course σ Value) : Course σ Value :=
  AndThen left fun a => AndThen right fun b => Gives (op a b)

/-- The right operand of `&&` and of `||` is left out if the left one decides. -/
def operate : BinaryOperator → (left right : Course σ Value) → Course σ Value
  | .and, left, right => AndThen left fun a => if a.isTruthy then right else Gives (.ok a)
  | .or, left, right => AndThen left fun a => if a.isTruthy then Gives (.ok a) else right
  | op, left, right => both op.apply left right

end Course

namespace Script

open Course

/-- What the derivations of a phrase evaluate to. -/
abbrev Phrase.Result : Phrase → Type
  | arguments => List Value
  | _ => Value

/-- The course that the evaluation of a derivation takes. -/
def Derivation.Evaluates (ctx : Context (StateM σ)) (bindings : Bindings) :
    {phrase : Phrase} → Derivation phrase → Course σ phrase.Result
  | _, plain condition => condition.Evaluates ctx bindings
  | _, conditional condition whenTrue whenFalse =>
    AndThen (condition.Evaluates ctx bindings) fun c =>
      if c.isTruthy then whenTrue.Evaluates ctx bindings else whenFalse.Evaluates ctx bindings
  | _, tighter _ inner => inner.Evaluates ctx bindings
  | _, binary _ _ op _ left right =>
    operate op (left.Evaluates ctx bindings) (right.Evaluates ctx bindings)
  | _, not operand =>
    AndThen (operand.Evaluates ctx bindings) fun a => Gives (.ok (UnaryOperator.not.apply a))
  | _, tight inner => inner.Evaluates ctx bindings
  | _, number n => Gives (.ok (.number n))
  | _, negative n => Gives (.ok (.number n.neg))
  | _, negativeInfinity => Gives (.ok (.number (.infinity true)))
  | _, text s => Gives (.ok (.text s))
  | _, constant _ value _ => Gives (.ok value)
  | _, parenthesized inner => inner.Evaluates ctx bindings
  | _, .variable name indices =>
    Asks (.lookupScoped name (indices.map Index.value) bindings)
      (ctx.lookupScoped name (indices.map Index.value) bindings)
  | _, call name args =>
    AndThen (args.Evaluates ctx bindings) fun values => Asks (.call name values) (ctx.call name values)
  | _, scale symbol left right =>
    both (Value.scale symbol) (left.Evaluates ctx bindings) (right.Evaluates ctx bindings)
  | _, operation _ op _ left right =>
    both op.apply (left.Evaluates ctx bindings) (right.Evaluates ctx bindings)
  | _, conversion _ op _ operand =>
    AndThen (operand.Evaluates ctx bindings) fun a => Gives (.ok (op.apply a))
  | _, none => Gives (.ok ([] : List Value))
  | _, argument before last =>
    AndThen (before.Evaluates ctx bindings) fun values =>
      AndThen (last.Evaluates ctx bindings) fun value => Gives (.ok (values ++ [value] : List Value))

end Script

/-! ## Courses of computations -/

namespace Course

/-- From every state the computation has an audit, the only one that the course allows. -/
def IsOf (course : Course σ α) (plain : Answer (StateM σ) α) (audited : Answer (Audited (StateM σ)) α) :
    Prop :=
  ∀ state, ∃ audit, Audits plain audited state audit ∧ ∀ audit', course state audit' ↔ audit' = audit

theorem isOf_gives (result : Except FormulaError α) :
    IsOf (σ := σ) (Gives result) (.ofExcept result) (.ofExcept result) := by
  refine fun state => ⟨_, .ofExcept result state, fun audit' => ⟨?_, ?_⟩⟩
  · rintro ⟨⟩
    rfl
  · rintro rfl
    exact .intro state

theorem isOf_asks (query : Query) (answer : Answer (StateM σ) α) :
    IsOf (Asks query answer) answer (Audited.noteAnswer query answer) := by
  refine fun state => ⟨_, .noteAnswer query answer state, fun audit' => ⟨?_, ?_⟩⟩
  · rintro ⟨⟩
    rfl
  · rintro rfl
    exact .intro state

theorem IsOf.andThen {first : Course σ α} {next : α → Course σ β} {plain : Answer (StateM σ) α}
    {audited : Answer (Audited (StateM σ)) α} {plain' : α → Answer (StateM σ) β}
    {audited' : α → Answer (Audited (StateM σ)) β} (h : first.IsOf plain audited)
    (hnext : ∀ value, (next value).IsOf (plain' value) (audited' value)) :
    (AndThen first next).IsOf (plain >>= plain') (audited >>= audited') := by
  intro state
  obtain ⟨⟨result, queries, state'⟩, haudits, honly⟩ := h state
  cases result with
  | error error =>
    refine ⟨_, haudits.bind_error, fun audit' => ⟨fun hcourse => ?_, ?_⟩⟩
    · cases hcourse with
      | failed hfirst => cases (honly _).1 hfirst; rfl
      | continued hfirst => exact nomatch (honly _).1 hfirst
    · rintro rfl
      exact .failed ((honly _).2 rfl)
  | ok value =>
    obtain ⟨rest, haudits', honly'⟩ := hnext value state'
    refine ⟨_, haudits.bind_ok haudits', fun audit' => ⟨fun hcourse => ?_, ?_⟩⟩
    · cases hcourse with
      | failed hfirst => exact nomatch (honly _).1 hfirst
      | continued hfirst hrest =>
        cases (honly _).1 hfirst
        rw [(honly' _).1 hrest]
    · rintro rfl
      exact .continued ((honly _).2 rfl) ((honly' _).2 rfl)

theorem IsOf.ite {course course' : Course σ α} {plain plain' : Answer (StateM σ) α}
    {audited audited' : Answer (Audited (StateM σ)) α} (h : course.IsOf plain audited)
    (h' : course'.IsOf plain' audited') (c : Bool) :
    IsOf (if c then course else course') (if c then plain else plain') (if c then audited else audited') := by
  cases c with
  | true => exact h
  | false => exact h'

section Operands

variable {left right : Course σ Value} {plain plain' : Answer (StateM σ) Value}
  {audited audited' : Answer (Audited (StateM σ)) Value} (hleft : left.IsOf plain audited)
  (hright : right.IsOf plain' audited')

include hleft hright

theorem IsOf.both (op : Value → Value → Except FormulaError Value) :
    (both op left right).IsOf (do let a ← plain; let b ← plain'; Answer.ofExcept (op a b))
      (do let a ← audited; let b ← audited'; Answer.ofExcept (op a b)) :=
  hleft.andThen fun a => hright.andThen fun b => isOf_gives (op a b)

theorem IsOf.operate (op : BinaryOperator) :
    (operate op left right).IsOf (op.run plain plain') (op.run audited audited') := by
  cases op with
  | and => exact hleft.andThen fun a => hright.ite (isOf_gives (.ok a)) a.isTruthy
  | or => exact hleft.andThen fun a => (isOf_gives (.ok a)).ite hright a.isTruthy
  | _ => exact hleft.both hright _

end Operands

end Course

namespace Script

open Course

/-- An operator that a call names evaluates both operands. -/
theorem operate_of_operation {name : String} {op : BinaryOperator} (h : Reader.operation? name = some op)
    (left right : Course σ Value) : operate op left right = both op.apply left right := by
  unfold Reader.operation? at h
  split at h
  all_goals first
    | obtain rfl := Option.some.inj h; rfl
    | exact nomatch h

theorem runAll_concat {m : Type → Type} [Monad m] [LawfulMonad m] (ctx : Context m) (bindings : Bindings)
    (scripts : List Script) (last : Script) :
    runAll ctx bindings (scripts ++ [last]) = (do
      let values ← runAll ctx bindings scripts
      let value ← run ctx bindings last
      pure (values ++ [value])) := by
  induction scripts with
  | nil => simp [runAll]
  | cons script scripts ih => simp [runAll, ih]

/-- The run of what a derivation of the phrase means. -/
def runPhrase {m : Type → Type} [Monad m] (ctx : Context m) (bindings : Bindings) :
    (phrase : Phrase) → phrase.Meaning → Answer m phrase.Result
  | .arguments, scripts => runAll ctx bindings scripts
  | .expression, script | .level _, script | .primary, script => run ctx bindings script

namespace Derivation

variable (ctx : Context (StateM σ)) (bindings : Bindings)

theorem isOf_evaluates {phrase : Phrase} (d : Derivation phrase) :
    IsOf (d.Evaluates ctx bindings) (runPhrase ctx bindings phrase d.meaning)
      (runPhrase ctx.audited bindings phrase d.meaning) := by
  induction d with
  | plain condition ih => exact ih
  | conditional condition whenTrue whenFalse ihc iht ihf =>
    simp only [runPhrase, meaning, run]
    exact ihc.andThen fun c => iht.ite ihf c.isTruthy
  | tighter n inner ih => exact ih
  | binary n token op hop left right ihl ihr =>
    simp only [runPhrase, meaning, run]
    exact ihl.operate ihr op
  | not operand ih =>
    simp only [runPhrase, meaning, run]
    exact ih.andThen fun a => isOf_gives _
  | tight inner ih => exact ih
  | number | negative | negativeInfinity | text | constant =>
    simp only [runPhrase, meaning, run]
    exact isOf_gives _
  | parenthesized inner ih => exact ih
  | «variable» name indices =>
    simp only [runPhrase, meaning, run]
    exact isOf_asks _ _
  | call name args ih =>
    simp only [runPhrase, meaning, run]
    exact ih.andThen fun values => isOf_asks _ _
  | scale symbol left right ihl ihr =>
    simp only [runPhrase, meaning, run]
    exact ihl.both ihr _
  | operation name op hname left right ihl ihr =>
    simp only [runPhrase, meaning, run, Evaluates]
    rw [← operate_of_operation hname]
    exact ihl.operate ihr op
  | conversion name op hname operand ih =>
    simp only [runPhrase, meaning, run]
    exact ih.andThen fun a => isOf_gives _
  | none =>
    simp only [runPhrase, meaning, runAll]
    exact isOf_gives _
  | argument before last ihb ihl =>
    simp only [runPhrase, meaning, runAll_concat]
    exact ihb.andThen fun values => ihl.andThen fun value => isOf_gives _

/-- **Evaluation.** The run of the script that a derivation means has an audit, and that is the only one with
which the derivation evaluates. -/
theorem evaluates_iff (d : Derivation .expression) (state : σ) :
    ∃ audit, (d.meaning.run ctx bindings).runIn state = (audit.result, audit.state) ∧
      (d.meaning.run ctx.audited bindings).audit state = audit ∧
      ∀ audit', d.Evaluates ctx bindings state audit' ↔ audit' = audit := by
  obtain ⟨audit, haudits, honly⟩ := isOf_evaluates ctx bindings d state
  exact ⟨audit, haudits.runIn_eq, haudits.audit_eq, honly⟩

end Derivation

end Script

end Formulary
