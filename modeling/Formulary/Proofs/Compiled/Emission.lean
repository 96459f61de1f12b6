import Formulary.Compiled
import Formulary.Proofs.Expr.Recognized
import Formulary.Proofs.Expr.Walk
import Formulary.Proofs.Script.Fragment

/-!
# Generated code

`Emitted expr code script`: the tree may be compiled to this code, which means this script, with any
aggregate indices at its variables. Every tree within the depth limit has its code read back as that
script (`Emitted.ofCode`), and the script runs as the tree is walked (`Emitted.run_eq_walk`).

A level of a tree takes at most two levels of nesting in the code: one for the parentheses around it and
one for the expression in them, or for an exclamation mark.
-/

namespace Formulary

/-- What the code of an operator means. -/
def BinaryOperator.script (op : BinaryOperator) (left right : Script) : Script :=
  match op with
  | .multiply | .divide | .remainder | .power => .scale op.symbol left right
  | _ => .binary op left right

/-- An argument of a call with its code and its script. -/
structure Emission where
  expr : Expr
  code : String
  script : Script

inductive Emitted : Expr → String → Script → Prop where
  | boolean (b : Bool) :
    Emitted (.boolean b) (if b then "true" else "false") (.literal (.boolean b))
  | number (n : Number) : Emitted (.number n) (Script.numberCode n) (.literal (.number n))
  | text (s : String) : Emitted (.text s) (Script.textCode s) (.literal (.text s))
  | variable (name : String) {indices : List Nat} (hindices : ∀ i ∈ indices, i < 2 ^ 64) :
    Emitted (.variable name) (Script.variableCode name indices)
      (.variable name (indices.map Script.Spelled.readIndex))
  | call (name : String) {args : List Emission}
    (hargs : ∀ arg ∈ args, Emitted arg.expr arg.code arg.script) :
    Emitted (.call name (args.map Emission.expr)) (Script.callCode name (args.map Emission.code))
      (.call name (args.map Emission.script))
  | unary {symbol : String} {op : UnaryOperator} {operand : Expr} {code : String} {script : Script}
    (hop : UnaryOperator.ofSymbol? symbol = some op) (h : Emitted operand code script) :
    Emitted (.unary symbol operand) (op.code (operand.parenthesized code)) (.unary op script)
  | binary {symbol : String} {op : BinaryOperator} {left right : Expr} {leftCode rightCode : String}
    {leftScript rightScript : Script} (hop : BinaryOperator.ofSymbol? symbol = some op)
    (hleft : Emitted left leftCode leftScript) (hright : Emitted right rightCode rightScript) :
    Emitted (.binary symbol left right)
      (op.code (left.parenthesized leftCode) (right.parenthesized rightCode))
      (op.script leftScript rightScript)
  | conditional {condition whenTrue whenFalse : Expr} {conditionCode trueCode falseCode : String}
    {conditionScript trueScript falseScript : Script}
    (hcondition : Emitted condition conditionCode conditionScript)
    (htrue : Emitted whenTrue trueCode trueScript)
    (hfalse : Emitted whenFalse falseCode falseScript) :
    Emitted (.conditional condition whenTrue whenFalse)
      ("(" ++ conditionCode ++ " ? " ++ trueCode ++ " : " ++ falseCode ++ ")")
      (.conditional conditionScript trueScript falseScript)

namespace Emitted

/-! ## The meaning of the code -/

section Run

variable {m : Type → Type} [Monad m] {ctx : Context m} {bindings : Bindings}

theorem run_script (op : BinaryOperator) (left right : Script) :
    (op.script left right).run ctx bindings =
      op.run (left.run ctx bindings) (right.run ctx bindings) := by
  cases op <;> rfl

theorem runAll_eq_mapM [LawfulMonad m] {args : List Emission} {walk : Expr → Answer m Value}
    (h : ∀ arg ∈ args, arg.script.run ctx bindings = walk arg.expr) :
    Script.runAll ctx bindings (args.map Emission.script) = (args.map Emission.expr).mapM walk := by
  induction args with
  | nil => rfl
  | cons arg args ih =>
    rw [List.map_cons, List.map_cons, List.mapM_cons, Script.runAll, h arg List.mem_cons_self,
      ih fun arg' harg => h arg' (List.mem_cons_of_mem _ harg)]

/-- **Meaning.** In a context that does not look at indices, the script runs as the tree is walked. -/
theorem run_eq_walk [LawfulMonad m] (hctx : ∀ name indices bindings,
      ctx.lookupScoped name indices bindings = ctx.lookup name bindings)
    {expr : Expr} {code : String} {script : Script} (h : Emitted expr code script) {levels : Nat}
    (hdepth : expr.depth ≤ levels) : script.run ctx bindings = expr.walk ctx bindings levels := by
  induction h generalizing levels with
  | boolean | number | text =>
    obtain ⟨levels, rfl⟩ : ∃ n, levels = n + 1 := ⟨levels - 1, by rw [Expr.depth] at hdepth; omega⟩
    rfl
  | «variable» name =>
    obtain ⟨levels, rfl⟩ : ∃ n, levels = n + 1 := ⟨levels - 1, by rw [Expr.depth] at hdepth; omega⟩
    exact hctx _ _ _
  | @call name args hargs ih =>
    obtain ⟨levels, rfl⟩ : ∃ n, levels = n + 1 := ⟨levels - 1, by rw [Expr.depth] at hdepth; omega⟩
    rw [Expr.depth] at hdepth
    have hargs : ∀ arg ∈ args, arg.expr.depth ≤ levels := by
      intro arg harg
      have hle := Expr.depth_le_depthAll (List.mem_map_of_mem (f := Emission.expr) harg)
      omega
    rw [Script.run, Expr.walk, runAll_eq_mapM fun arg harg => ih arg harg (hargs arg harg)]
  | @unary symbol op operand code script hop h ih =>
    obtain ⟨levels, rfl⟩ : ∃ n, levels = n + 1 := ⟨levels - 1, by rw [Expr.depth] at hdepth; omega⟩
    rw [Expr.depth] at hdepth
    rw [Script.run, Expr.walk, ih (by omega : operand.depth ≤ levels)]
    simp only [hop]
  | @binary symbol op left right leftCode rightCode leftScript rightScript hop hleft hright ihl ihr =>
    obtain ⟨levels, rfl⟩ : ∃ n, levels = n + 1 := ⟨levels - 1, by rw [Expr.depth] at hdepth; omega⟩
    rw [Expr.depth] at hdepth
    rw [run_script, Expr.walk, ihl (by omega : left.depth ≤ levels),
      ihr (by omega : right.depth ≤ levels)]
    simp only [hop]
  | @conditional condition whenTrue whenFalse _ _ _ _ _ _ hcondition htrue hfalse ihc iht ihf =>
    obtain ⟨levels, rfl⟩ : ∃ n, levels = n + 1 := ⟨levels - 1, by rw [Expr.depth] at hdepth; omega⟩
    rw [Expr.depth] at hdepth
    rw [Script.run, Expr.walk, ihc (by omega : condition.depth ≤ levels),
      iht (by omega : whenTrue.depth ≤ levels), ihf (by omega : whenFalse.depth ≤ levels)]

end Run

/-! ## The tokens of the code -/

section Code

open Script

/-- The code of a tree stands in every chain, and as an operand unless the tree is a binary operation. -/
def Fits (expr : Expr) (code : String) (script : Script) : Prop :=
  Spelled (.level 3) code script (2 * expr.depth - 2) ∧
    (expr.isBinary = false → Spelled (.level 0) code script (2 * expr.depth - 2))

variable {expr : Expr} {code : String} {script : Script}

theorem Fits.of_primary {nesting : Nat} (h : Spelled .primary code script nesting)
    (hnesting : nesting ≤ 2 * expr.depth - 2) : Fits expr code script :=
  ⟨(h.mono hnesting).tight.level (by omega), fun _ => (h.mono hnesting).tight⟩

theorem Fits.expression (h : Fits expr code script) :
    Spelled .expression code script (2 * expr.depth - 1) := by
  have := expr.depth_pos
  exact h.1.plain.mono (by omega)

/-- In parentheses, where they are needed, the code is an operand. -/
theorem Fits.operand (h : Fits expr code script) :
    Spelled (.level 0) (expr.parenthesized code) script (2 * expr.depth - 1) := by
  rw [Expr.parenthesized]
  cases hbinary : expr.isBinary with
  | false => exact (h.2 hbinary).mono (by omega)
  | true => exact h.expression.parenthesized.tight

theorem Fits.argument (h : Fits expr code script) :
    Spelled .expression (expr.parenthesized code) script (2 * expr.depth) := by
  have := expr.depth_pos
  exact (h.operand.level (by omega)).plain.mono (by omega)

section Binary

variable {symbol : String} {left right : Expr} {leftCode rightCode : String}
  {leftScript rightScript : Script} (hleft : Fits left leftCode leftScript)
  (hright : Fits right rightCode rightScript)

include hleft hright

theorem fits_operation {op : BinaryOperator} {name : String} (hword : isWord name.toList = true)
    (hname : Reader.operation? name = some op) :
    Fits (.binary symbol left right)
      (name ++ "(" ++ left.parenthesized leftCode ++ ", " ++ right.parenthesized rightCode ++ ")")
      (.binary op leftScript rightScript) := by
  refine .of_primary (hleft.argument.operation hword hname hright.argument) ?_
  rw [Expr.depth]
  omega

theorem fits_scale (op : BinaryOperator) :
    Fits (.binary symbol left right)
      ("binary_operator(" ++ textCode op.symbol ++ ", " ++ left.parenthesized leftCode ++ ", " ++
        right.parenthesized rightCode ++ ")") (.scale op.symbol leftScript rightScript) := by
  refine .of_primary (hleft.argument.scale op.symbol hright.argument) ?_
  rw [Expr.depth]
  omega

theorem fits_infix {op : BinaryOperator} {token : Script.Token} {n : Nat}
    (htoken : infixToken? op = some token) (hop : operator? n token = some op) (hn : n < 3) :
    Fits (.binary symbol left right)
      (left.parenthesized leftCode ++ " " ++ op.symbol ++ " " ++ right.parenthesized rightCode)
      (.binary op leftScript rightScript) := by
  have hbinary := (hleft.operand.level (by omega)).binary htoken hop (hright.operand.level (by omega))
  refine ⟨(hbinary.level (by omega)).mono ?_, fun h => nomatch h⟩
  rw [Expr.depth]
  omega

theorem fits_binary (op : BinaryOperator) :
    Fits (.binary symbol left right)
      (op.code (left.parenthesized leftCode) (right.parenthesized rightCode))
      (op.script leftScript rightScript) := by
  cases op with
  | add | subtract | lessThan | lessEqual | greaterThan | greaterEqual =>
    exact fits_operation hleft hright (by decide) rfl
  | multiply | divide | remainder | power => exact fits_scale hleft hright _
  | equal | strictEqual | notEqual | strictNotEqual =>
    exact fits_infix hleft hright rfl (n := 0) rfl (by decide)
  | and => exact fits_infix hleft hright rfl (n := 1) rfl (by decide)
  | or => exact fits_infix hleft hright rfl (n := 2) rfl (by decide)

end Binary

theorem fits_unary {symbol : String} (op : UnaryOperator) {operand : Expr}
    (h : Fits operand code script) :
    Fits (.unary symbol operand) (op.code (operand.parenthesized code)) (.unary op script) := by
  have hpos := operand.depth_pos
  have hdepth : (Expr.unary symbol operand).depth = 1 + operand.depth := by rw [Expr.depth]
  cases op with
  | plus =>
    have hcode : "plus(" = "plus" ++ "(" := by decide
    rw [UnaryOperator.code, hcode]
    exact .of_primary (h.argument.conversion (by decide) rfl) (by omega)
  | negate =>
    have hcode : "negate(" = "negate" ++ "(" := by decide
    rw [UnaryOperator.code, hcode]
    exact .of_primary (h.argument.conversion (by decide) rfl) (by omega)
  | not =>
    have hnot := h.operand.not.mono (by omega : _ ≤ 2 * (Expr.unary symbol operand).depth - 2)
    exact ⟨hnot.level (by omega), fun _ => hnot⟩

/-- **Spelling.** Every code that a tree may have spells its script. -/
theorem fits (h : Emitted expr code script) : Fits expr code script := by
  induction h with
  | boolean b => cases b <;> exact .of_primary (.word (by decide) rfl) (Nat.zero_le _)
  | number n => exact .of_primary (.number n) (Nat.zero_le _)
  | text s => exact .of_primary (.text s) (Nat.zero_le _)
  | «variable» name hindices => exact .of_primary (.variable name hindices) (Nat.zero_le _)
  | @call name args hargs ih =>
    have hargs : ∀ arg ∈ args, Spelled .expression arg.code arg.script
        (2 * Expr.depthAll (args.map Emission.expr) - 1) := by
      intro arg harg
      have hle := Expr.depth_le_depthAll (List.mem_map_of_mem (f := Emission.expr) harg)
      exact (ih arg harg).expression.mono (by omega)
    have hcall := (Spelled.arguments hargs (Spelled.noArguments.mono (Nat.zero_le _))).call name
    rw [String.empty_append] at hcall
    refine .of_primary hcall ?_
    rw [Expr.depth]
    omega
  | unary hop h ih => exact fits_unary _ ih
  | binary hop hleft hright ihl ihr => exact fits_binary ihl ihr _
  | @conditional condition whenTrue whenFalse _ _ _ _ _ _ hcondition htrue hfalse ihc iht ihf =>
    have hpos := condition.depth_pos
    have hpos' := whenTrue.depth_pos
    refine .of_primary (ihc.1.conditional iht.expression ihf.expression) ?_
    rw [Expr.depth]
    omega

theorem ofCode (h : Emitted expr code script) (hdepth : expr.depth ≤ Expr.maxDepth) :
    Script.ofCode code = .ok script := by
  refine h.fits.expression.ofCode ?_
  rw [maxNesting]
  omega

end Code

end Emitted

end Formulary
