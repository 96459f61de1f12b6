import Formulary.Expr.References
import Formulary.Proofs.Sheet.Alone
import Formulary.Proofs.Source.Reading
import Formulary.Workspace.Basic

/-!
# What a source comes to

The tree of a source, and what the tree compiles and evaluates to in a sheet, all found afresh. A tree that has
been read compiles (`exists_compileSource`), and its compiled form runs as the tree is walked (`call_eq_outcome`).
-/

namespace Formulary

/-- Every token takes a character. -/
theorem Lexemes.Cut.length_le {chars : List Char} {tokens : List Token} (h : Cut chars tokens) :
    tokens.length ≤ chars.length := by
  induction h with
  | nil => exact Nat.le_refl 0
  | blank hblank hrest ih => exact Nat.le_succ_of_le ih
  | token hspelling hlongest hrest ih =>
    obtain ⟨c, rest, rfl, -⟩ := hspelling.scan_self
    simp only [List.length_cons, List.length_append]
    omega

namespace Formula

/-- The tree of a source, none if it is blank. -/
def parse (source : String) : Except FormulaError (Option Expr) :=
  if isBlankText source then .ok none
  else match Expr.ofText? source with
    | .ok expr => .ok (some expr)
    | .error error => .error error.toFormulaError

/-- What is read can be walked, and is no larger than the text. -/
theorem parse_sound {source : String} {expr : Expr} (h : parse source = .ok (some expr)) :
    expr.Recognized ∧ expr.depth ≤ Expr.maxDepth ∧ expr.size ≤ source.length := by
  have hread : Expr.ofText? source = .ok expr := by
    unfold parse at h
    split at h
    · exact nomatch h
    · split at h
      · next heq =>
        obtain rfl := Option.some.inj (Except.ok.inj h)
        exact heq
      · exact nomatch h
  obtain ⟨d, hcut, -, rfl, -, hdepth⟩ := Parser.derivation_of_ofText? hread
  refine ⟨d.meansRecognized, hdepth, Nat.le_trans d.meantSize_le ?_⟩
  rw [← String.length_toList]
  exact hcut.length_le

/-- The names that a source refers to. -/
def refersTo (source : String) : Except FormulaError References :=
  (parse source).map fun
    | none => .empty
    | some expr => .ofExpr expr

end Formula

namespace Sheet

/-- The compiled form of a source in a sheet. -/
def compileSource (sheet : Sheet) (source : String) : Except FormulaError (Option Compiled) :=
  match Formula.parse source with
  | .ok none => .ok none
  | .ok (some expr) => (sheet.compile expr).map some
  | .error error => .error error

/-- Whether a source calls an aggregate function of a sheet; one that does not compile calls none. -/
def aggregatesInSource (sheet : Sheet) (source : String) : Bool :=
  match sheet.compileSource source with
  | .ok (some form) => form.hasAggregates
  | .ok none | .error _ => false

/-- The value of a source in a sheet, no data if it is blank. -/
def valueOfSource (sheet : Sheet) (bindings : Bindings) (source : String) : Except FormulaError Value :=
  match Formula.parse source with
  | .ok none => .ok .empty
  | .ok (some expr) => (sheet.outcome bindings expr).1
  | .error error => .error error

/-- What is announced while a source is evaluated in a sheet. -/
def noticesOfSource (sheet : Sheet) (bindings : Bindings) (source : String) : List Notice :=
  match Formula.parse source with
  | .ok (some expr) => (sheet.outcome bindings expr).2.2
  | .ok none | .error _ => []

/-- The variables that are left when a source has been evaluated in a sheet. -/
def leftBySource (sheet : Sheet) (bindings : Bindings) (source : String) : Dictionary Value :=
  match Formula.parse source with
  | .ok (some expr) => (sheet.outcome bindings expr).2.1.variables
  | .ok none | .error _ => sheet.variables

/-- A tree that may be walked compiles, and has a code that `Emitted` allows. -/
theorem exists_compile (sheet : Sheet) {expr : Expr} (hrecognized : expr.Recognized)
    (hdepth : expr.depth ≤ Expr.maxDepth) (hsize : expr.size ≤ 2 ^ 64) :
    ∃ form, sheet.compile expr = .ok form ∧ Emitted expr form.code form.script := by
  have hplain := plainFragments_sheet SheetAccess.reaches_own (Sheet.context .own).lookup
    (Sheet.context .own).lookupScoped (Sheet.context .own).call
  rcases ofExpr_outcome hplain hsize sheet with ⟨form, state, hform, -, -, hemitted⟩ | ⟨-, -, -, hunfit⟩
  · exact ⟨form, congrArg Prod.fst hform, hemitted⟩
  · exact absurd ⟨hdepth, hrecognized⟩ hunfit

/-- A source with a tree compiles, as its tree is one that may be walked. -/
theorem exists_compileSource (sheet : Sheet) {source : String} {expr : Expr}
    (hparse : Formula.parse source = .ok (some expr)) (hlength : source.length ≤ 2 ^ 64) :
    ∃ form, sheet.compileSource source = .ok (some form) ∧ expr.depth ≤ Expr.maxDepth ∧
      Emitted expr form.code form.script := by
  obtain ⟨hrecognized, hdepth, hsize⟩ := Formula.parse_sound hparse
  obtain ⟨form, hform, hemitted⟩ := sheet.exists_compile hrecognized hdepth (Nat.le_trans hsize hlength)
  refine ⟨form, ?_, hdepth, hemitted⟩
  rw [compileSource, hparse]
  exact congrArg (Except.map some) hform

/-- The compiled form runs as the tree is walked. -/
theorem call_eq_outcome (sheet : Sheet) (bindings : Bindings) {expr : Expr} {form : Compiled}
    (hemitted : Emitted expr form.code form.script) (hdepth : expr.depth ≤ Expr.maxDepth) :
    (form.call (Sheet.context .heard) bindings).runIn (sheet, []) = sheet.outcome bindings expr := by
  rw [Compiled.call, hemitted.run_eq_walk (fun _ _ _ => rfl) hdepth]
  rfl

end Sheet

end Formulary
