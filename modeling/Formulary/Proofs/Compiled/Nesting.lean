import Formulary.Proofs.Compiled.Refinement
import Formulary.Proofs.Script.Nesting

/-!
# How deep generated code nests

The code of a tree spells an expression that nests twice as deep as the tree at most (`Emitted.fits`), whatever the
depth of the tree. Its nesting is the number of levels that are in use when it is read, so that the limit for codes,
which is more than twice that for trees, never stops the code of a tree that is within its own limit
(`generated_code_within_levels`).
-/

namespace Formulary

namespace Script

/-- A code that spells an expression is read within any limit that leaves it its levels. -/
theorem Spelled.exists_usesLevels {code : String} {script : Script} {nesting : Nat}
    (h : Spelled .expression code script nesting) :
    ∃ found levels, lexemes code = .ok found ∧ UsesLevels found levels ∧ levels ≤ nesting ∧
      ∀ limit, nesting ≤ limit → ofLexemes limit found = .ok script := by
  obtain ⟨⟨d, hlexes, rfl, hd⟩, -⟩ := h
  obtain ⟨found, hfound, htokens⟩ := hlexes.spells.cutFrom 0
  exact ⟨found, d.nesting, hfound, usesLevels_derivation htokens, hd,
    fun limit hlimit => ofLexemes_derivation (hd.trans hlimit) htokens⟩

end Script

variable {σ : Type}

/-- Within the depth limit a compilation gives the code that is emitted. -/
theorem runIn_toCode_fst {ctx : Context (StateM σ)} {expr : Expr} (hdepth : expr.depth ≤ Expr.maxDepth) (state : σ) :
    ((expr.toCode ctx).runIn state).1 = ((expr.emit ctx).runIn (ctx.beginCompile.run state).2).1 := by
  rw [runIn_compilation, Expr.levels_eq_depth, if_neg (Nat.not_lt.2 hdepth)]

/-- **Levels.** The code that is emitted for a tree of known operators uses two levels of nesting for each level of the
tree at most, however deep the tree is. So the code of a tree within the depth limit is not too deep for the limit of
codes, and it is read. The bound on the size, which no tree in memory exceeds, is that of the counter of aggregate
indices. -/
theorem generated_code_within_levels {ctx : Context (StateM σ)} (hctx : ctx.CompilesPlainly) {expr : Expr}
    (hrecognized : expr.Recognized) (hsize : expr.size ≤ 2 ^ 64) (state : σ) :
    ∃ code script found levels,
      ((expr.emit ctx).runIn (ctx.beginCompile.run state).2).1 = .ok code ∧
      Script.lexemes code = .ok found ∧ Script.UsesLevels found levels ∧ levels ≤ 2 * expr.depth ∧
      (∀ limit, 2 * expr.depth ≤ limit → Script.ofLexemes limit found = .ok script) ∧
      (expr.depth ≤ Expr.maxDepth →
        ((expr.toCode ctx).runIn state).1 = .ok code ∧ Script.ofCode code = .ok script) := by
  obtain ⟨Bounded, hplain⟩ := hctx.plainFragments
  rcases hasCode hplain expr 0 _ (hplain.beginCompile state) (by omega) with
    ⟨code, script, state', hcode, -, hemitted, -⟩ | ⟨fault, state', -, hunknown⟩
  · -- the code of a tree in itself leaves one level of the two for what it stands in
    have hspelled := hemitted.fits.expression.mono (Nat.sub_le (2 * expr.depth) 1)
    obtain ⟨found, levels, hfound, huses, hlevels, hread⟩ := hspelled.exists_usesLevels
    refine ⟨code, script, found, levels, congrArg Prod.fst hcode, hfound, huses, hlevels, hread, fun hdepth => ?_⟩
    exact ⟨by rw [runIn_toCode_fst hdepth, hcode], hemitted.ofCode hdepth⟩
  · exact absurd hrecognized hunknown

/-- A negated equality as the condition in an argument of an aggregate call, in the standard sheet. -/
theorem generated_code_within_levels_negation :
    let expr : Expr := .call "sum" [.conditional (.unary "!" (.binary "==" (.variable "x") (.number (.ofNat 2))))
      (.variable "x") (.text "y")]
    let ctx := Sheet.context SheetAccess.own
    ∃ code script found levels,
      ((expr.emit ctx).runIn (ctx.beginCompile.run Sheet.standard).2).1 = .ok code ∧
      Script.lexemes code = .ok found ∧ Script.UsesLevels found levels ∧ levels ≤ 10 ∧
      (∀ limit, 10 ≤ limit → Script.ofLexemes limit found = .ok script) ∧
      ((expr.toCode ctx).runIn Sheet.standard).1 = .ok code ∧ Script.ofCode code = .ok script := by
  intro expr ctx
  have hctx : ctx.CompilesPlainly :=
    .sheet SheetAccess.reaches_own ctx.lookup ctx.lookupScoped ctx.call
  have hrecognized : expr.Recognized := ⟨⟨⟨rfl, rfl, trivial, trivial⟩, trivial, trivial⟩, trivial⟩
  have hsize : expr.size ≤ 2 ^ 64 := by decide
  have hdepth : expr.depth = 5 := by decide
  obtain ⟨code, script, found, levels, hcode, hfound, huses, hlevels, hread, hwithin⟩ :=
    generated_code_within_levels hctx hrecognized hsize Sheet.standard
  rw [hdepth] at hlevels hread
  exact ⟨code, script, found, levels, hcode, hfound, huses, hlevels, hread, hwithin (by rw [hdepth]; decide)⟩

end Formulary
