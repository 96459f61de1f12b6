import Formulary.Proofs.Compiled.Congruence
import Formulary.Proofs.Facade.Access
import Formulary.Proofs.Keeping

/-!
# Watching a formula

`FormulaAccess.watched` is an access beside a history of what happens to a formula: when its parser is called and
when a compilation begins, when its code becomes outdated and when something is dropped. The parser and the context
may be any that leave the formula alone, except that the context may announce what outdates its code
(`FormulaAccess.Lawful`). Then each use of them is calm (`Site.Calm`): nothing is remembered or forgotten, and the
history tells if the code has become outdated.
-/

namespace Formulary

/-- What a formula remembers. -/
structure Caches where
  source : String
  tree : Option (Except FormulaError (Option Expr))
  compiled : Option (Except FormulaError (Option Compiled))
  outdated : Bool

def Formula.caches (f : Formula) : Caches := ⟨f.source, f.tree, f.compiled, f.outdated⟩

/-- Work that is done for a formula, or what makes work necessary again. -/
inductive Happening where
  | parsing (source : String)
  | compiling
  /-- The formula has heard that its code is outdated. -/
  | outdated
  | treeDropped
  | codeDropped
deriving DecidableEq

abbrev History := List Happening

namespace Caches

/-- The same, and outdated if so marked. -/
def marked (caches : Caches) (mark : Bool) : Caches := { caches with outdated := caches.outdated || mark }

/-- What there is to tell when code becomes outdated that was not. -/
def news (before after : Caches) : History :=
  if before.outdated = false ∧ after.outdated = true then [.outdated] else []

variable (caches : Caches) (mark mark' : Bool)

theorem marked_false : caches.marked false = caches := by
  rw [marked, Bool.or_false]

theorem marked_marked : (caches.marked mark).marked mark' = caches.marked (mark || mark') := by
  rw [marked, marked, marked, Bool.or_assoc]

theorem news_of_outdated {before after : Caches} (h : after.outdated = true → before.outdated = true) :
    before.news after = [] := by
  rw [news, if_neg]
  rintro ⟨hbefore, hafter⟩
  rw [h hafter] at hbefore
  exact Bool.false_ne_true hbefore.symm

theorem news_self : caches.news caches = [] := news_of_outdated id

variable {caches} in
theorem marked_of_fresh (hfresh : caches.outdated = false) : caches.marked mark = { caches with outdated := mark } := by
  rw [marked, hfresh, Bool.false_or]

variable {caches} in
theorem news_of_fresh (hfresh : caches.outdated = false) :
    caches.news (caches.marked mark) = if mark then [.outdated] else [] := by
  rw [news, marked_of_fresh mark hfresh]
  simp [hfresh]

theorem news_marked : caches.news (caches.marked mark) ++ (caches.marked mark).news (caches.marked (mark || mark')) =
    caches.news (caches.marked (mark || mark')) := by
  rcases h : caches.outdated <;> cases mark <;> cases mark' <;> simp [news, marked, h]

end Caches

/-- Where a formula is found in the states that have it. -/
structure Site (σ : Type) where
  formula : σ → Formula
  Holds : σ → Prop

namespace Site

variable {σ : Type} (site : Site σ)

def caches (state : σ) : Caches := (site.formula state).caches

/-- The formula remembers the same. -/
def Rests (state state' : σ) : Prop := site.Holds state → site.Holds state' ∧ site.caches state' = site.caches state

/-- The formula remembers the same but for becoming outdated. -/
def Drifts (state state' : σ) : Prop :=
  site.Holds state → site.Holds state' ∧ ∃ mark, site.caches state' = (site.caches state).marked mark

/-- The same beside a history, which has gone on if the formula has become outdated. -/
def Calm (seen seen' : σ × History) : Prop :=
  site.Holds seen.1 → site.Holds seen'.1 ∧ ∃ mark, site.caches seen'.1 = (site.caches seen.1).marked mark ∧
    seen'.2 = seen.2 ++ (site.caches seen.1).news ((site.caches seen.1).marked mark)

theorem Rests.drifts {state state' : σ} (h : site.Rests state state') : site.Drifts state state' := fun hstate =>
  ⟨(h hstate).1, false, (h hstate).2.trans (Caches.marked_false _).symm⟩

instance : IsPreorder σ site.Rests where
  refl _ h := ⟨h, rfl⟩
  trans _ _ _ h h' hstate :=
    have hmiddle := h hstate
    have hlast := h' hmiddle.1
    ⟨hlast.1, hlast.2.trans hmiddle.2⟩

instance : IsPreorder σ site.Drifts where
  refl _ h := ⟨h, false, (Caches.marked_false _).symm⟩
  trans _ _ _ h h' hstate := by
    obtain ⟨hmiddle, mark, hmark⟩ := h hstate
    obtain ⟨hlast, mark', hmark'⟩ := h' hmiddle
    exact ⟨hlast, mark || mark', by rw [hmark', hmark, Caches.marked_marked]⟩

instance : IsPreorder (σ × History) site.Calm where
  refl _ h := ⟨h, false, (Caches.marked_false _).symm, by
    rw [Caches.marked_false, Caches.news_self, List.append_nil]⟩
  trans _ _ _ h h' hstate := by
    obtain ⟨hmiddle, mark, hmark, hhistory⟩ := h hstate
    obtain ⟨hlast, mark', hmark', hhistory'⟩ := h' hmiddle
    refine ⟨hlast, mark || mark', by rw [hmark', hmark, Caches.marked_marked], ?_⟩
    rw [hhistory', hhistory, hmark, Caches.marked_marked, List.append_assoc, Caches.news_marked]

/-- An action after which the history tells if the formula has become outdated. -/
def watch {α : Type} (action : StateM σ α) : StateM (σ × History) α := fun (state, history) =>
  let (value, state') := action.run state
  (value, state', history ++ (site.caches state).news (site.caches state'))

/-- Something is put in the history. -/
def note (happening : Happening) : StateM (σ × History) Unit :=
  modify fun (state, history) => (state, history ++ [happening])

theorem watch_calm {α : Type} {action : StateM σ α} (h : Keeps site.Drifts action) :
    Keeps site.Calm (site.watch action) := by
  rintro ⟨state, history⟩ hstate
  obtain ⟨hafter, mark, hmark⟩ := h state hstate
  refine ⟨hafter, mark, hmark, ?_⟩
  show history ++ (site.caches state).news (site.caches (action.run state).2) = _
  rw [hmark]

end Site

namespace FormulaAccess

variable {σ : Type}

/-- The formula is reached where it is; to read a source leaves it alone, and so does it to find the context; and
no answer of the context does more to it than to announce what outdates its code. A parser that made the code
outdated while it reads the source would have the tree compiled now and, as outdated, once more. -/
structure Lawful (access : FormulaAccess (StateM σ)) (site : Site σ) : Prop where
  read : ∀ state, site.Holds state → access.read.run state = (site.formula state, state)
  update : ∀ change state, site.Holds state → site.Holds ((access.update change).run state).2 ∧
    site.formula ((access.update change).run state).2 = change (site.formula state)
  parse : ∀ source, Keeps site.Rests (access.parse source).run
  context : Keeps site.Rests access.context
  answers : ∀ state, site.Holds state → (access.context.run state).1.Each (Keeps site.Drifts)

variable (access : FormulaAccess (StateM σ)) (site : Site σ)

/-- The context with its answers watched and each begin of a compilation in the history. -/
def watchedContext (ctx : Context (StateM σ)) : Context (StateM (σ × History)) :=
  { ctx.carried site.watch with
    beginCompile := do
      Site.note .compiling
      site.watch ctx.beginCompile }

/-- The access beside a history, to which each call of the parser is put. -/
def watched : FormulaAccess (StateM (σ × History)) where
  read := site.watch access.read
  update change := site.watch (access.update change)
  parse source := ExceptT.mk do
    Site.note (.parsing source)
    site.watch (access.parse source).run
  context := do
    let ctx ← site.watch access.context
    pure (watchedContext site ctx)

end FormulaAccess

section Context

variable {σ : Type} {site : Site σ} {ctx : Context (StateM σ)} (h : ctx.Each (Keeps site.Drifts))

include h

theorem carried_watch_calm : (ctx.carried site.watch).Each (Keeps site.Calm) :=
  h.carried fun _ haction => site.watch_calm haction

/-- Evaluation is calm. -/
theorem watchedContext_calm : (FormulaAccess.watchedContext site ctx).EachValue (Keeps site.Calm) :=
  have hcarried := carried_watch_calm h
  ⟨hcarried.lookup, hcarried.lookupScoped, hcarried.call⟩

/-- When a tree is compiled, the history is told that the compilation begins, and all else is calm. -/
theorem ofExpr_watchedContext (expr : Expr) (seen : σ × History) : site.Calm (seen.1, seen.2 ++ [.compiling])
    ((Compiled.ofExpr (FormulaAccess.watchedContext site ctx) expr).runIn seen).2 := by
  have hagrees : (FormulaAccess.watchedContext site ctx).AgreesOn (References.ofExpr expr) .empty
      (ctx.carried site.watch) .empty :=
    ⟨fun _ _ => rfl, fun _ _ _ => rfl, fun _ _ => rfl, fun _ _ => rfl, fun _ _ => rfl, fun _ _ => rfl,
      fun _ _ _ => rfl, fun _ _ => rfl, rfl⟩
  have hemit := Expr.emit_congr hagrees (References.covers_ofExpr expr)
  have hcompile : Compiled.ofExpr (FormulaAccess.watchedContext site ctx) expr =
      (do ExceptT.lift (Site.note .compiling); Compiled.ofExpr (ctx.carried site.watch) expr :
        Answer (StateM (σ × History)) Compiled) := by
    rw [Compiled.ofExpr, Compiled.ofExpr, Expr.toCode, Expr.toCode, hemit]
    rfl
  rw [hcompile]
  exact (carried_watch_calm h).ofExpr expr _

end Context

end Formulary
