import Formulary.Proofs.Facade.Watch
import Mathlib.Logic.Relation

/-!
# What a formula does step by step

`Caches.Step` says all that can happen to what a formula remembers, each time with what the history is told. The
requests that a formula answers, and the changes that it undergoes, are made of such steps: to read the tree takes
reading steps only (`FormulaAccess.tree_outcome`), to read the compiled form also coding ones
(`FormulaAccess.compiled_outcome`).
-/

namespace Formulary

/-- What steps are for. -/
inductive Purpose where
  | reading
  | coding
  | dropping
deriving DecidableEq

namespace Caches

/-- One thing that happens to a formula, which has a history. -/
inductive Step : Purpose → Caches × History → Caches × History → Prop where
  | outdate {caches : Caches} {history : History} (hfresh : caches.outdated = false) :
    Step .reading (caches, history) ({ caches with outdated := true }, history ++ [.outdated])
  | readBlank {caches : Caches} {history : History} (htree : caches.tree = none)
    (hblank : isBlankText caches.source = true) :
    Step .reading (caches, history) ({ caches with tree := some (.ok none) }, history)
  | read {caches : Caches} {history : History} (found : Except FormulaError (Option Expr))
    (htree : caches.tree = none) (hblank : isBlankText caches.source = false) :
    Step .reading (caches, history) ({ caches with tree := some found }, history ++ [.parsing caches.source])
  | renew {caches : Caches} {history : History} (houtdated : caches.outdated = true) :
    Step .coding (caches, history) ({ caches with compiled := none, outdated := false }, history)
  | codeBlank {caches : Caches} {history : History} (htree : caches.tree = some (.ok none))
    (hcompiled : caches.compiled = none) :
    Step .coding (caches, history) ({ caches with compiled := some (.ok none) }, history)
  | codeError {caches : Caches} {history : History} (error : FormulaError)
    (htree : caches.tree = some (.error error)) (hcompiled : caches.compiled = none) :
    Step .coding (caches, history) ({ caches with compiled := some (.error error) }, history)
  /-- The context may announce, while the tree is compiled, that the code is outdated. -/
  | code {caches : Caches} {history : History} (expr : Expr) (found : Except FormulaError (Option Compiled))
    (mark : Bool) (htree : caches.tree = some (.ok (some expr))) (hcompiled : caches.compiled = none)
    (hfresh : caches.outdated = false) :
    Step .coding (caches, history) ({ caches with compiled := some found, outdated := mark },
      history ++ .compiling :: if mark then [.outdated] else [])
  | dropTree {caches : Caches} {history : History} (source : String) :
    Step .dropping (caches, history)
      ({ caches with source := source, tree := none, compiled := none }, history ++ [.treeDropped])
  | dropCode {caches : Caches} {history : History} :
    Step .dropping (caches, history)
      ({ caches with compiled := none, outdated := false }, history ++ [.codeDropped])

/-- Steps for some purposes. -/
def Steps (purposes : List Purpose) : Caches × History → Caches × History → Prop :=
  Relation.ReflTransGen fun before after => ∃ purpose ∈ purposes, Step purpose before after

namespace Steps

variable {purposes purposes' : List Purpose} {before between after : Caches × History}

theorem refl (seen : Caches × History) : Steps purposes seen seen :=
  Relation.ReflTransGen.refl

theorem single {purpose : Purpose} (h : Step purpose before after) (hpurpose : purpose ∈ purposes) :
    Steps purposes before after :=
  Relation.ReflTransGen.single ⟨purpose, hpurpose, h⟩

theorem trans (h : Steps purposes before between) (h' : Steps purposes between after) :
    Steps purposes before after := Relation.ReflTransGen.trans h h'

theorem mono (h : Steps purposes before after) (hle : purposes ⊆ purposes') : Steps purposes' before after :=
  Relation.ReflTransGen.mono (fun _ _ ⟨purpose, hpurpose, hstep⟩ => ⟨purpose, hle hpurpose, hstep⟩) _ _ h

end Steps

/-! ## Outdated code -/

/-- The same, with an outdated compiled form forgotten. -/
def renewed (caches : Caches) : Caches :=
  if caches.outdated then { caches with compiled := none, outdated := false } else caches

theorem renewed_of_fresh {caches : Caches} (hfresh : caches.outdated = false) : caches.renewed = caches := by
  rw [renewed, if_neg (by simp [hfresh])]

theorem outdated_renewed (caches : Caches) : caches.renewed.outdated = false := by
  unfold renewed
  split
  · rfl
  · simpa using ‹¬ caches.outdated = true›

theorem tree_renewed (caches : Caches) : caches.renewed.tree = caches.tree := by
  unfold renewed
  split <;> rfl

theorem steps_renewed (caches : Caches) (history : History) :
    Steps [.coding] (caches, history) (caches.renewed, history) := by
  unfold renewed
  split
  · exact .single (.renew ‹_›) List.mem_cons_self
  · exact .refl _

end Caches

open Caches

namespace Site

variable {σ : Type} (site : Site σ)

/-- What is to be seen of a formula and its history. -/
def view (seen : σ × History) : Caches × History := (site.caches seen.1, seen.2)

/-- The formula stays where it is and takes steps for these purposes only. -/
def Goes (purposes : List Purpose) (seen seen' : σ × History) : Prop :=
  site.Holds seen.1 → site.Holds seen'.1 ∧ Steps purposes (site.view seen) (site.view seen')

instance (purposes : List Purpose) : IsPreorder (σ × History) (site.Goes purposes) where
  refl _ h := ⟨h, .refl _⟩
  trans _ _ _ h h' hseen :=
    have hmiddle := h hseen
    have hlast := h' hmiddle.1
    ⟨hlast.1, hmiddle.2.trans hlast.2⟩

variable {site} {seen seen' : σ × History}

theorem Goes.mono {purposes purposes' : List Purpose} (h : site.Goes purposes seen seen')
    (hle : purposes ⊆ purposes') : site.Goes purposes' seen seen' :=
  fun hseen => ⟨(h hseen).1, (h hseen).2.mono hle⟩

theorem Calm.goes (h : site.Calm seen seen') : site.Goes [.reading] seen seen' := by
  intro hseen
  obtain ⟨hafter, mark, hmark, hhistory⟩ := h hseen
  refine ⟨hafter, ?_⟩
  rw [view, view, hhistory, hmark]
  -- a formula that is outdated already has nothing more to tell
  cases hfresh : (site.caches seen.1).outdated with
  | true =>
    have hsame : (site.caches seen.1).marked mark = site.caches seen.1 := by
      rw [marked, hfresh, Bool.true_or, ← hfresh]
    rw [hsame, news_self, List.append_nil]
    exact .refl _
  | false =>
    rw [news_of_fresh mark hfresh]
    cases mark with
    | false =>
      rw [marked_false, if_neg Bool.false_ne_true, List.append_nil]
      exact .refl _
    | true =>
      rw [marked_of_fresh true hfresh, if_pos rfl]
      exact .single (.outdate hfresh) List.mem_cons_self

end Site

/-! ## Requests -/

namespace FormulaAccess

variable {σ : Type} {access : FormulaAccess (StateM σ)} {site : Site σ} (h : access.Lawful site)

include h

section Update

variable {seen : σ × History}

/-- A change that does not make the formula outdated has no place in the history. -/
theorem run_update (change : Formula → Formula)
    (hchange : ∀ f : Formula, (change f).outdated = true → f.outdated = true) (seen : σ × History)
    (hseen : site.Holds seen.1) : ∃ state,
    ((access.watched site).update change).run seen = ((), state, seen.2) ∧ site.Holds state ∧
      site.formula state = change (site.formula seen.1) := by
  obtain ⟨hholds, hformula⟩ := h.update change _ hseen
  refine ⟨_, ?_, hholds, hformula⟩
  have hnews : (site.caches seen.1).news (site.caches ((access.update change).run seen.1).2) = [] :=
    news_of_outdated fun houtdated => hchange _ (by rwa [← hformula])
  have hrun : ((access.watched site).update change).run seen = ((), ((access.update change).run seen.1).2,
      seen.2 ++ (site.caches seen.1).news (site.caches ((access.update change).run seen.1).2)) := rfl
  rw [hrun, hnews, List.append_nil]

/-- What an action finds is remembered. -/
theorem run_remember {α : Type} {action : StateM (σ × History) α} {found : α} {state : σ} {history : History}
    (haction : action.run seen = (found, state, history)) (hstate : site.Holds state)
    (remember : α → Formula → Formula) (hquiet : ∀ f, (remember found f).outdated = f.outdated) : ∃ state',
    (do let found ← action; (access.watched site).update (remember found); pure found :
      StateM (σ × History) α).run seen = (found, state', history) ∧
    site.Holds state' ∧ site.formula state' = remember found (site.formula state) := by
  obtain ⟨state', hupdate, hstate', hformula⟩ := run_update h (remember found) (fun f hf => hquiet f ▸ hf)
    (state, history) hstate
  refine ⟨state', ?_, hstate', hformula⟩
  rw [StateT.run_bind, haction]
  show ((access.watched site).update (remember found) >>= fun _ => pure found).run (state, history) = _
  rw [StateT.run_bind, hupdate]
  rfl

end Update

variable {seen : σ × History} (hseen : site.Holds seen.1)

include hseen

theorem run_read : (access.watched site).read.run seen = (site.formula seen.1, seen) := by
  have hrun : (access.watched site).read.run seen = ((access.read.run seen.1).1, (access.read.run seen.1).2,
      seen.2 ++ (site.caches seen.1).news (site.caches (access.read.run seen.1).2)) := rfl
  rw [hrun, h.read _ hseen, news_self, List.append_nil]

theorem run_read_bind {α : Type} (next : Formula → StateM (σ × History) α) :
    ((access.watched site).read >>= next).run seen = (next (site.formula seen.1)).run seen := by
  rw [StateT.run_bind, run_read h hseen]
  rfl

/-- A source is read once, if at all. -/
theorem run_readSource (source : String) : ∃ found state,
    ((access.watched site).readSource source).runIn seen =
      (found, state, seen.2 ++ if isBlankText source then [] else [.parsing source]) ∧
    site.Holds state ∧ site.caches state = site.caches seen.1 ∧
    (isBlankText source = true → found = .ok none) := by
  unfold readSource
  cases hblank : isBlankText source with
  | true => exact ⟨.ok none, seen.1, by rw [if_pos rfl, if_pos rfl, List.append_nil]; rfl, hseen, rfl, fun _ => rfl⟩
  | false =>
    rw [if_neg Bool.false_ne_true, if_neg Bool.false_ne_true]
    obtain ⟨hholds, hcaches⟩ := h.parse source seen.1 hseen
    have hparse : ((access.watched site).parse source).runIn seen =
        (((access.parse source).run.run seen.1).1, ((access.parse source).run.run seen.1).2,
          seen.2 ++ [.parsing source]) := by
      have hrun : ((access.watched site).parse source).runIn seen =
          (((access.parse source).run.run seen.1).1, ((access.parse source).run.run seen.1).2,
            (seen.2 ++ [.parsing source]) ++
              (site.caches seen.1).news (site.caches ((access.parse source).run.run seen.1).2)) := rfl
      rw [hrun, hcaches, news_self, List.append_nil]
    cases hresult : ((access.parse source).run.run seen.1).1 with
    | ok expr =>
      rw [hresult] at hparse
      exact ⟨_, _, Answer.runIn_bind_ok hparse, hholds, hcaches, fun hblank => nomatch hblank⟩
    | error error =>
      rw [hresult] at hparse
      exact ⟨_, _, Answer.runIn_bind_error hparse, hholds, hcaches, fun hblank => nomatch hblank⟩

/-- A tree that is there is not read again. -/
theorem run_tree_of_some {found : Except FormulaError (Option Expr)}
    (htree : (site.caches seen.1).tree = some found) : (access.watched site).tree.runIn seen = (found, seen) := by
  have htree : (site.formula seen.1).tree = some found := htree
  rw [tree, Answer.runIn_mk, run_read_bind h hseen, htree]
  rfl

theorem run_tree_of_none (htree : (site.caches seen.1).tree = none) : ∃ found state,
    (access.watched site).tree.runIn seen = (found, state,
      seen.2 ++ if isBlankText (site.caches seen.1).source then [] else [.parsing (site.caches seen.1).source]) ∧
    site.Holds state ∧ site.caches state = { site.caches seen.1 with tree := some found } ∧
    (isBlankText (site.caches seen.1).source = true → found = .ok none) := by
  obtain ⟨found, between, hread, hbetween, hcaches, hblank⟩ := run_readSource h hseen (site.caches seen.1).source
  obtain ⟨state, hrun, hstate, hformula⟩ := run_remember h hread hbetween
    (fun found f => { f with tree := some found }) fun _ => rfl
  have hcaches' : site.caches state = { site.caches seen.1 with tree := some found } := by
    rw [← hcaches, Site.caches, hformula]
    rfl
  refine ⟨found, state, ?_, hstate, hcaches', hblank⟩
  have hnone : (site.formula seen.1).tree = none := htree
  rw [tree, Answer.runIn_mk, run_read_bind h hseen, hnone]
  exact hrun

/-- **The tree.** It is read if it is not there, and then it is there. -/
theorem tree_outcome : ∃ found seen', (access.watched site).tree.runIn seen = (found, seen') ∧
    site.Holds seen'.1 ∧ Steps [.reading] (site.view seen) (site.view seen') ∧
    site.caches seen'.1 = { site.caches seen.1 with tree := some found } := by
  cases htree : (site.caches seen.1).tree with
  | some found =>
    refine ⟨found, seen, run_tree_of_some h hseen htree, hseen, .refl _, ?_⟩
    rw [← htree]
  | none =>
    obtain ⟨found, state, hrun, hstate, hcaches, hblank⟩ := run_tree_of_none h hseen htree
    refine ⟨found, _, hrun, hstate, ?_, hcaches⟩
    rw [Site.view, Site.view, hcaches]
    cases hsource : isBlankText (site.caches seen.1).source with
    | true =>
      rw [if_pos rfl, List.append_nil, hblank hsource]
      exact .single (.readBlank htree hsource) List.mem_cons_self
    | false =>
      rw [if_neg Bool.false_ne_true]
      exact .single (.read found htree hsource) List.mem_cons_self

/-- The context is found without a change. -/
theorem run_context : ∃ ctx state, ctx.Each (Keeps site.Drifts) ∧
    (access.watched site).context.run seen = (watchedContext site ctx, state, seen.2) ∧
    site.Holds state ∧ site.caches state = site.caches seen.1 := by
  obtain ⟨hholds, hcaches⟩ := h.context seen.1 hseen
  refine ⟨(access.context.run seen.1).1, (access.context.run seen.1).2, h.answers seen.1 hseen, ?_, hholds, hcaches⟩
  have hrun : (access.watched site).context.run seen =
      (watchedContext site (access.context.run seen.1).1, (access.context.run seen.1).2,
        seen.2 ++ (site.caches seen.1).news (site.caches (access.context.run seen.1).2)) := rfl
  rw [hrun, hcaches, news_self, List.append_nil]

/-- A formula without code compiles its tree, if it has one. The history is told of it, and after that only if the
new code is outdated already. -/
theorem run_compile (hcompiled : (site.caches seen.1).compiled = none)
    (hfresh : (site.caches seen.1).outdated = false) : ∃ found between seen',
    (access.watched site).compile.runIn seen = (found, seen') ∧ site.Holds seen'.1 ∧
    Steps [.reading] (site.view seen) between ∧
    Step .coding between ({ site.caches seen'.1 with compiled := some found }, seen'.2) := by
  obtain ⟨tree, middle, htree, hmiddle, hsteps, hcaches⟩ := tree_outcome h hseen
  rw [compile]
  cases tree with
  | error error =>
    refine ⟨.error error, _, middle, Answer.runIn_bind_error htree, hmiddle, hsteps, ?_⟩
    refine .codeError error ?_ ?_
    all_goals rw [hcaches]
    exact hcompiled
  | ok tree =>
    rw [Answer.runIn_bind_ok htree]
    cases tree with
    | none =>
      refine ⟨.ok none, _, middle, rfl, hmiddle, hsteps, ?_⟩
      refine .codeBlank ?_ ?_
      all_goals rw [hcaches]
      exact hcompiled
    | some expr =>
      obtain ⟨ctx, state, hctx, hcontext, hstate, hsame⟩ := run_context h hmiddle
      have hrun : Answer.runIn (do
          let ctx ← ExceptT.lift (access.watched site).context
          some <$> Compiled.ofExpr ctx expr) middle =
          (some <$> Compiled.ofExpr (watchedContext site ctx) expr).runIn (state, middle.2) :=
        Answer.runIn_bind_ok (by rw [Answer.runIn_lift, hcontext])
      -- the formula may hear of a change while its tree is compiled
      obtain ⟨hafter, mark, hmark, hhistory⟩ := ofExpr_watchedContext hctx expr (state, middle.2) hstate
      rw [Answer.runIn_map] at hrun
      have hfresh' : (site.caches middle.1).outdated = false := (congrArg Caches.outdated hcaches).trans hfresh
      refine ⟨_, _, _, hrun, hafter, hsteps, ?_⟩
      rw [hmark, hhistory, hsame, news_of_fresh mark hfresh', marked_of_fresh mark hfresh', List.append_assoc]
      exact .code expr _ mark (congrArg Caches.tree hcaches) ((congrArg Caches.compiled hcaches).trans hcompiled)
        hfresh'

/-- An outdated compiled form is forgotten. -/
theorem run_dropOutdated : ∃ state, (access.watched site).dropOutdated.run seen = ((), state, seen.2) ∧
    site.Holds state ∧ site.caches state = (site.caches seen.1).renewed := by
  obtain ⟨state, hrun, hstate, hformula⟩ := run_update h
    (fun f => if f.outdated then { f with compiled := none, outdated := false } else f) (fun f hf => by
      split at hf
      · exact nomatch hf
      · exact hf) seen hseen
  refine ⟨state, hrun, hstate, ?_⟩
  rw [Site.caches, hformula, apply_ite Formula.caches]
  rfl

/-- One that is left is what is found, and else what is found by compilation is remembered. -/
theorem run_compiled : ∃ state, site.Holds state ∧ site.caches state = (site.caches seen.1).renewed ∧
    (∀ found, (site.caches state).compiled = some found →
      (access.watched site).compiled.runIn seen = (found, state, seen.2)) ∧
    ((site.caches state).compiled = none → ∀ found seen',
      (access.watched site).compile.runIn (state, seen.2) = (found, seen') → site.Holds seen'.1 →
      ∃ state', (access.watched site).compiled.runIn seen = (found, state', seen'.2) ∧ site.Holds state' ∧
        site.caches state' = { site.caches seen'.1 with compiled := some found }) := by
  obtain ⟨state, hdrop, hstate, hrenewed⟩ := run_dropOutdated h hseen
  have hdropped {α : Type} (next : StateM (σ × History) α) :
      ((access.watched site).dropOutdated >>= fun _ => next).run seen = next.run (state, seen.2) := by
    rw [StateT.run_bind, hdrop]
    rfl
  refine ⟨state, hstate, hrenewed, fun found hfound => ?_, fun hnone found seen' hrun hseen' => ?_⟩
  all_goals rw [compiled, Answer.runIn_mk, hdropped, run_read_bind h hstate]
  · rw [show (site.formula state).compiled = some found from hfound]
    rfl
  · rw [show (site.formula state).compiled = none from hnone]
    obtain ⟨state', hremember, hstate', hformula⟩ := run_remember h hrun hseen'
      (fun found f => { f with compiled := some found }) fun _ => rfl
    refine ⟨state', hremember, hstate', ?_⟩
    rw [Site.caches, hformula]
    rfl

/-- **The compiled form.** One that is outdated is forgotten first. Then the form is kept if it is there; else the
tree is compiled, and then it is there. -/
theorem compiled_outcome : ∃ found seen', (access.watched site).compiled.runIn seen = (found, seen') ∧
    site.Holds seen'.1 ∧ Steps [.reading, .coding] ((site.caches seen.1).renewed, seen.2) (site.view seen') ∧
    (site.caches seen'.1).compiled = some found ∧
    ∀ kept, (site.caches seen.1).renewed.compiled = some kept → found = kept ∧ seen'.2 = seen.2 := by
  obtain ⟨state, hstate, hrenewed, hsome, hnone⟩ := run_compiled h hseen
  rw [← hrenewed]
  cases hcompiled : (site.caches state).compiled with
  | some found =>
    refine ⟨found, _, hsome found hcompiled, hstate, .refl _, hcompiled, fun kept hkept => ⟨?_, rfl⟩⟩
    exact Option.some.inj hkept
  | none =>
    have hfresh : (site.caches state).outdated = false := hrenewed ▸ outdated_renewed _
    obtain ⟨found, between, seen', hrun, hseen', hsteps, hcode⟩ :=
      @run_compile σ access site h (state, seen.2) hstate hcompiled hfresh
    obtain ⟨state', hrun', hstate', hcaches⟩ := hnone hcompiled found seen' hrun hseen'
    refine ⟨found, (state', seen'.2), hrun', hstate', ?_, congrArg Caches.compiled hcaches, ?_⟩
    · have hlast : Step .coding between (site.view (state', seen'.2)) := by
        rw [Site.view, hcaches]
        exact hcode
      exact (hsteps.mono (by simp)).trans (.single hlast (by simp))
    · intro kept hkept
      cases hkept

end FormulaAccess

end Formulary
