import Formulary.Proofs.Compiled.Refinement
import Mathlib.Data.List.Basic
import Mathlib.Data.List.Induction

/-!
# Aggregate scopes in any order of calls

A context has no say in what it is called for: frames may end under a wrong name or without having begun, and
compilations may begin inside one another. `CompileCall` is one of the calls that a compilation makes of its
context, and a list of them is any order whatever.

1. To a sheet each call is a step of its scope (`CompileCall.sheet_make`), and so are many (`sheet_stateAfter`).
2. `Scope.Counted` is what every step preserves: the open indices count up and stay below the next one.
3. The indices that a call opens are new (`Scope.opened_eq`), and a scope remembers the aggregate calls since
   its compilation began (`Scope.pending_afterAll`).
-/

namespace Formulary

/-- A call for the sake of a compilation. -/
inductive CompileCall where
  | beginCompile
  | endCompile
  | settleCompile
  | beginFrame (frame : Frame)
  | endFrame (name : String)
  | variableCode (name : String) (indices : List Nat)
  | callCode (name : String) (codes : List String) (indices : List Nat)
deriving DecidableEq

namespace CompileCall

variable {m : Type → Type} [Monad m]

/-- Makes the call, whose answer is not looked at. -/
def make (ctx : Context m) : CompileCall → m Unit
  | beginCompile => ctx.beginCompile
  | endCompile => ctx.endCompile
  | settleCompile => ctx.settleCompile
  | beginFrame frame => ctx.beginFrame frame
  | endFrame name => ctx.endFrame name
  | variableCode name indices => do
    let _ ← (ctx.variableCode name indices).run
    pure ()
  | callCode name codes indices => do
    let _ ← (ctx.callCode name codes indices).run
    pure ()

/-- The argument of an aggregate call begins. -/
def opensAggregate : CompileCall → Bool
  | beginFrame frame => frame.aggregate
  | _ => false

/-- The calls since the last begin of a compilation or, if none has begun, all of them; the latest comes first. -/
def sinceBegin (calls : List CompileCall) : List CompileCall :=
  calls.reverse.takeWhile (· ≠ beginCompile)

theorem sinceBegin_concat (calls : List CompileCall) (call : CompileCall) :
    sinceBegin (calls ++ [call]) = if call = beginCompile then [] else call :: sinceBegin calls := by
  rw [sinceBegin, List.reverse_append, List.reverse_singleton, List.singleton_append, List.takeWhile_cons]
  split <;> simp_all [sinceBegin]

section

variable {σ : Type} (ctx : Context (StateM σ))

/-- The state in which the calls leave a context. -/
def stateAfter (calls : List CompileCall) (state : σ) : σ := ((calls.forM (·.make ctx)).run state).2

theorem stateAfter_cons (call : CompileCall) (calls : List CompileCall) (state : σ) :
    stateAfter ctx (call :: calls) state = stateAfter ctx calls ((call.make ctx).run state).2 := rfl

/-- The indices that are open after a call and were not so before. -/
def opened (call : CompileCall) (state : σ) : List Nat :=
  (ctx.openIndices.run ((call.make ctx).run state).2).1.diff (ctx.openIndices.run state).1

/-- All the indices that one call after the other opens. -/
def handedOut : List CompileCall → σ → List Nat
  | [], _ => []
  | call :: rest, state => opened ctx call state ++ handedOut rest ((call.make ctx).run state).2

end

end CompileCall

/-! ## Steps of a scope -/

namespace Scope

/-- What a call does to a scope, given which functions are aggregate ones. -/
def after (aggregates : String → Bool) (scope : Scope) : CompileCall → Scope
  | .beginCompile => scope.begin
  | .endCompile => scope.closeAll
  | .settleCompile => scope.complete
  | .beginFrame frame => scope.openFrame frame.aggregate
  | .endFrame _ => scope.closeFrame
  | .variableCode _ _ => scope
  | .callCode name _ _ => scope.noteCall (aggregates name)

def afterAll (aggregates : String → Bool) (calls : List CompileCall) (scope : Scope) : Scope :=
  calls.foldl (after aggregates) scope

variable (aggregates : String → Bool)

theorem indices_openFrame (scope : Scope) (aggregate : Bool) :
    (scope.openFrame aggregate).indices =
      scope.indices ++ if aggregate then [scope.nextIndex] else [] := by
  cases aggregate <;> simp [openFrame, indices]

theorem nextIndex_openFrame (scope : Scope) (aggregate : Bool) :
    (scope.openFrame aggregate).nextIndex = scope.nextIndex + aggregate.toNat := by
  cases aggregate <;> rfl

theorem indices_closeFrame (scope : Scope) : scope.closeFrame.indices <+: scope.indices := by
  rw [indices, indices, List.reverse_prefix]
  exact (List.tail_suffix scope.frames).filterMap id

/-- The open indices count up from the outside in, and the next one has not been given. -/
structure Counted (scope : Scope) : Prop where
  increasing : scope.indices.Pairwise (· < ·)
  lt_nextIndex : ∀ i ∈ scope.indices, i < scope.nextIndex

theorem counted_initial : initial.Counted := ⟨List.Pairwise.nil, fun _ h => nomatch h⟩

/-- **Step.** -/
theorem Counted.after {scope : Scope} (h : scope.Counted) (call : CompileCall) :
    (scope.after aggregates call).Counted := by
  cases call with
  | beginCompile | endCompile => exact ⟨List.Pairwise.nil, fun _ hi => nomatch hi⟩
  | settleCompile => exact ⟨h.increasing, h.lt_nextIndex⟩
  | variableCode name indices => exact h
  | callCode name codes indices => exact ⟨h.increasing, h.lt_nextIndex⟩
  | endFrame name =>
    have hinner := scope.indices_closeFrame
    exact ⟨h.increasing.sublist hinner.sublist, fun i hi => h.lt_nextIndex i (hinner.subset hi)⟩
  | beginFrame frame =>
    rw [Scope.after]
    refine ⟨?_, ?_⟩
    · rw [indices_openFrame, List.pairwise_append]
      refine ⟨h.increasing, by split <;> simp, fun i hi j hj => ?_⟩
      have hj : j = scope.nextIndex := by
        split at hj
        · exact List.mem_singleton.1 hj
        · exact nomatch hj
      exact hj ▸ h.lt_nextIndex i hi
    · intro i hi
      rw [indices_openFrame, List.mem_append] at hi
      rw [nextIndex_openFrame]
      rcases hi with hi | hi
      · exact Nat.lt_add_right _ (h.lt_nextIndex i hi)
      · cases hframe : frame.aggregate with
        | false => rw [hframe] at hi; exact nomatch hi
        | true =>
          rw [hframe] at hi
          rw [List.mem_singleton.1 hi]
          exact Nat.lt_succ_self _

/-- **Run.** -/
theorem Counted.afterAll {scope : Scope} (h : scope.Counted) (calls : List CompileCall) :
    (scope.afterAll aggregates calls).Counted := by
  induction calls generalizing scope with
  | nil => exact h
  | cons call calls ih => exact ih (h.after aggregates call)

theorem diff_of_isPrefix {xs ys : List Nat} (h : xs <+: ys) : xs.diff ys = [] := by
  obtain ⟨rest, rfl⟩ := h
  have hself : xs.diff xs = [] := by
    induction xs with
    | nil => rfl
    | cons x xs ih => simpa [List.diff] using ih
  rw [List.diff_append, hself, List.nil_diff]

theorem append_diff (xs ys : List Nat) : (xs ++ ys).diff xs = ys := by
  induction xs with
  | nil => rfl
  | cons x xs ih => simpa [List.diff] using ih

/-- Only an aggregate call opens an index, and it is the next one. -/
theorem opened_eq (scope : Scope) (call : CompileCall) :
    (scope.after aggregates call).indices.diff scope.indices =
      if call.opensAggregate then [scope.nextIndex] else [] := by
  cases call with
  | beginCompile | endCompile => exact List.nil_diff _
  | settleCompile | variableCode | callCode => exact diff_of_isPrefix List.prefix_rfl
  | endFrame name => exact diff_of_isPrefix scope.indices_closeFrame
  | beginFrame frame =>
    rw [after, indices_openFrame, append_diff]
    rfl

/-- The next index is kept until a compilation begins. -/
theorem nextIndex_after (scope : Scope) {call : CompileCall} (hcall : call ≠ .beginCompile) :
    (scope.after aggregates call).nextIndex = scope.nextIndex + call.opensAggregate.toNat := by
  cases call with
  | beginCompile => exact absurd rfl hcall
  | beginFrame frame => exact scope.nextIndex_openFrame frame.aggregate
  | _ => rfl

/-- The last compilation's flag is not touched until a compilation is settled. -/
theorem hasAggregates_after (scope : Scope) {call : CompileCall} (hcall : call ≠ .settleCompile) :
    (scope.after aggregates call).hasAggregates = scope.hasAggregates := by
  cases call with
  | settleCompile => exact absurd rfl hcall
  | beginFrame frame =>
    rw [after, openFrame]
    split <;> rfl
  | _ => rfl

theorem pending_after (scope : Scope) (call : CompileCall) :
    (scope.after aggregates call).pending = true ↔
      (call ≠ .beginCompile ∧ scope.pending = true) ∨
        ∃ name codes indices, call = .callCode name codes indices ∧ aggregates name = true := by
  cases call with
  | beginFrame frame =>
    rw [after, openFrame]
    split <;> simp
  | _ => simp [after, begin, closeAll, complete, closeFrame, noteCall]

/-- An aggregate call is pending if one was compiled since the compilation began. -/
theorem pending_afterAll (calls : List CompileCall) :
    (initial.afterAll aggregates calls).pending = true ↔
      ∃ name codes indices, .callCode name codes indices ∈ CompileCall.sinceBegin calls ∧
        aggregates name = true := by
  induction calls using List.reverseRecOn with
  | nil => simp [afterAll, initial, CompileCall.sinceBegin]
  | append_singleton calls call ih =>
    rw [afterAll, List.foldl_append, List.foldl_cons, List.foldl_nil, pending_after, ← afterAll, ih,
      CompileCall.sinceBegin_concat]
    by_cases hbegin : call = .beginCompile
    · simp [hbegin]
    · simp only [hbegin, ne_eq, not_false_iff, true_and, if_false, List.mem_cons]
      grind

end Scope

/-! ## Sheets -/

namespace CompileCall

section

variable {σ : Type} {access : SheetAccess (StateM σ)} {sheetOf : σ → Sheet} (haccess : access.Reaches sheetOf)

include haccess

/-- **Step.** A call does to a sheet what it does to its scope. -/
theorem sheet_make (call : CompileCall) (state : σ) :
    sheetOf ((call.make (Sheet.context access)).run state).2 =
      { sheetOf state with scope := (sheetOf state).scope.after (sheetOf state).isAggregate call } := by
  cases call with
  | variableCode name indices => rfl
  | callCode name codes indices =>
    have hmake : ((callCode name codes indices).make (Sheet.context access)).run state =
        ((access.read >>= fun sheet => access.updateScope (·.noteCall (sheet.isAggregate name))).run state) :=
      rfl
    rw [hmake, haccess.read_bind]
    exact haccess.update _ state
  | beginCompile | endCompile | settleCompile | beginFrame | endFrame => exact haccess.update _ state

/-- **Run.** -/
theorem sheet_stateAfter (calls : List CompileCall) (state : σ) :
    sheetOf (stateAfter (Sheet.context access) calls state) =
      { sheetOf state with scope := (sheetOf state).scope.afterAll (sheetOf state).isAggregate calls } := by
  induction calls generalizing state with
  | nil => rfl
  | cons call calls ih =>
    rw [stateAfter_cons, ih, sheet_make haccess]
    rfl

theorem openIndices_run (state : σ) :
    ((Sheet.context access).openIndices.run state).1 = (sheetOf state).scope.indices :=
  congrArg Prod.fst (haccess.read_bind _ state)

theorem hasAggregates_run (state : σ) :
    ((Sheet.context access).hasAggregates.run state).1 = (sheetOf state).scope.hasAggregates :=
  congrArg Prod.fst (haccess.read_bind _ state)

theorem opened_sheet (call : CompileCall) (state : σ) :
    opened (Sheet.context access) call state =
      if call.opensAggregate then [(sheetOf state).scope.nextIndex] else [] := by
  rw [opened, openIndices_run haccess, openIndices_run haccess, sheet_make haccess]
  exact Scope.opened_eq _ _ call

/-- Until a compilation begins, the indices that are handed out count up by one from the next index. -/
theorem handedOut_sheet {calls : List CompileCall} (hcalls : .beginCompile ∉ calls) (state : σ) :
    handedOut (Sheet.context access) calls state =
      List.range' (sheetOf state).scope.nextIndex (calls.countP opensAggregate) := by
  induction calls generalizing state with
  | nil => rfl
  | cons call calls ih =>
    rw [List.mem_cons, not_or] at hcalls
    obtain ⟨hcall, hcalls⟩ := hcalls
    rw [handedOut, opened_sheet haccess, ih hcalls, sheet_make haccess,
      Scope.nextIndex_after _ _ (Ne.symm hcall), List.countP_cons]
    cases call.opensAggregate with
    | false => rfl
    | true => exact (List.range'_succ ..).symm

/-- **Bookkeeping.** After any calls, in any order, on a sheet whose scope is a new one: the open indices count
up; from there on no index is opened twice before a compilation begins, and every argument of an aggregate call
gets one; none are open when a compilation has begun or ended; and the flag changes only when a compilation is
settled, after which it tells whether an aggregate call was compiled since the compilation began. -/
theorem scope_bookkeeping (calls : List CompileCall) (state : σ) (hnew : (sheetOf state).scope = .initial) :
    let ctx := Sheet.context access
    let now := stateAfter ctx calls state
    (ctx.openIndices.run now).1.Pairwise (· < ·) ∧
    (∀ more, .beginCompile ∉ more → (handedOut ctx more now).Pairwise (· < ·) ∧
      (handedOut ctx more now).length = more.countP opensAggregate) ∧
    (ctx.openIndices.run (stateAfter ctx [.beginCompile] now)).1 = [] ∧
    (ctx.openIndices.run (stateAfter ctx [.endCompile] now)).1 = [] ∧
    (∀ call, call ≠ .settleCompile →
      (ctx.hasAggregates.run (stateAfter ctx [call] now)).1 = (ctx.hasAggregates.run now).1) ∧
    ((ctx.hasAggregates.run (stateAfter ctx [.settleCompile] now)).1 = true ↔
      ∃ name codes indices, .callCode name codes indices ∈ sinceBegin calls ∧
        (sheetOf state).isAggregate name = true) := by
  intro ctx now
  have hscope : (sheetOf now).scope = Scope.initial.afterAll (sheetOf state).isAggregate calls := by
    rw [sheet_stateAfter haccess, hnew]
  refine ⟨?_, fun more hmore => ?_, ?_, ?_, fun call hcall => ?_, ?_⟩
  · rw [openIndices_run haccess, hscope]
    exact (Scope.counted_initial.afterAll _ calls).increasing
  · rw [handedOut_sheet haccess hmore]
    exact ⟨List.pairwise_lt_range', List.length_range'⟩
  · rw [openIndices_run haccess, sheet_stateAfter haccess]
    rfl
  · rw [openIndices_run haccess, sheet_stateAfter haccess]
    rfl
  · rw [hasAggregates_run haccess, hasAggregates_run haccess, sheet_stateAfter haccess]
    exact Scope.hasAggregates_after _ _ hcall
  · rw [hasAggregates_run haccess, sheet_stateAfter haccess, ← Scope.pending_afterAll, ← hscope]
    rfl

end

/-- Frames of `sum` end twice under wrong names, and a compilation ends inside another: the indices go on
from 1. -/
theorem scope_bookkeeping_unmatched :
    let ctx := Sheet.context .own
    let frame : Frame := ⟨"sum", true⟩
    let calls := [.beginCompile, .beginFrame frame, .endFrame "mean", .endFrame "sum", .callCode "sum" ["1"] []]
    let now := stateAfter ctx calls Sheet.standard
    let more := [.beginFrame frame, .endCompile, .beginFrame ⟨"abs", false⟩, .beginFrame frame]
    (ctx.openIndices.run now).1.Pairwise (· < ·) ∧ (handedOut ctx more now).Pairwise (· < ·) ∧
      handedOut ctx more now = [1, 2] ∧
      (ctx.hasAggregates.run (stateAfter ctx [.settleCompile] now)).1 = true := by
  intro ctx frame calls now more
  obtain ⟨hincreasing, hfresh, -, -, -, hflag⟩ :=
    scope_bookkeeping SheetAccess.reaches_own calls Sheet.standard rfl
  refine ⟨hincreasing, (hfresh more (by decide)).1, by decide, hflag.2 ⟨"sum", ["1"], [], ?_, ?_⟩⟩
  · decide
  · decide

end CompileCall

end Formulary
