import Formulary.Proofs.Workspace.Session

/-!
# What formulas answer

Whatever has been asked of a session, a formula answers as if it had kept nothing (`caches_transparent`): its tree,
its references, its compiled form and its value are those of its source as it is, in the sheet of its host as it
is.
-/

namespace Formulary

open Workspace

/-- **Answers.** After any commands, a formula has the tree that its source has, and the references of this tree. It
has the compiled form that the tree gets in the sheet of its host, in an empty sheet if it has no host, and so
calls an aggregate function if this form does. By every strategy it has the value that a walk of the tree finds in
that sheet. -/
theorem caches_transparent (commands : List Command) (hplain : ∀ command ∈ commands, command.Plain) {id : Nat}
    (hid : ((Session.after commands).workspace.formulas.find? id).isSome) :
    let w := (Session.after commands).workspace
    let source := (w.formula id).source
    let sheet := w.sheetOf (w.formula id)
    ((tree id).runIn w).1 = Formula.parse source ∧
      ((references id).runIn w).1 = Formula.refersTo source ∧
      ((compiled id).runIn w).1 = sheet.compileSource source ∧
      ((hasAggregates id).run w).1 = sheet.aggregatesInSource source ∧
      ∀ strategy bindings,
        ((evaluate id strategy bindings).runIn w).1 = sheet.valueOfSource bindings source := by
  have hvalid := Session.valid_after hplain
  obtain ⟨f, hf⟩ := Option.isSome_iff_exists.1 hid
  dsimp only
  rw [formula_of_find? hf]
  refine ⟨?_, ?_, ?_, ?_, fun strategy bindings => ?_⟩
  · obtain ⟨w', htree, -⟩ := runIn_tree hvalid.sound hf
    rw [htree]
  · obtain ⟨w', hreferences, -⟩ := runIn_references hvalid.sound hf
    rw [hreferences]
  · obtain ⟨w', hcompiled, -⟩ := runIn_compiled hvalid.sound hvalid.connected hf
    rw [hcompiled]
  · obtain ⟨w', haggregates, -⟩ := run_hasAggregates hvalid.sound hvalid.connected hf
    rw [haggregates]
  · obtain ⟨w', hvalue, -⟩ := runIn_evaluate hvalid.connected hf bindings hvalid.sound strategy
    rw [hvalue]

/-- A formula is compiled, and then the function that it calls turns out to be an aggregate one. -/
def lateAggregate : List Command :=
  [.makeHost "sheet" .plain .empty, .makeFormula "total" "sum(x)" .compiled (some "sheet"),
    .atFormula "total" .readCompiled,
    .atHost "sheet" (.register ⟨"sum", ⟨0, none⟩, true, .constant .empty⟩)]

theorem caches_transparent_lateAggregate : (∀ command ∈ lateAggregate, command.Plain) ∧
    ((Session.after lateAggregate).workspace.formulas.find? 0).isSome ∧
    ((hasAggregates 0).run (Session.after lateAggregate).workspace).1 = true := by
  have hlength : "sum(x)".length ≤ 2 ^ 64 := by decide
  have hplain : ∀ command ∈ lateAggregate, command.Plain := by
    simp only [lateAggregate, List.forall_mem_cons]
    exact ⟨⟨⟨rfl, rfl, rfl⟩, named_empty⟩, hlength, trivial, trivial, fun _ hnone => absurd hnone List.not_mem_nil⟩
  have hid : ((Session.after lateAggregate).workspace.formulas.find? 0).isSome := by decide +kernel
  exact ⟨hplain, hid, (caches_transparent lateAggregate hplain hid).2.2.2.1.trans (by decide +kernel)⟩

end Formulary
