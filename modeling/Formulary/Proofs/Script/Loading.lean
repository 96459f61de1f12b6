import Formulary.Proofs.Script.Evaluation
import Formulary.Proofs.Script.Extent
import Formulary.Proofs.Script.Lexical
import Formulary.Proofs.Script.Unambiguity

/-!
# Codes and their scripts

A code is a script if and only if its tokens are derived from the grammar of scripts and do not nest too deep.
The derivation is the only one, nothing but the tokens is read, and the script runs as the derivation
evaluates (`ofCode_reads_grammar`).
-/

namespace Formulary

namespace Script

/-! ## Tokens and derivations -/

theorem Derivation.finish_not_mem {phrase : Phrase} (d : Derivation phrase) : .finish ∉ d.yield := by
  induction d with
  | binary n token op hop left right ihl ihr =>
    have htoken := (ne_finish_of_operator hop).symm
    simp [yield, ihl, ihr, htoken]
  | _ => simp_all [yield]

/-- Up to the last token there is nothing but what is derived. -/
theorem eq_yield_of_append {d : Derivation .expression} {tokens rest : List Token}
    (htokens : .finish ∉ tokens) (h : tokens ++ [.finish] = d.yield ++ rest)
    (hrest : rest.headD .finish = .finish) : tokens = d.yield := by
  cases rest with
  | nil =>
    rw [List.append_nil] at h
    exact absurd (h ▸ List.mem_append_right _ (List.mem_singleton_self _)) d.finish_not_mem
  | cons token rest =>
    obtain rfl : token = .finish := hrest
    exact ((List.append_cons_inj_of_notMem htokens List.not_mem_nil).1 h).1

theorem exists_cut {code : String} {found : List Lexeme} (h : lexemes code = .ok found) :
    ∃ tokens, tokensOf found = tokens ++ [.finish] ∧ Cut code.toList tokens := by
  obtain ⟨tokens, htokens, hspells⟩ := spells_of_cutFrom h
  exact ⟨tokens, htokens, hspells.cut⟩

theorem finished_lexemes {code : String} {found : List Lexeme} (h : lexemes code = .ok found) :
    Finished found := by
  obtain ⟨tokens, htokens, -⟩ := exists_cut h
  obtain ⟨front, last, rfl, -, hlast⟩ := List.map_eq_append_iff.1 htokens
  obtain ⟨lexeme, rfl, hfinish⟩ := List.map_eq_singleton_iff.1 hlast
  exact ⟨front, lexeme.offset, by rw [← hfinish]⟩

theorem Cut.derivation_unique {code : List Char} {d d' : Derivation .expression} (h : Cut code d.yield)
    (h' : Cut code d'.yield) : d = d' :=
  Derivation.unique (h.unique h')

/-! ## Codes -/

theorem ofCode_eq_ok_iff {code : String} {script : Script} : ofCode code = .ok script ↔
    ∃ found, lexemes code = .ok found ∧ ofLexemes maxNesting found = .ok script := by
  unfold ofCode
  cases lexemes code with
  | error fault => simp [Except.bind]
  | ok found =>
    cases h : ofLexemes maxNesting found <;> simp [Except.bind, h]

/-- What is derived is read, and nothing else. -/
theorem ofCode_iff_derived {code : String} {script : Script} : ofCode code = .ok script ↔
    ∃ d : Derivation .expression, Cut code.toList d.yield ∧ d.nesting ≤ maxNesting ∧
      d.meaning = script := by
  rw [ofCode_eq_ok_iff]
  constructor
  · rintro ⟨found, hfound, hscript⟩
    obtain ⟨tokens, htokens, hcut⟩ := exists_cut hfound
    obtain ⟨d, hmeaning, hnesting, rest, hyield, hrest⟩ := exists_derivation_of_ofLexemes hscript
    rw [htokens] at hyield
    obtain rfl := eq_yield_of_append hcut.finish_not_mem hyield hrest
    exact ⟨d, hcut, hnesting, hmeaning⟩
  · rintro ⟨d, hcut, hnesting, rfl⟩
    obtain ⟨found, hfound, htokens⟩ := lexemes_iff_cut.2 hcut
    exact ⟨found, hfound, ofLexemes_derivation hnesting htokens⟩

-- `!` is tighter than `&&`, and `&&` than `||`
example : ofCode "!true && false || NaN" =
    .ok (.binary .or (.binary .and (.unary .not (.literal (.boolean true))) (.literal (.boolean false)))
      (.literal (.number .nan))) := by
  rfl

theorem ofCode_error {code : String} {error : FormulaError} (h : ofCode code = .error error) :
    ∃ fault, error = .malformed fault := by
  unfold ofCode at h
  split at h
  · exact nomatch h
  · exact ⟨_, (Except.error.inj h).symm⟩

/-- **Scripts.** A code is a script if and only if it is cut into the tokens of a derivation that does not nest
too deep; the script is what the derivation means, and any other code is malformed. Tokens behind the last one
would make no difference. There is one derivation at most, and from every state the run of the script is seen
by the context as the evaluation of the derivation. -/
theorem ofCode_reads_grammar (code : String) :
    (∀ script, ofCode code = .ok script ↔ ∃ d : Derivation .expression,
      Cut code.toList d.yield ∧ d.nesting ≤ maxNesting ∧ d.meaning = script) ∧
    ((∃ script, ofCode code = .ok script) ∨ ∃ fault, ofCode code = .error (.malformed fault)) ∧
    (∀ found, lexemes code = .ok found → ∀ behind,
      ofLexemes maxNesting (found ++ behind) = ofLexemes maxNesting found) ∧
    ∀ d : Derivation .expression, Cut code.toList d.yield →
      (∀ d' : Derivation .expression, Cut code.toList d'.yield → d' = d) ∧
      ∀ script, ofCode code = .ok script →
        ∀ {σ : Type} (ctx : Context (StateM σ)) (bindings : Bindings) (state : σ), ∃ audit,
          (script.run ctx bindings).runIn state = (audit.result, audit.state) ∧
            (script.run ctx.audited bindings).audit state = audit ∧
            ∀ audit', d.Evaluates ctx bindings state audit' ↔ audit' = audit := by
  refine ⟨fun script => ofCode_iff_derived, ?_, fun found hfound behind => ?_, fun d hcut => ⟨?_, ?_⟩⟩
  · cases h : ofCode code with
    | ok script => exact .inl ⟨script, rfl⟩
    | error error =>
      obtain ⟨fault, rfl⟩ := ofCode_error h
      exact .inr ⟨fault, rfl⟩
  · exact ofLexemes_append (finished_lexemes hfound) maxNesting behind
  · exact fun d' hcut' => hcut'.derivation_unique hcut
  · intro script hscript σ ctx bindings state
    obtain ⟨d', hcut', -, rfl⟩ := ofCode_iff_derived.1 hscript
    obtain rfl := hcut'.derivation_unique hcut
    exact d'.evaluates_iff ctx bindings state

end Script

end Formulary
