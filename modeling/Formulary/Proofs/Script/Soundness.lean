import Formulary.Proofs.Reader
import Formulary.Proofs.Script.Grammar

/-!
# What is read as a script is derived

Tokens that a reader of `Script.Reader` accepts are yielded by a derivation of the reader's phrase, which means
what the reader gives and does not nest too deep (`Sound`). A loop goes on from a derivation of what has been
read before it, so chains and arguments are derived from left to right.
-/

namespace Formulary

namespace Script

open Reader Script.Derivation

def tokensOf (lexemes : List Lexeme) : List Token := lexemes.map Lexeme.token

/-! ## Tokens that are accepted -/

/-- Only a token that is there is the next one, unless it is the last of all. -/
theorem tokensOf_of_next {token : Token} {lexemes : List Lexeme} (h : (next lexemes).token = token)
    (hne : token ≠ .finish) : tokensOf lexemes = token :: tokensOf (advance lexemes) := by
  cases lexemes with
  | nil => exact absurd h.symm hne
  | cons lexeme rest =>
    obtain ⟨token', offset⟩ := lexeme
    obtain rfl : token' = token := h
    rw [advance_cons hne]
    rfl

theorem expect_ok {token : Token} {wanted : Wanted} {lexemes after : List Lexeme}
    (h : expect token wanted lexemes = .ok after) (hne : token ≠ .finish) :
    tokensOf lexemes = token :: tokensOf after := by
  rw [expect] at h
  split at h
  · next hnext =>
    obtain rfl := Except.ok.inj h
    exact tokensOf_of_next hnext hne
  · cases h

theorem expectText_ok {lexemes after : List Lexeme} {s : String}
    (h : expectText lexemes = .ok (s, after)) : tokensOf lexemes = .text s :: tokensOf after := by
  unfold expectText at h
  split at h
  · obtain ⟨rfl, rfl⟩ := Prod.mk.inj (Except.ok.inj h)
    rfl
  · exact nomatch h

theorem expectIndex_ok {lexemes after : List Lexeme} {i : Nat}
    (h : expectIndex lexemes = .ok (i, after)) :
    ∃ index : Index, index.value = i ∧ tokensOf lexemes = .number index.number :: tokensOf after := by
  unfold expectIndex at h
  split at h
  · next n offset rest =>
    split at h
    · next k hk =>
      split at h
      · next hindex =>
        obtain ⟨rfl, rfl⟩ := Prod.mk.inj (Except.ok.inj h)
        refine ⟨⟨n, _, ?_⟩, rfl, rfl⟩
        unfold index?
        rw [hk]
        exact if_pos hindex
      · exact nomatch h
    · exact nomatch h
  · exact nomatch h

/-! ## Derivations of what is read -/

/-- The reader accepts only what derivations of the phrase yield, which leave `cost` of the levels of
nesting. -/
def Sound (cost nesting : Nat) (phrase : Phrase) (reader : Reader phrase.Meaning) : Prop :=
  ∀ ⦃lexemes x after⦄, reader lexemes = .ok (x, after) → ∃ d : Derivation phrase, d.meaning = x ∧
    cost + d.nesting ≤ nesting ∧ tokensOf lexemes = d.yield ++ tokensOf after

section Readers

variable {fuel nesting : Nat}

theorem chainFrom_sound {n : Nat} {part : Reader Script} (hpart : Sound 0 nesting (.level n) part)
    (left : Derivation (.level (n + 1))) (hleft : left.nesting ≤ nesting) {lexemes after : List Lexeme}
    {x : Script} (h : chainFrom (operator? n) part fuel left.meaning lexemes = .ok (x, after)) :
    ∃ d : Derivation (.level (n + 1)), d.meaning = x ∧ d.nesting ≤ nesting ∧
      left.yield ++ tokensOf lexemes = d.yield ++ tokensOf after := by
  induction fuel generalizing left lexemes with
  | zero =>
    obtain ⟨rfl, rfl⟩ := Prod.mk.inj (Except.ok.inj h)
    exact ⟨left, rfl, hleft, rfl⟩
  | succ fuel ih =>
    rw [chainFrom] at h
    split at h
    · obtain ⟨rfl, rfl⟩ := Prod.mk.inj (Except.ok.inj h)
      exact ⟨left, rfl, hleft, rfl⟩
    · next op hop =>
      have htokens := tokensOf_of_next rfl (ne_finish_of_operator hop)
      obtain ⟨⟨y, rest⟩, hread, h⟩ := exists_of_bind_ok h
      obtain ⟨right, rfl, hright, hyield⟩ := hpart hread
      obtain ⟨d, hmeaning, hnesting, htokens'⟩ :=
        ih (.binary n _ op hop left right) (by rw [Derivation.nesting]; omega) h
      refine ⟨d, hmeaning, hnesting, ?_⟩
      rw [← htokens', htokens, hyield]
      simp [yield]

theorem chain_sound {n : Nat} {part : Reader Script} (hpart : Sound 0 nesting (.level n) part) :
    Sound 0 nesting (.level (n + 1)) (chain fuel (operator? n) part) := by
  intro lexemes x after h
  obtain ⟨⟨y, rest⟩, hread, h⟩ := exists_of_bind_ok h
  obtain ⟨first, rfl, hfirst, hyield⟩ := hpart hread
  have hleft : (Derivation.tighter n first).nesting ≤ nesting := by rw [Derivation.nesting]; omega
  obtain ⟨d, hmeaning, hnesting, htokens⟩ := chainFrom_sound hpart (.tighter n first) hleft h
  exact ⟨d, hmeaning, by omega, hyield.trans htokens⟩

/-- Indices after commas. -/
theorem indices_sound {items : List Nat} {lexemes after : List Lexeme} {values : List Nat}
    (h : afterCommas expectIndex fuel items lexemes = .ok (values, after)) :
    ∃ indices : List Index, values = items ++ indices.map Index.value ∧
      tokensOf lexemes =
        indices.flatMap (fun index => [.comma, .number index.number]) ++ tokensOf after := by
  induction fuel generalizing items lexemes with
  | zero =>
    obtain ⟨rfl, rfl⟩ := Prod.mk.inj (Except.ok.inj h)
    exact ⟨[], (List.append_nil _).symm, rfl⟩
  | succ fuel ih =>
    rw [afterCommas] at h
    split at h
    · next hcomma =>
      obtain ⟨⟨i, rest⟩, hread, h⟩ := exists_of_bind_ok h
      obtain ⟨index, rfl, htokens⟩ := expectIndex_ok hread
      obtain ⟨indices, rfl, htokens'⟩ := ih h
      refine ⟨index :: indices, by simp, ?_⟩
      rw [tokensOf_of_next hcomma (by decide), htokens, htokens']
      rfl
    · obtain ⟨rfl, rfl⟩ := Prod.mk.inj (Except.ok.inj h)
      exact ⟨[], (List.append_nil _).symm, rfl⟩

section Nested

variable {expression prefixed : Reader Script} (hexpression : Sound 0 nesting .expression expression)

include hexpression

theorem arguments_sound (before : Derivation .arguments) (hbefore : before.nesting ≤ nesting)
    {lexemes after : List Lexeme} {xs : List Script}
    (h : afterCommas expression fuel before.meaning lexemes = .ok (xs, after)) :
    ∃ d : Derivation .arguments, d.meaning = xs ∧ d.nesting ≤ nesting ∧
      before.yield ++ tokensOf lexemes = d.yield ++ tokensOf after := by
  induction fuel generalizing before lexemes with
  | zero =>
    obtain ⟨rfl, rfl⟩ := Prod.mk.inj (Except.ok.inj h)
    exact ⟨before, rfl, hbefore, rfl⟩
  | succ fuel ih =>
    rw [afterCommas] at h
    split at h
    · next hcomma =>
      obtain ⟨⟨y, rest⟩, hread, h⟩ := exists_of_bind_ok h
      obtain ⟨last, rfl, hlast, hyield⟩ := hexpression hread
      obtain ⟨d, hmeaning, hnesting, htokens⟩ :=
        ih (.argument before last) (by rw [Derivation.nesting]; omega) h
      refine ⟨d, hmeaning, hnesting, ?_⟩
      rw [← htokens, tokensOf_of_next hcomma (by decide), hyield]
      simp [yield]
    · obtain ⟨rfl, rfl⟩ := Prod.mk.inj (Except.ok.inj h)
      exact ⟨before, rfl, hbefore, rfl⟩

theorem pair_sound {lexemes after : List Lexeme} {x y : Script}
    (h : pair expression lexemes = .ok ((x, y), after)) :
    ∃ left right : Derivation .expression, left.meaning = x ∧ right.meaning = y ∧
      max left.nesting right.nesting ≤ nesting ∧
      tokensOf lexemes = left.yield ++ .comma :: (right.yield ++ tokensOf after) := by
  obtain ⟨⟨x', rest⟩, hread, h⟩ := exists_of_bind_ok h
  obtain ⟨rest', hcomma, h⟩ := exists_of_bind_ok h
  obtain ⟨⟨y', rest''⟩, hread', hdone⟩ := exists_of_bind_ok h
  obtain ⟨⟨rfl, rfl⟩, rfl⟩ : (x' = x ∧ y' = y) ∧ rest'' = after := by simpa using hdone
  obtain ⟨left, rfl, hleft, hyield⟩ := hexpression hread
  obtain ⟨right, rfl, hright, hyield'⟩ := hexpression hread'
  refine ⟨left, right, rfl, rfl, by omega, ?_⟩
  rw [hyield, expect_ok hcomma nofun, hyield']

/-- A call between its parentheses. -/
theorem callBody_sound {name : String} {lexemes after : List Lexeme} {x : Script}
    (h : callBody fuel expression name lexemes = .ok (x, after)) (tail : List Token) :
    ∃ d : Derivation .primary, d.meaning = x ∧ d.nesting ≤ nesting ∧
      (tokensOf after = .close :: tail →
        .word name :: .open :: tokensOf lexemes = d.yield ++ tail) := by
  unfold callBody at h
  split at h
  -- a variable with its indices
  · next hname =>
    obtain rfl := hname
    obtain ⟨⟨s, rest⟩, htext, h⟩ := exists_of_bind_ok h
    obtain ⟨⟨values, rest'⟩, hindices, hdone⟩ := exists_of_bind_ok h
    obtain ⟨rfl, rfl⟩ := Prod.mk.inj (Except.ok.inj hdone)
    obtain ⟨indices, rfl, htokens⟩ := indices_sound hindices
    refine ⟨.variable s indices, rfl, Nat.zero_le _, fun hclose => ?_⟩
    rw [expectText_ok htext, htokens, hclose]
    simp [yield]
  split at h
  -- a function with its arguments
  · next hname =>
    obtain rfl := hname
    obtain ⟨⟨s, rest⟩, htext, h⟩ := exists_of_bind_ok h
    obtain ⟨⟨args, rest'⟩, hargs, hdone⟩ := exists_of_bind_ok h
    obtain ⟨rfl, rfl⟩ := Prod.mk.inj (Except.ok.inj hdone)
    obtain ⟨d, rfl, hnesting, htokens⟩ := arguments_sound hexpression .none (Nat.zero_le _) hargs
    refine ⟨.call s d, rfl, hnesting, fun hclose => ?_⟩
    rw [expectText_ok htext, show tokensOf rest = _ from htokens, hclose]
    simp [yield]
  split at h
  -- an operator that is given by its symbol
  · next hname =>
    obtain rfl := hname
    obtain ⟨⟨s, rest⟩, htext, h⟩ := exists_of_bind_ok h
    obtain ⟨rest', hcomma, h⟩ := exists_of_bind_ok h
    obtain ⟨⟨⟨y, z⟩, rest''⟩, hpair, hdone⟩ := exists_of_bind_ok h
    obtain ⟨rfl, rfl⟩ := Prod.mk.inj (Except.ok.inj hdone)
    obtain ⟨left, right, rfl, rfl, hnesting, htokens⟩ := pair_sound hexpression hpair
    refine ⟨.scale s left right, rfl, hnesting, fun hclose => ?_⟩
    rw [expectText_ok htext, expect_ok hcomma nofun, htokens, hclose]
    simp [yield]
  split at h
  -- an operator that has a name, with two operands or one
  · next op hop =>
    obtain ⟨⟨⟨y, z⟩, rest⟩, hpair, hdone⟩ := exists_of_bind_ok h
    obtain ⟨rfl, rfl⟩ := Prod.mk.inj (Except.ok.inj hdone)
    obtain ⟨left, right, rfl, rfl, hnesting, htokens⟩ := pair_sound hexpression hpair
    refine ⟨.operation name op hop left right, rfl, hnesting, fun hclose => ?_⟩
    rw [htokens, hclose]
    simp [yield]
  · next op _ hop =>
    obtain ⟨⟨y, rest⟩, hread, hdone⟩ := exists_of_bind_ok h
    obtain ⟨rfl, rfl⟩ := Prod.mk.inj (Except.ok.inj hdone)
    obtain ⟨operand, rfl, hnesting, htokens⟩ := hexpression hread
    refine ⟨.conversion name op hop operand, rfl, by rwa [Nat.zero_add] at hnesting, fun hclose => ?_⟩
    rw [htokens, hclose]
    simp [yield]
  · exact nomatch h

theorem primary_sound : Sound 0 nesting .primary (primary fuel expression) := by
  intro lexemes x after h
  unfold primary at h
  split at h
  · next n _ rest =>
    obtain ⟨rfl, rfl⟩ := Prod.mk.inj (Except.ok.inj h)
    exact ⟨.number n, rfl, Nat.zero_le _, rfl⟩
  · next n _ rest =>
    obtain ⟨rfl, rfl⟩ := Prod.mk.inj (Except.ok.inj h)
    exact ⟨.negative n, rfl, Nat.zero_le _, rfl⟩
  · next offset rest _ =>
    split at h
    · next hinfinity =>
      obtain ⟨rfl, rfl⟩ := Prod.mk.inj (Except.ok.inj h)
      refine ⟨.negativeInfinity, rfl, Nat.zero_le _, ?_⟩
      exact congrArg (Token.minus :: ·) (tokensOf_of_next hinfinity nofun)
    · exact nomatch h
  · next s _ rest =>
    obtain ⟨rfl, rfl⟩ := Prod.mk.inj (Except.ok.inj h)
    exact ⟨.text s, rfl, Nat.zero_le _, rfl⟩
  · next name offset rest =>
    split at h
    · next value hvalue =>
      obtain ⟨rfl, rfl⟩ := Prod.mk.inj (Except.ok.inj h)
      exact ⟨.constant name value hvalue, rfl, Nat.zero_le _, rfl⟩
    · obtain ⟨inside, hopen, h⟩ := exists_of_bind_ok h
      obtain ⟨⟨y, rest'⟩, hbody, h⟩ := exists_of_bind_ok h
      obtain ⟨rest'', hclose, hdone⟩ := exists_of_bind_ok h
      obtain ⟨rfl, rfl⟩ := Prod.mk.inj (Except.ok.inj hdone)
      obtain ⟨d, rfl, hnesting, hyield⟩ := callBody_sound hexpression hbody (tokensOf rest'')
      refine ⟨d, rfl, by omega, ?_⟩
      rw [← hyield (expect_ok hclose nofun), ← expect_ok hopen nofun]
      rfl
  · next offset rest =>
    obtain ⟨⟨y, rest'⟩, hread, h⟩ := exists_of_bind_ok h
    obtain ⟨rest'', hclose, hdone⟩ := exists_of_bind_ok h
    obtain ⟨rfl, rfl⟩ := Prod.mk.inj (Except.ok.inj hdone)
    obtain ⟨inner, rfl, hnesting, hyield⟩ := hexpression hread
    refine ⟨.parenthesized inner, rfl, hnesting, ?_⟩
    rw [expect_ok hclose nofun] at hyield
    simpa [yield, tokensOf] using hyield
  · exact nomatch h

theorem operand_sound (hprefixed : Sound 1 nesting (.level 0) prefixed) :
    Sound 0 nesting (.level 0) (operand fuel prefixed expression) := by
  intro lexemes x after h
  unfold operand at h
  split at h
  · next hbang =>
    obtain ⟨⟨y, rest⟩, hread, hdone⟩ := exists_of_bind_ok h
    obtain ⟨rfl, rfl⟩ := Prod.mk.inj (Except.ok.inj hdone)
    obtain ⟨inner, rfl, hinner, hyield⟩ := hprefixed hread
    refine ⟨.not inner, rfl, by rw [Derivation.nesting]; omega, ?_⟩
    rw [tokensOf_of_next hbang nofun, hyield]
    rfl
  · obtain ⟨inner, rfl, hinner, hyield⟩ := primary_sound hexpression h
    exact ⟨.tight inner, rfl, hinner, hyield⟩

theorem branches_sound (hprefixed : Sound 1 nesting (.level 0) prefixed) :
    Sound 0 (nesting + 1) .expression (branches fuel prefixed expression) := by
  intro lexemes x after h
  have hchains : Sound 0 nesting (.level 3) (chains fuel (operand fuel prefixed expression)) :=
    chain_sound (chain_sound (chain_sound (operand_sound hexpression hprefixed)))
  obtain ⟨⟨y, rest⟩, hread, hmore⟩ := exists_of_bind_ok h
  obtain ⟨condition, rfl, hcondition, hyield⟩ := hchains hread
  dsimp only at hmore
  split at hmore
  · next hquestion =>
    obtain ⟨⟨z, rest₁⟩, hread₁, hrest₁⟩ := exists_of_bind_ok hmore
    obtain ⟨rest₂, hcolon, hrest₂⟩ := exists_of_bind_ok hrest₁
    obtain ⟨⟨w, rest₃⟩, hread₃, hdone⟩ := exists_of_bind_ok hrest₂
    obtain ⟨rfl, rfl⟩ := Prod.mk.inj (Except.ok.inj hdone)
    obtain ⟨whenTrue, rfl, htrue, hyield₁⟩ := hexpression hread₁
    obtain ⟨whenFalse, rfl, hfalse, hyield₃⟩ := hexpression hread₃
    refine ⟨.conditional condition whenTrue whenFalse, rfl, ?_, ?_⟩
    · rw [Derivation.nesting]
      omega
    · rw [hyield, tokensOf_of_next hquestion nofun, hyield₁, expect_ok hcolon nofun, hyield₃]
      simp [yield]
  · obtain ⟨rfl, rfl⟩ := Prod.mk.inj (Except.ok.inj hmore)
    exact ⟨.plain condition, rfl, by rw [Derivation.nesting]; omega, hyield⟩

end Nested

theorem nested_sound (nesting : Nat) :
    Sound 1 nesting (.level 0) (nestedOperand fuel nesting) ∧
      Sound 0 nesting .expression (nestedExpression fuel nesting) := by
  induction nesting with
  | zero => exact ⟨fun _ _ _ h => (nomatch h), fun _ _ _ h => (nomatch h)⟩
  | succ nesting ih =>
    obtain ⟨hprefixed, hexpression⟩ := ih
    refine ⟨fun lexemes x after h => ?_, fun lexemes x after h => ?_⟩
    · rw [nestedOperand] at h
      obtain ⟨d, hmeaning, hnesting, htokens⟩ := operand_sound hexpression hprefixed h
      exact ⟨d, hmeaning, by omega, htokens⟩
    · rw [nestedExpression] at h
      exact branches_sound hexpression hprefixed h

end Readers

/-- What is read as a script from tokens is derived up to a last one. -/
theorem exists_derivation_of_ofLexemes {nesting : Nat} {lexemes : List Lexeme} {script : Script}
    (h : ofLexemes nesting lexemes = .ok script) : ∃ d : Derivation .expression, d.meaning = script ∧
      d.nesting ≤ nesting ∧ ∃ rest, tokensOf lexemes = d.yield ++ rest ∧ rest.headD .finish = .finish := by
  obtain ⟨⟨x, rest⟩, hread, hmore⟩ := exists_of_bind_ok h
  obtain ⟨d, rfl, hnesting, htokens⟩ := (nested_sound nesting).2 hread
  dsimp only at hmore
  split at hmore
  · next hfinish =>
    obtain rfl := Except.ok.inj hmore
    rw [next_token] at hfinish
    exact ⟨d, rfl, by omega, _, htokens, hfinish⟩
  · exact nomatch hmore

end Script

end Formulary
