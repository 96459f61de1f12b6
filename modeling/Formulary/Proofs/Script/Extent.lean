import Formulary.Proofs.Script.Soundness

/-!
# No more is read than there is

A reader that starts before the last token never gets past it: with anything behind that token, and any fuel
that suffices, it gives the same (`Confined`). So the tokens of a code are all that is read of it
(`ofLexemes_append`).
-/

namespace Formulary

namespace Script

open Reader

/-- The last token is that of the end. -/
def Finished (lexemes : List Lexeme) : Prop := ∃ front offset, lexemes = front ++ [⟨.finish, offset⟩]

theorem Finished.exists_cons {lexemes : List Lexeme} (h : Finished lexemes) :
    ∃ token offset rest, lexemes = ⟨token, offset⟩ :: rest ∧ (token ≠ .finish → Finished rest) := by
  obtain ⟨front, offset, rfl⟩ := h
  cases front with
  | nil => exact ⟨.finish, offset, [], rfl, fun h => absurd rfl h⟩
  | cons lexeme front => exact ⟨lexeme.token, lexeme.offset, _, rfl, fun _ => ⟨front, offset, rfl⟩⟩

theorem Finished.length_pos {lexemes : List Lexeme} (h : Finished lexemes) : 0 < lexemes.length := by
  obtain ⟨token, offset, rest, rfl, -⟩ := h.exists_cons
  exact Nat.succ_pos _

section Ahead

variable {lexemes : List Lexeme} (h : Finished lexemes) (behind : List Lexeme)

include h

theorem Finished.next_append : next (lexemes ++ behind) = next lexemes := by
  obtain ⟨token, offset, rest, rfl, -⟩ := h.exists_cons
  rfl

theorem Finished.unexpected_append (wanted : Wanted) :
    unexpected wanted (lexemes ++ behind) = unexpected wanted lexemes := by
  rw [unexpected, unexpected, h.next_append]

theorem Finished.advance_append : advance (lexemes ++ behind) = advance lexemes ++ behind := by
  obtain ⟨token, offset, rest, rfl, -⟩ := h.exists_cons
  cases token <;> rfl

theorem Finished.advance (hne : (next lexemes).token ≠ .finish) :
    Finished (advance lexemes) ∧ (Reader.advance lexemes).length < lexemes.length := by
  obtain ⟨token, offset, rest, rfl, hrest⟩ := h.exists_cons
  have hne : token ≠ .finish := hne
  rw [advance_cons hne]
  exact ⟨hrest hne, Nat.lt_succ_self _⟩

end Ahead

/-! ## Readers -/

/-- The same is read where more tokens stand behind, and all of these are left. -/
inductive Agrees (behind : List Lexeme) (room : Nat) {α : Type} :
    Except SyntaxFault (α × List Lexeme) → Except SyntaxFault (α × List Lexeme) → Prop where
  | ok {x : α} {rest : List Lexeme} (hrest : Finished rest) (hroom : rest.length ≤ room) :
    Agrees behind room (.ok (x, rest)) (.ok (x, rest ++ behind))
  | error (fault : SyntaxFault) : Agrees behind room (.error fault) (.error fault)

/-- Of so many tokens up to the last the second reader reads what the first does, whatever stands behind. -/
def Confined (behind : List Lexeme) (room : Nat) {α : Type} (reader reader' : Reader α) : Prop :=
  ∀ ⦃lexemes⦄, Finished lexemes → lexemes.length ≤ room →
    Agrees behind lexemes.length (reader lexemes) (reader' (lexemes ++ behind))

section Steps

variable {behind : List Lexeme} {room : Nat} {α β : Type}

theorem Agrees.mono {room' : Nat} {x x' : Except SyntaxFault (α × List Lexeme)}
    (h : Agrees behind room x x') (hle : room ≤ room') : Agrees behind room' x x' := by
  cases h with
  | ok hrest hroom => exact .ok hrest (Nat.le_trans hroom hle)
  | error fault => exact .error fault

theorem Agrees.bind {x x' : Except SyntaxFault (α × List Lexeme)}
    {f f' : α × List Lexeme → Except SyntaxFault (β × List Lexeme)} (h : Agrees behind room x x')
    (hf : ∀ a rest, Finished rest → rest.length ≤ room →
      Agrees behind rest.length (f (a, rest)) (f' (a, rest ++ behind))) :
    Agrees behind room (x >>= f) (x' >>= f') := by
  cases h with
  | ok hrest hroom => exact (hf _ _ hrest hroom).mono hroom
  | error fault => exact .error fault

theorem agrees_expect {token : Token} {wanted : Wanted} {lexemes : List Lexeme}
    {f f' : List Lexeme → Except SyntaxFault (β × List Lexeme)} (hne : token ≠ .finish)
    (hfinished : Finished lexemes) (hroom : lexemes.length ≤ room)
    (hf : ∀ rest, Finished rest → rest.length < lexemes.length →
      Agrees behind rest.length (f rest) (f' (rest ++ behind))) :
    Agrees behind room (expect token wanted lexemes >>= f)
      (expect token wanted (lexemes ++ behind) >>= f') := by
  rw [expect, expect, hfinished.next_append, hfinished.advance_append, hfinished.unexpected_append]
  split
  · next hnext =>
    obtain ⟨hrest, hlt⟩ := hfinished.advance (hnext ▸ hne)
    exact (hf _ hrest hlt).mono (by omega)
  · exact .error _

theorem confined_expectText : Confined behind room expectText expectText := by
  intro lexemes hfinished _
  obtain ⟨token, offset, rest, rfl, hrest⟩ := hfinished.exists_cons
  have hunexpected := hfinished.unexpected_append behind .text
  cases token with
  | text s => exact .ok (hrest nofun) (Nat.le_succ _)
  | _ =>
    simp only [expectText, List.cons_append] at hunexpected ⊢
    rw [hunexpected]
    exact .error _

theorem confined_expectIndex : Confined behind room expectIndex expectIndex := by
  intro lexemes hfinished _
  obtain ⟨token, offset, rest, rfl, hrest⟩ := hfinished.exists_cons
  have hunexpected := hfinished.unexpected_append behind .index
  rw [List.cons_append] at hunexpected ⊢
  cases token with
  | number n =>
    simp only [expectIndex, hunexpected]
    split
    · split
      · exact .ok (hrest nofun) (Nat.le_succ _)
      · exact .error _
    · exact .error _
  | _ =>
    simp only [expectIndex, hunexpected]
    exact .error _

end Steps

/-! ## Loops -/

section Loops

variable {behind : List Lexeme} {room : Nat}

theorem agrees_chainFrom {operator? : Token → Option BinaryOperator}
    (hoperator : ∀ {token op}, operator? token = some op → token ≠ .finish) {part part' : Reader Script}
    (hpart : Confined behind room part part') {fuel fuel' : Nat} {lexemes : List Lexeme}
    (hfinished : Finished lexemes) (hroom : lexemes.length ≤ room) (hfuel : lexemes.length ≤ fuel)
    (hfuel' : lexemes.length ≤ fuel') (left : Script) :
    Agrees behind lexemes.length (chainFrom operator? part fuel left lexemes)
      (chainFrom operator? part' fuel' left (lexemes ++ behind)) := by
  have hpos := hfinished.length_pos
  -- both loops have as much fuel as there are lexemes, so neither stops for want of it
  induction fuel generalizing fuel' left lexemes with
  | zero => omega
  | succ fuel ih =>
    obtain ⟨fuel', rfl⟩ : ∃ k, fuel' = k + 1 := ⟨fuel' - 1, by omega⟩
    rw [chainFrom, chainFrom, hfinished.next_append, hfinished.advance_append]
    split
    · exact .ok hfinished (Nat.le_refl _)
    · next op hop =>
      obtain ⟨hinside, hlt⟩ := hfinished.advance (hoperator hop)
      refine .mono (.bind (hpart hinside (by omega)) fun right rest hrest hle => ?_) (Nat.le_of_lt hlt)
      exact ih hrest (by omega) (by omega) (by omega) _ hrest.length_pos

theorem agrees_afterCommas {α : Type} {item item' : Reader α} (hitem : Confined behind room item item')
    {fuel fuel' : Nat} {lexemes : List Lexeme} (hfinished : Finished lexemes)
    (hroom : lexemes.length ≤ room) (hfuel : lexemes.length ≤ fuel) (hfuel' : lexemes.length ≤ fuel')
    (items : List α) :
    Agrees behind lexemes.length (afterCommas item fuel items lexemes)
      (afterCommas item' fuel' items (lexemes ++ behind)) := by
  have hpos := hfinished.length_pos
  induction fuel generalizing fuel' items lexemes with
  | zero => omega
  | succ fuel ih =>
    obtain ⟨fuel', rfl⟩ : ∃ k, fuel' = k + 1 := ⟨fuel' - 1, by omega⟩
    rw [afterCommas, afterCommas, hfinished.next_append, hfinished.advance_append]
    split
    · next hcomma =>
      obtain ⟨hinside, hlt⟩ := hfinished.advance (by rw [hcomma]; decide)
      refine .mono (.bind (hitem hinside (by omega)) fun one rest hrest hle => ?_) (Nat.le_of_lt hlt)
      exact ih hrest (by omega) (by omega) (by omega) _ hrest.length_pos
    · exact .ok hfinished (Nat.le_refl _)

end Loops

/-! ## Phrases -/

section Readers

variable {behind : List Lexeme} {room fuel fuel' : Nat} (hfuel : room ≤ fuel) (hfuel' : room ≤ fuel')

include hfuel hfuel'

theorem confined_chain {operator? : Token → Option BinaryOperator}
    (hoperator : ∀ {token op}, operator? token = some op → token ≠ .finish) {part part' : Reader Script}
    (hpart : Confined behind room part part') :
    Confined behind room (chain fuel operator? part) (chain fuel' operator? part') := by
  intro lexemes hfinished hroom
  refine .bind (hpart hfinished hroom) fun first rest hrest hle => ?_
  exact agrees_chainFrom hoperator hpart hrest (by omega) (by omega) (by omega) first

section Nested

variable {expression expression' : Reader Script} (hexpression : Confined behind room expression expression')

include hexpression

omit hfuel hfuel' in
theorem confined_pair : Confined behind room (pair expression) (pair expression') := by
  intro lexemes hfinished hroom
  refine .bind (hexpression hfinished hroom) fun left rest hrest hle => ?_
  refine agrees_expect nofun hrest (Nat.le_refl _) fun rest' hrest' hlt => ?_
  refine .bind (hexpression hrest' (by omega)) fun right rest'' hrest'' _ => ?_
  exact .ok hrest'' (Nat.le_refl _)

theorem confined_callBody (name : String) :
    Confined behind room (callBody fuel expression name) (callBody fuel' expression' name) := by
  intro lexemes hfinished hroom
  unfold callBody
  split
  · refine .bind (confined_expectText hfinished hroom) fun s rest hrest hle => ?_
    refine .bind (agrees_afterCommas confined_expectIndex hrest (Nat.le_trans hle hroom) (by omega) (by omega) [])
      fun indices rest' hrest' _ => ?_
    exact .ok hrest' (Nat.le_refl _)
  split
  · refine .bind (confined_expectText hfinished hroom) fun s rest hrest hle => ?_
    refine .bind (agrees_afterCommas hexpression hrest (by omega) (by omega) (by omega) [])
      fun args rest' hrest' _ => ?_
    exact .ok hrest' (Nat.le_refl _)
  split
  · refine .bind (confined_expectText hfinished hroom) fun s rest hrest hle => ?_
    refine agrees_expect nofun hrest (Nat.le_refl _) fun rest' hrest' hlt => ?_
    refine .bind (confined_pair hexpression hrest' (by omega)) fun operands rest'' hrest'' _ => ?_
    exact .ok hrest'' (Nat.le_refl _)
  split
  · refine .bind (confined_pair hexpression hfinished hroom) fun operands rest hrest _ => ?_
    exact .ok hrest (Nat.le_refl _)
  · refine .bind (hexpression hfinished hroom) fun operand rest hrest _ => ?_
    exact .ok hrest (Nat.le_refl _)
  · rw [hfinished.next_append]
    exact .error _

theorem confined_callOf (name : String) :
    Confined behind room (callOf fuel expression name) (callOf fuel' expression' name) := by
  intro lexemes hfinished hroom
  refine agrees_expect nofun hfinished (Nat.le_refl _) fun inside hinside hlt => ?_
  refine .bind (confined_callBody hfuel hfuel' hexpression name hinside (by omega))
    fun script rest hrest _ => ?_
  refine agrees_expect nofun hrest (Nat.le_refl _) fun rest' hrest' _ => ?_
  exact .ok hrest' (Nat.le_refl _)

omit hfuel hfuel' hexpression in
/-- A minus sign before anything but a number. -/
theorem primary_minus {rest : List Lexeme} (h : ∀ n, (next rest).token ≠ .number n) (fuel : Nat)
    (expression : Reader Script) (offset : Nat) :
    primary fuel expression (⟨.minus, offset⟩ :: rest) =
      if (next rest).token = .word "Infinity" then .ok (.literal (.number (.infinity true)), advance rest)
      else .error (unexpected .number rest) := by
  cases rest with
  | nil => rfl
  | cons lexeme rest =>
    obtain ⟨token, offset'⟩ := lexeme
    cases token with
    | number n => exact absurd rfl (h n)
    | _ => rfl

omit hfuel hfuel' hexpression in
theorem agrees_minus (offset : Nat) {rest : List Lexeme} (hrest : Finished rest) :
    Agrees behind rest.length (primary fuel expression (⟨.minus, offset⟩ :: rest))
      (primary fuel' expression' (⟨.minus, offset⟩ :: (rest ++ behind))) := by
  by_cases hnumber : ∃ n, (next rest).token = .number n
  · obtain ⟨n, hn⟩ := hnumber
    obtain ⟨token, offset', rest, rfl, hinside⟩ := hrest.exists_cons
    obtain rfl : token = .number n := hn
    exact .ok (hinside nofun) (Nat.le_succ _)
  · have hne : ∀ n, (next rest).token ≠ .number n := fun n hn => hnumber ⟨n, hn⟩
    rw [primary_minus hne, primary_minus (by rwa [hrest.next_append]), hrest.next_append,
      hrest.advance_append, hrest.unexpected_append]
    split
    · next hinfinity =>
      obtain ⟨hinside, hlt⟩ := hrest.advance (hinfinity ▸ nofun)
      exact .ok hinside (Nat.le_of_lt hlt)
    · exact .error _

theorem confined_primary : Confined behind room (primary fuel expression) (primary fuel' expression') := by
  intro lexemes hfinished hroom
  have hunexpected := hfinished.unexpected_append behind .expression
  obtain ⟨token, offset, rest, rfl, hrest⟩ := hfinished.exists_cons
  rw [List.length_cons] at hroom ⊢
  rw [List.cons_append] at hunexpected ⊢
  cases token with
  | number n => exact .ok (hrest (by simp)) (Nat.le_succ _)
  | text s => exact .ok (hrest (by simp)) (Nat.le_succ _)
  | minus => exact (agrees_minus offset (hrest (by simp))).mono (Nat.le_succ _)
  | word name =>
    simp only [primary]
    split
    · exact .ok (hrest (by simp)) (Nat.le_succ _)
    · exact (confined_callOf hfuel hfuel' hexpression name (hrest (by simp)) (by omega)).mono (Nat.le_succ _)
  | «open» =>
    refine (Agrees.bind (hexpression (hrest (by simp)) (by omega)) fun inner rest' hrest' _ => ?_).mono
      (Nat.le_succ _)
    refine agrees_expect (by decide) hrest' (Nat.le_refl _) fun rest'' hrest'' _ => ?_
    exact .ok hrest'' (Nat.le_refl _)
  | _ =>
    simp only [primary, hunexpected]
    exact .error _

variable {prefixed prefixed' : Reader Script} (hprefixed : Confined behind room prefixed prefixed')

include hprefixed

theorem confined_operand :
    Confined behind room (operand fuel prefixed expression) (operand fuel' prefixed' expression') := by
  intro lexemes hfinished hroom
  rw [operand, operand, hfinished.next_append, hfinished.advance_append]
  split
  · next hbang =>
    obtain ⟨hinside, hlt⟩ := hfinished.advance (by rw [hbang]; decide)
    refine .mono (.bind (hprefixed hinside (by omega)) fun inner rest hrest _ => ?_) (Nat.le_of_lt hlt)
    exact .ok hrest (Nat.le_refl _)
  · exact confined_primary hfuel hfuel' hexpression hfinished hroom

theorem confined_branches :
    Confined behind room (branches fuel prefixed expression) (branches fuel' prefixed' expression') := by
  intro lexemes hfinished hroom
  have hoperator : ∀ n {token op}, operator? n token = some op → token ≠ .finish :=
    fun n _ _ => ne_finish_of_operator
  have hoperand := confined_operand hfuel hfuel' hexpression hprefixed
  have hchains : Confined behind room (chains fuel (operand fuel prefixed expression))
      (chains fuel' (operand fuel' prefixed' expression')) :=
    confined_chain hfuel hfuel' (hoperator 2) (confined_chain hfuel hfuel' (hoperator 1)
      (confined_chain hfuel hfuel' (hoperator 0) hoperand))
  refine .bind (hchains hfinished hroom) fun condition rest hrest hle => ?_
  dsimp only
  rw [hrest.next_append, hrest.advance_append]
  split
  · next hquestion =>
    obtain ⟨hinside, hlt⟩ := hrest.advance (hquestion ▸ nofun)
    refine .mono (.bind (hexpression hinside (by omega)) fun whenTrue rest₁ hrest₁ hle₁ => ?_)
      (Nat.le_of_lt hlt)
    refine agrees_expect nofun hrest₁ (Nat.le_refl _) fun rest₂ hrest₂ hlt₂ => ?_
    dsimp only at hlt₂
    refine .bind (hexpression hrest₂ (by omega)) fun whenFalse rest₃ hrest₃ _ => ?_
    exact .ok hrest₃ (Nat.le_refl _)
  · exact .ok hrest (Nat.le_refl _)

end Nested

theorem confined_nested (nesting : Nat) :
    Confined behind room (nestedOperand fuel nesting) (nestedOperand fuel' nesting) ∧
      Confined behind room (nestedExpression fuel nesting) (nestedExpression fuel' nesting) := by
  induction nesting with
  | zero => exact ⟨fun _ _ _ => .error _, fun _ _ _ => .error _⟩
  | succ nesting ih =>
    obtain ⟨hprefixed, hexpression⟩ := ih
    refine ⟨fun lexemes hfinished hroom => ?_, fun lexemes hfinished hroom => ?_⟩
    · rw [nestedOperand, nestedOperand]
      exact confined_operand hfuel hfuel' hexpression hprefixed hfinished hroom
    · rw [nestedExpression, nestedExpression]
      exact confined_branches hfuel hfuel' hexpression hprefixed hfinished hroom

end Readers

/-- Tokens behind the last one make no difference. -/
theorem ofLexemes_append {lexemes : List Lexeme} (h : Finished lexemes) (nesting : Nat)
    (behind : List Lexeme) : ofLexemes nesting (lexemes ++ behind) = ofLexemes nesting lexemes := by
  have hlength : lexemes.length ≤ (lexemes ++ behind).length := by simp
  have hconfined : Confined behind lexemes.length (nestedExpression lexemes.length nesting)
      (nestedExpression (lexemes ++ behind).length nesting) :=
    (confined_nested (Nat.le_refl _) hlength nesting).2
  have hagrees := hconfined h (Nat.le_refl _)
  rw [ofLexemes, ofLexemes]
  generalize nestedExpression lexemes.length nesting lexemes = read at hagrees
  generalize nestedExpression (lexemes ++ behind).length nesting (lexemes ++ behind) = read' at hagrees
  cases hagrees with
  | ok hrest hroom =>
    simp only [bind, Except.bind, hrest.next_append, hrest.unexpected_append]
  | error fault => rfl

end Script

end Formulary
