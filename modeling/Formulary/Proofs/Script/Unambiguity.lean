import Formulary.Proofs.Reader
import Formulary.Proofs.Script.Grammar
import Mathlib.Data.List.Basic

/-!
# Scripts are unambiguous

Tokens are yielded by one derivation of an expression at most (`Derivation.unique`). A derivation is `Alone` if
tokens that start with what it yields, and end there, start with what no other derivation of the phrase yields.
The loops go from left to right, so chains and arguments are known by their parts (`Known`); a primary phrase
is known by its first tokens.
-/

namespace Formulary

namespace Script

open Reader

/-- What may come after a phrase that is not to go on. -/
def Closes : Phrase → Option Token → Prop
  | .level n, token => Stops n (token.getD .finish)
  | .primary, _ => True
  | .expression, token => Follows .expression (token.getD .finish)
  | .arguments, token => Follows .expression (token.getD .finish) ∧ token ≠ some .comma

/-- The derivation is known by its tokens, wherever they end. -/
def Alone {phrase : Phrase} (d : Derivation phrase) : Prop :=
  Parts.Alone Derivation.yield (Closes phrase) d

namespace Derivation

/-! ## Parts of chains and arguments -/

/-- The first part of a chain, and the others with their operators. -/
@[simp]
def chainParts : {n : Nat} → Derivation (.level (n + 1)) →
    Derivation (.level n) × List (Token × Derivation (.level n))
  | _, tighter _ inner => (inner, [])
  | _, binary _ token _ _ left right => (left.chainParts.1, left.chainParts.2 ++ [(token, right)])

/-- The arguments with their commas. -/
@[simp]
def argumentParts : Derivation .arguments → List (Token × Derivation .expression)
  | none => []
  | argument before last => before.argumentParts ++ [(.comma, last)]

theorem yield_chainParts : {n : Nat} → (d : Derivation (.level (n + 1))) →
    d.yield = d.chainParts.1.yield ++ Parts.separated yield d.chainParts.2
  | _, tighter _ inner => by
    rw [yield, chainParts]
    exact (List.append_nil _).symm
  | _, binary _ token _ _ left right => by
    rw [yield, chainParts, yield_chainParts left, Parts.separated_append, List.append_assoc]

theorem yield_argumentParts : (d : Derivation .arguments) →
    d.yield = Parts.separated yield d.argumentParts
  | none => by
    rw [yield, argumentParts]
    rfl
  | argument before last => by
    rw [yield, argumentParts, yield_argumentParts before, Parts.separated_append]

theorem operator_of_mem_chainParts : {n : Nat} → (d : Derivation (.level (n + 1))) →
    ∀ part ∈ d.chainParts.2, ∃ op, operator? n part.1 = some op
  | _, tighter _ inner, part, h => by
    rw [chainParts] at h
    exact nomatch h
  | _, binary _ token op hop left right, part, h => by
    rw [chainParts] at h
    rcases List.mem_append.1 h with h | h
    · exact operator_of_mem_chainParts left part h
    · exact ⟨op, by rw [List.mem_singleton.1 h, hop]⟩

theorem comma_of_mem_argumentParts : (d : Derivation .arguments) →
    ∀ part ∈ d.argumentParts, part.1 = .comma
  | none, part, h => by
    rw [argumentParts] at h
    exact nomatch h
  | argument before last, part, h => by
    rw [argumentParts] at h
    rcases List.mem_append.1 h with h | h
    · exact comma_of_mem_argumentParts before part h
    · rw [List.mem_singleton.1 h]

theorem chainParts_injective : {n : Nat} → (d d' : Derivation (.level (n + 1))) →
    d.chainParts = d'.chainParts → d = d'
  | _, tighter _ inner, tighter _ inner', h => by
    rw [chainParts, chainParts] at h
    rw [(Prod.mk.inj h).1]
  | _, tighter _ inner, binary _ token op _ left right, h => by
    rw [chainParts, chainParts] at h
    simp at h
  | _, binary _ token op _ left right, tighter _ inner, h => by
    rw [chainParts, chainParts] at h
    simp at h
  | _, binary _ token op hop left right, binary _ token' op' hop' left' right', h => by
    rw [chainParts, chainParts] at h
    obtain ⟨hfirst, hparts⟩ := Prod.mk.inj h
    obtain ⟨hbefore, hlast⟩ := List.append_inj' hparts rfl
    obtain ⟨rfl, rfl⟩ := Prod.mk.inj (List.cons.inj hlast).1
    obtain rfl := Option.some.inj (hop.symm.trans hop')
    rw [chainParts_injective left left' (Prod.ext hfirst hbefore)]

theorem argumentParts_injective : (d d' : Derivation .arguments) →
    d.argumentParts = d'.argumentParts → d = d'
  | none, none, _ => rfl
  | none, argument before last, h => by
    rw [argumentParts, argumentParts] at h
    simp at h
  | argument before last, none, h => by
    rw [argumentParts, argumentParts] at h
    simp at h
  | argument before last, argument before' last', h => by
    rw [argumentParts, argumentParts] at h
    obtain ⟨hbefore, hlast⟩ := List.append_inj' h rfl
    obtain ⟨-, rfl⟩ := Prod.mk.inj (List.cons.inj hlast).1
    rw [argumentParts_injective before before' hbefore]

end Derivation

section Alone

open Script.Derivation

theorem alone_chain {n : Nat} {d : Derivation (.level (n + 1))} (hfirst : Alone d.chainParts.1)
    (hmore : ∀ part ∈ d.chainParts.2, Alone part.2) : Alone d := by
  intro d' rest rest' h hrest hrest'
  have hends : ∀ token, (∃ op, operator? n token = some op) → Closes (.level n) (some token) :=
    fun token ⟨_, hop⟩ => stops_of_operator hop
  have hstop : ∀ {token : Option Token}, Closes (.level (n + 1)) token →
      ∀ t ∈ token, ¬ ∃ op, operator? n t = some op := by
    rintro _ hcloses t rfl ⟨op, hop⟩
    have hnone := hcloses n (Nat.lt_succ_self n)
    rw [Option.getD_some, hop] at hnone
    exact nomatch hnone
  rw [yield_chainParts d, yield_chainParts d'] at h
  obtain ⟨heq, hsame⟩ := Parts.unique_first hends (operator_of_mem_chainParts d)
    (operator_of_mem_chainParts d') hfirst hmore h (hrest.mono (Nat.le_succ n))
    (hrest'.mono (Nat.le_succ n)) (hstop hrest) (hstop hrest')
  exact ⟨chainParts_injective d d' heq, hsame⟩

theorem alone_arguments {d : Derivation .arguments} (hmore : ∀ part ∈ d.argumentParts, Alone part.2) :
    Alone d := by
  intro d' rest rest' h hrest hrest'
  have hends : ∀ token, token = .comma → Closes .expression (some token) :=
    fun _ htoken => follows_of_end (.inl htoken)
  have hstop : ∀ {token : Option Token}, token ≠ some .comma → ∀ t ∈ token, ¬ t = .comma := by
    rintro token hne t ht rfl
    exact hne ht
  rw [yield_argumentParts d, yield_argumentParts d'] at h
  obtain ⟨heq, hsame⟩ := Parts.unique hends (comma_of_mem_argumentParts d)
    (comma_of_mem_argumentParts d') hmore h hrest.1 hrest'.1 (hstop hrest.2) (hstop hrest'.2)
  exact ⟨argumentParts_injective d d' heq, hsame⟩

theorem alone_plain {condition : Derivation (.level 3)} (hcondition : Alone condition) :
    Alone (.plain condition) := by
  intro d' rest rest' h hrest hrest'
  cases d' with
  | plain condition' =>
    obtain ⟨rfl, htail⟩ := hcondition _ _ _ h hrest.1 hrest'.1
    exact ⟨rfl, htail⟩
  | conditional condition' whenTrue' whenFalse' =>
    simp only [yield, List.append_assoc, List.cons_append] at h
    obtain ⟨-, rfl⟩ := hcondition _ _ _ h hrest.1 stops_question
    exact absurd rfl hrest.2

theorem alone_conditional {condition : Derivation (.level 3)} {whenTrue whenFalse : Derivation .expression}
    (hcondition : Alone condition) (htrue : Alone whenTrue) (hfalse : Alone whenFalse) :
    Alone (.conditional condition whenTrue whenFalse) := by
  intro d' rest rest' h hrest hrest'
  have hcolon : Closes .expression (some .colon) := follows_of_end (.inr (.inr (.inl rfl)))
  cases d' with
  | plain condition' =>
    simp only [yield, List.append_assoc, List.cons_append] at h
    obtain ⟨-, rfl⟩ := hcondition _ _ _ h stops_question hrest'.1
    exact absurd rfl hrest'.2
  | conditional condition' whenTrue' whenFalse' =>
    simp only [yield, List.append_assoc, List.cons_append] at h
    obtain ⟨rfl, htail⟩ := hcondition _ _ _ h stops_question stops_question
    obtain ⟨rfl, htail'⟩ := htrue _ _ _ (List.cons.inj htail).2 hcolon hcolon
    obtain ⟨rfl, hsame⟩ := hfalse _ _ _ (List.cons.inj htail').2 hrest hrest'
    exact ⟨rfl, hsame⟩

theorem alone_not {operand : Derivation (.level 0)} (hoperand : Alone operand) : Alone (.not operand) := by
  intro d' rest rest' h hrest hrest'
  cases d' with
  | not operand' =>
    obtain ⟨rfl, hsame⟩ := hoperand _ _ _ (List.cons.inj h).2 hrest hrest'
    exact ⟨rfl, hsame⟩
  | tight inner =>
    obtain ⟨token, tokens, hyield, hne⟩ := exists_yield_primary inner
    simp only [yield, hyield, List.cons_append, List.cons.injEq] at h
    exact absurd h.1.symm hne

theorem alone_tight {inner : Derivation .primary} (hinner : Alone inner) : Alone (.tight inner) := by
  intro d' rest rest' h hrest hrest'
  cases d' with
  | not operand =>
    obtain ⟨token, tokens, hyield, hne⟩ := exists_yield_primary inner
    simp only [yield, hyield, List.cons_append, List.cons.injEq] at h
    exact absurd h.1 hne
  | tight inner' =>
    obtain ⟨rfl, hsame⟩ := hinner _ _ _ h trivial trivial
    exact ⟨rfl, hsame⟩

/-! ## Primary phrases -/

/-- The kinds of primary phrases. -/
inductive Kind where
  | number
  | negative
  | negativeInfinity
  | text
  | constant
  | parenthesized
  | variable
  | call
  | scale
  | operation
  | conversion

def Derivation.kind : Derivation .primary → Kind
  | number _ => .number
  | negative _ => .negative
  | negativeInfinity => .negativeInfinity
  | text _ => .text
  | constant .. => .constant
  | parenthesized _ => .parenthesized
  | .variable .. => .variable
  | call .. => .call
  | scale .. => .scale
  | operation .. => .operation
  | conversion .. => .conversion

/-- The kind of a primary phrase that starts with a word. -/
def kindOfWord (name : String) : Kind :=
  if (constant? name).isSome then .constant
  else if (operation? name).isSome then .operation
  else if (conversion? name).isSome then .conversion
  else if name = "var" then .variable
  else if name = "call" then .call
  else .scale

/-- The kind of a primary phrase is seen from its first two tokens. -/
def kindOf : List Token → Option Kind
  | .number _ :: _ => some .number
  | .minus :: .number _ :: _ => some .negative
  | .minus :: _ => some .negativeInfinity
  | .text _ :: _ => some .text
  | .word name :: _ => some (kindOfWord name)
  | .open :: _ => some .parenthesized
  | _ => none

theorem kindOf_yield (d : Derivation .primary) (rest : List Token) :
    kindOf (d.yield ++ rest) = some d.kind := by
  cases d with
  | constant name value hname =>
    simp [yield, kindOf, kindOfWord, Derivation.kind, hname]
  | operation name op hname =>
    simp [yield, kindOf, kindOfWord, Derivation.kind, hname, (constant?_of_operation hname).1]
  | conversion name op hname =>
    obtain ⟨hconstant, hoperation, -⟩ := constant?_of_conversion hname
    simp [yield, kindOf, kindOfWord, Derivation.kind, hname, hconstant, hoperation]
  | _ => rfl

theorem kind_eq {d d' : Derivation .primary} {rest rest' : List Token}
    (h : d.yield ++ rest = d'.yield ++ rest') : d.kind = d'.kind := by
  have hkind := kindOf_yield d rest
  rw [h, kindOf_yield d' rest'] at hkind
  exact (Option.some.inj hkind).symm

theorem alone_number (n : Number) : Alone (.number n) := by
  intro d' rest rest' h _ _
  cases d' with
  | number n' =>
    obtain ⟨hn, rfl⟩ := List.cons.inj h
    obtain rfl := Token.number.inj hn
    exact ⟨rfl, rfl⟩
  | _ => exact nomatch kind_eq h

theorem alone_negative (n : Number) : Alone (.negative n) := by
  intro d' rest rest' h _ _
  cases d' with
  | negative n' =>
    obtain ⟨hn, rfl⟩ := List.cons.inj (List.cons.inj h).2
    obtain rfl := Token.number.inj hn
    exact ⟨rfl, rfl⟩
  | _ => exact nomatch kind_eq h

theorem alone_negativeInfinity : Alone .negativeInfinity := by
  intro d' rest rest' h _ _
  cases d' with
  | negativeInfinity => exact ⟨rfl, (List.cons.inj (List.cons.inj h).2).2⟩
  | _ => exact nomatch kind_eq h

theorem alone_text (s : String) : Alone (.text s) := by
  intro d' rest rest' h _ _
  cases d' with
  | text s' =>
    obtain ⟨hs, rfl⟩ := List.cons.inj h
    obtain rfl := Token.text.inj hs
    exact ⟨rfl, rfl⟩
  | _ => exact nomatch kind_eq h

theorem alone_constant {name : String} {value : Value} (hname : constant? name = some value) :
    Alone (.constant name value hname) := by
  intro d' rest rest' h _ _
  cases d' with
  | constant name' value' hname' =>
    obtain ⟨heq, rfl⟩ := List.cons.inj h
    obtain rfl := Token.word.inj heq
    obtain rfl := Option.some.inj (hname.symm.trans hname')
    exact ⟨rfl, rfl⟩
  | _ => exact nomatch kind_eq h

theorem alone_parenthesized {inner : Derivation .expression} (hinner : Alone inner) :
    Alone (.parenthesized inner) := by
  intro d' rest rest' h _ _
  have hclose : Closes .expression (some .close) := follows_of_end (.inr (.inl rfl))
  cases d' with
  | parenthesized inner' =>
    simp only [yield, List.cons_append, List.append_assoc, List.nil_append, List.cons.injEq,
      true_and] at h
    obtain ⟨rfl, hsame⟩ := hinner _ _ _ h hclose hclose
    exact ⟨rfl, (List.cons.inj hsame).2⟩
  | _ => exact nomatch kind_eq h

/-! ## Calls -/

theorem separated_indices (indices : List Index) :
    indices.flatMap (fun index => [.comma, .number index.number]) =
      Parts.separated (fun index : Index => [Token.number index.number])
        (indices.map fun index => (.comma, index)) := by
  simp [Parts.separated, List.flatMap_map]

theorem indices_unique {indices indices' : List Index} {rest rest' : List Token}
    (h : indices.flatMap (fun index => [.comma, .number index.number]) ++ .close :: rest =
      indices'.flatMap (fun index => [.comma, .number index.number]) ++ .close :: rest') :
    indices = indices' ∧ rest = rest' := by
  have halone : ∀ index : Index,
      Parts.Alone (fun index : Index => [Token.number index.number]) (fun _ => True) index := by
    rintro ⟨n, i, hi⟩ ⟨n', i', hi'⟩ rest rest' h - -
    obtain ⟨hn, rfl⟩ := List.cons.inj h
    obtain rfl := Token.number.inj hn
    obtain rfl := Option.some.inj (hi.symm.trans hi')
    exact ⟨rfl, rfl⟩
  have hcommas : ∀ indices : List Index, ∀ part ∈ indices.map fun index => (Token.comma, index),
      part.1 = .comma := by
    intro indices part hpart
    obtain ⟨index, -, rfl⟩ := List.mem_map.1 hpart
    rfl
  have hclose : ∀ rest : List Token, ∀ token ∈ (.close :: rest : List Token).head?, ¬ token = .comma := by
    intro rest token htoken
    obtain rfl := Option.some.inj htoken
    exact nofun
  rw [separated_indices, separated_indices] at h
  have hends : ∀ token : Token, token = .comma → (fun _ : Option Token => True) (some token) :=
    fun _ _ => trivial
  obtain ⟨heq, hsame⟩ := Parts.unique hends (hcommas indices) (hcommas indices')
    (fun part _ => halone part.2) h trivial trivial (hclose rest) (hclose rest')
  refine ⟨List.map_injective_iff.2 (fun index index' h => (Prod.mk.inj h).2) heq, (List.cons.inj hsame).2⟩

/-- Two expressions between a parenthesis and its end. -/
theorem pair_unique {left left' right right' : Derivation .expression} (hleft : Alone left)
    (hright : Alone right) {rest rest' : List Token}
    (h : left.yield ++ .comma :: (right.yield ++ .close :: rest) =
      left'.yield ++ .comma :: (right'.yield ++ .close :: rest')) :
    left = left' ∧ right = right' ∧ rest = rest' := by
  have hcomma : Closes .expression (some .comma) := follows_of_end (.inl rfl)
  have hclose : Closes .expression (some .close) := follows_of_end (.inr (.inl rfl))
  obtain ⟨rfl, htail⟩ := hleft _ _ _ h hcomma hcomma
  obtain ⟨rfl, hsame⟩ := hright _ _ _ (List.cons.inj htail).2 hclose hclose
  exact ⟨rfl, rfl, (List.cons.inj hsame).2⟩

theorem alone_variable (name : String) (indices : List Index) : Alone (.variable name indices) := by
  intro d' rest rest' h _ _
  cases d' with
  | «variable» name' indices' =>
    simp only [yield, List.cons_append, List.append_assoc, List.nil_append, List.cons.injEq, true_and,
      Token.text.injEq] at h
    obtain ⟨rfl, htail⟩ := h
    obtain ⟨rfl, rfl⟩ := indices_unique htail
    exact ⟨rfl, rfl⟩
  | _ => exact nomatch kind_eq h

theorem alone_call (name : String) {args : Derivation .arguments} (hargs : Alone args) :
    Alone (.call name args) := by
  intro d' rest rest' h _ _
  have hclose : Closes .arguments (some .close) := ⟨follows_of_end (.inr (.inl rfl)), nofun⟩
  cases d' with
  | call name' args' =>
    simp only [yield, List.cons_append, List.append_assoc, List.nil_append, List.cons.injEq, true_and,
      Token.text.injEq] at h
    obtain ⟨rfl, htail⟩ := h
    obtain ⟨rfl, hsame⟩ := hargs _ _ _ htail hclose hclose
    exact ⟨rfl, (List.cons.inj hsame).2⟩
  | _ => exact nomatch kind_eq h

theorem alone_scale (symbol : String) {left right : Derivation .expression} (hleft : Alone left)
    (hright : Alone right) : Alone (.scale symbol left right) := by
  intro d' rest rest' h _ _
  cases d' with
  | scale symbol' left' right' =>
    simp only [yield, List.cons_append, List.append_assoc, List.nil_append, List.cons.injEq, true_and,
      Token.text.injEq] at h
    obtain ⟨rfl, htail⟩ := h
    obtain ⟨rfl, rfl, rfl⟩ := pair_unique hleft hright htail
    exact ⟨rfl, rfl⟩
  | _ => exact nomatch kind_eq h

theorem alone_operation {name : String} {op : BinaryOperator} (hname : operation? name = some op)
    {left right : Derivation .expression} (hleft : Alone left) (hright : Alone right) :
    Alone (.operation name op hname left right) := by
  intro d' rest rest' h _ _
  cases d' with
  | operation name' op' hname' left' right' =>
    simp only [yield, List.cons_append, List.append_assoc, List.nil_append, List.cons.injEq, true_and,
      Token.word.injEq] at h
    obtain ⟨rfl, htail⟩ := h
    obtain rfl := Option.some.inj (hname.symm.trans hname')
    obtain ⟨rfl, rfl, rfl⟩ := pair_unique hleft hright htail
    exact ⟨rfl, rfl⟩
  | _ => exact nomatch kind_eq h

theorem alone_conversion {name : String} {op : UnaryOperator} (hname : conversion? name = some op)
    {operand : Derivation .expression} (hoperand : Alone operand) :
    Alone (.conversion name op hname operand) := by
  intro d' rest rest' h _ _
  have hclose : Closes .expression (some .close) := follows_of_end (.inr (.inl rfl))
  cases d' with
  | conversion name' op' hname' operand' =>
    simp only [yield, List.cons_append, List.append_assoc, List.nil_append, List.cons.injEq, true_and,
      Token.word.injEq] at h
    obtain ⟨rfl, htail⟩ := h
    obtain rfl := Option.some.inj (hname.symm.trans hname')
    obtain ⟨rfl, hsame⟩ := hoperand _ _ _ htail hclose hclose
    exact ⟨rfl, (List.cons.inj hsame).2⟩
  | _ => exact nomatch kind_eq h

/-- What the induction over derivations shows: a chain and arguments are known by their parts. -/
def Known : {phrase : Phrase} → Derivation phrase → Prop
  | .level (_ + 1), d => Alone d.chainParts.1 ∧ ∀ part ∈ d.chainParts.2, Alone part.2
  | .arguments, d => ∀ part ∈ d.argumentParts, Alone part.2
  | .expression, d | .level 0, d | .primary, d => Alone d

theorem Known.alone : {phrase : Phrase} → {d : Derivation phrase} → Known d → Alone d
  | .level (_ + 1), _, h => alone_chain h.1 h.2
  | .arguments, _, h => alone_arguments h
  | .expression, _, h | .level 0, _, h | .primary, _, h => h

theorem known {phrase : Phrase} (d : Derivation phrase) : Known d := by
  induction d with
  | plain condition ih => exact alone_plain ih.alone
  | conditional condition whenTrue whenFalse ihc iht ihf => exact alone_conditional ihc.alone iht ihf
  | tighter n inner ih =>
    rw [Known, chainParts]
    exact ⟨ih.alone, fun _ h => absurd h List.not_mem_nil⟩
  | binary n token op hop left right ihl ihr =>
    rw [Known, chainParts]
    refine ⟨ihl.1, fun part hpart => ?_⟩
    rcases List.mem_append.1 hpart with h | h
    · exact ihl.2 part h
    · exact List.mem_singleton.1 h ▸ ihr.alone
  | not operand ih => exact alone_not ih
  | tight inner ih => exact alone_tight ih
  | number n => exact alone_number n
  | negative n => exact alone_negative n
  | negativeInfinity => exact alone_negativeInfinity
  | text s => exact alone_text s
  | constant name value hname => exact alone_constant hname
  | parenthesized inner ih => exact alone_parenthesized ih
  | «variable» name indices => exact alone_variable name indices
  | call name args ih => exact alone_call name ih.alone
  | scale symbol left right ihl ihr => exact alone_scale symbol ihl ihr
  | operation name op hname left right ihl ihr => exact alone_operation hname ihl ihr
  | conversion name op hname operand ih => exact alone_conversion hname ih
  | none =>
    rw [Known, argumentParts]
    exact fun _ h => absurd h List.not_mem_nil
  | argument before last ihb ihl =>
    rw [Known, argumentParts]
    intro part hpart
    rcases List.mem_append.1 hpart with h | h
    · exact ihb part h
    · exact List.mem_singleton.1 h ▸ ihl

end Alone

/-- **Unambiguity.** Tokens are yielded by one derivation at most. -/
theorem Derivation.unique {d d' : Derivation .expression} (h : d.yield = d'.yield) : d = d' := by
  have hcloses : Closes .expression (Option.none : Option Token) := follows_of_end (.inr (.inr (.inr rfl)))
  exact ((known d).alone d' [] [] (by rw [h]) hcloses hcloses).1

end Script

end Formulary
