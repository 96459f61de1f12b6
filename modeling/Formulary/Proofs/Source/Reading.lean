import Formulary.Proofs.Source.Lexical
import Formulary.Proofs.Source.Soundness

/-!
# The formulas that are read

The tokens of a derivation that does not nest too deep are read as what it means, before tokens that cannot go
on with it (`Complete`). With the derivations of what is read, a text is accepted if and only if its tokens
are derived.

The readers of chains and arguments go on from left to right, so the induction says of such a phrase what is
left for its loop to do (`ReadsAs`).
-/

namespace Formulary

namespace Parser

open Parser.Derivation

variable {finish : Nat}

/-! ## Tokens ahead -/

theorem advance_finish (lexemes : List Lexeme) :
    advance (.finish finish) lexemes = .ok lexemes.tail := by
  rw [advance, arrive]
  exact fun _ _ h => nomatch h

theorem exists_cons_of_tokensOf {lexemes : List Lexeme} {token : Token} {tokens : List Token}
    (h : tokensOf lexemes = token :: tokens) : ∃ offset source width rest,
      lexemes = ⟨token, offset, source, width⟩ :: rest ∧ tokensOf rest = tokens := by
  obtain ⟨lexeme, rest, rfl, rfl, rfl⟩ := List.map_eq_cons_iff.1 h
  exact ⟨lexeme.offset, lexeme.source, lexeme.width, rest, rfl, rfl⟩

theorem isNext_eq_false {token : Token} {lexemes : List Lexeme}
    (h : (tokensOf lexemes).head? ≠ some token) : isNext token lexemes = false := by
  cases lexemes with
  | nil => rfl
  | cons lexeme rest => simpa [isNext, tokensOf] using h

theorem isNext_cons (token : Token) (offset : Nat) (source : List Char) (width : Nat)
    (rest : List Lexeme) : isNext token (⟨token, offset, source, width⟩ :: rest) = true := by
  simp [isNext]

theorem expect_cons (token : Token) (expected : Expected) (offset : Nat) (source : List Char)
    (width : Nat) (rest : List Lexeme) :
    expect (.finish finish) token expected (⟨token, offset, source, width⟩ :: rest) = .ok rest := by
  rw [expect, if_pos (isNext_cons ..), advance_finish, List.tail_cons]

theorem nextOperator?_eq_none {candidates : List BinaryOperator} {lexemes : List Lexeme}
    (h : ∀ op ∈ candidates, (tokensOf lexemes).head? ≠ some (.operator op)) :
    nextOperator? candidates lexemes = none := by
  cases hnext : nextOperator? candidates lexemes with
  | none => rfl
  | some op =>
    obtain ⟨hop, htokens⟩ := nextOperator?_some hnext
    exact absurd (htokens ▸ rfl) (h op hop)

theorem nextPrefix?_eq_none {lexemes : List Lexeme}
    (h : ∀ op, (tokensOf lexemes).head? ≠ some (prefixToken op)) : nextPrefix? lexemes = none := by
  cases hnext : nextPrefix? lexemes with
  | none => rfl
  | some op => exact absurd (nextPrefix?_some hnext ▸ rfl) (h op)

theorem nextPrefix?_cons (op : UnaryOperator) (offset : Nat) (source : List Char) (width : Nat)
    (rest : List Lexeme) : nextPrefix? (⟨prefixToken op, offset, source, width⟩ :: rest) = some op := by
  cases op <;> rfl

/-- What may come after a phrase for it to be read so far: a chain and arguments may go on. -/
def Follows : Phrase → Option Token → Prop
  | .level n, token => Stops (n - 1) token
  | .arguments, token => Ends .conditional token
  | .conditional, token => Ends .conditional token
  | .power, token => Ends .power token
  | .primary, token => Ends .primary token

/-- The tokens that end a conditional. -/
theorem ends_conditional {token : Token} (h : token = .comma ∨ token = .close ∨ token = .colon) :
    Ends .conditional (some token) := by
  rcases h with rfl | rfl | rfl <;> exact ⟨stops_of_ne nofun nofun, nofun⟩

/-! ## Reading derivations -/

/-- How many times the loop over a chain or over arguments goes round. -/
@[simp]
def rounds : {phrase : Phrase} → Derivation phrase → Nat
  | _, .binary _ _ _ left _ => rounds left + 1
  | _, .argument before _ => rounds before + 1
  | _, _ => 0

theorem rounds_le_length {phrase : Phrase} (d : Derivation phrase) : rounds d ≤ d.yield.length := by
  induction d with
  | binary n op hop left right ihl ihr => simp [rounds, yield]; omega
  | argument before last ihb ihl => simp [rounds, yield]; omega
  | _ => exact Nat.zero_le _

/-- The phrase is read up to `after`; a chain or arguments, as far as the rounds of the loop that have
been made. -/
def ReadsAs (finish fuel nesting rounds : Nat) :
    (phrase : Phrase) → phrase.Meaning → (before after : List Lexeme) → Prop
  | .conditional, x, before, after =>
    nestedConditional (.finish finish) fuel nesting before = .ok (x, after)
  | .level 0, x, before, after => readLevel (.finish finish) fuel nesting 0 before = .ok (x, after)
  | .level (n + 1), x, before, after =>
    readLevel (.finish finish) fuel nesting (n + 1) before =
      chainFrom (.finish finish) (operators n) (readLevel (.finish finish) fuel nesting n)
        (fuel - rounds) x after
  | .power, x, before, after => readLevel (.finish finish) fuel nesting 0 before = .ok (x, after)
  | .primary, x, before, after =>
    primary (.finish finish) fuel (nestedConditional (.finish finish) fuel nesting) before =
      .ok (x, after)
  | .arguments, xs, before, after =>
    (nestedConditional (.finish finish) fuel nesting before >>= fun (x, lexemes) =>
      argumentsFrom (.finish finish) (nestedConditional (.finish finish) fuel nesting) fuel [x]
        lexemes) =
      argumentsFrom (.finish finish) (nestedConditional (.finish finish) fuel nesting)
        (fuel - rounds) xs after

/-- Derivations that do not nest too deep are read. -/
def Complete {phrase : Phrase} (d : Derivation phrase) : Prop :=
  ∀ (finish fuel nesting : Nat) {before : List Lexeme} {rest : List Token},
    d.nesting ≤ nesting → d.yield.length ≤ fuel → tokensOf before = d.yield ++ rest →
    Follows phrase rest.head? →
    ∃ after, tokensOf after = rest ∧ ReadsAs finish fuel nesting (rounds d) phrase d.meaning before after

theorem chainFrom_stop {candidates : List BinaryOperator} {part : Reader Expr} {lexemes : List Lexeme}
    (h : nextOperator? candidates lexemes = none) (fuel : Nat) (x : Expr) :
    chainFrom (.finish finish) candidates part fuel x lexemes = .ok (x, lexemes) := by
  cases fuel with
  | zero => rfl
  | succ fuel => rw [chainFrom, h]

theorem argumentsFrom_stop {conditional : Reader Expr} {lexemes : List Lexeme}
    (h : isNext .comma lexemes = false) (fuel : Nat) (xs : List Expr) :
    argumentsFrom (.finish finish) conditional fuel xs lexemes = .ok (xs, lexemes) := by
  cases fuel with
  | zero => rfl
  | succ fuel => rw [argumentsFrom, h, if_neg Bool.false_ne_true]

/-- A level is read to its end if no operator follows. -/
theorem readLevel_of_readsAs {fuel nesting rounds n : Nat} {x : Expr} {before after : List Lexeme}
    (h : ReadsAs finish fuel nesting rounds (.level n) x before after)
    (hstop : Stops n (tokensOf after).head?) :
    readLevel (.finish finish) fuel nesting n before = .ok (x, after) := by
  cases n with
  | zero => exact h
  | succ n =>
    have hnone := nextOperator?_eq_none (hstop.ne_operator n (Nat.lt_succ_self n))
    exact Eq.trans h (chainFrom_stop hnone _ _)

/-- A level before an operator or the end, read whole. -/
theorem Complete.level {n : Nat} {d : Derivation (.level n)} (h : Complete d)
    (finish fuel nesting : Nat)
    {before : List Lexeme} {rest : List Token} (hnesting : d.nesting ≤ nesting)
    (hfuel : d.yield.length ≤ fuel) (hbefore : tokensOf before = d.yield ++ rest)
    (hstop : Stops n rest.head?) : ∃ after, tokensOf after = rest ∧
      readLevel (.finish finish) fuel nesting n before = .ok (d.meaning, after) := by
  obtain ⟨after, rfl, hreads⟩ :=
    h finish fuel nesting hnesting hfuel hbefore (hstop.mono (Nat.sub_le n 1))
  exact ⟨after, rfl, readLevel_of_readsAs hreads hstop⟩

/-- A conditional before one of the tokens that end it. -/
theorem Complete.conditional {d : Derivation .conditional} (h : Complete d)
    (finish fuel nesting : Nat)
    {before : List Lexeme} {token : Token} {rest : List Token} (hnesting : d.nesting ≤ nesting)
    (hfuel : d.yield.length ≤ fuel) (hbefore : tokensOf before = d.yield ++ token :: rest)
    (htoken : token = .comma ∨ token = .close ∨ token = .colon) :
    ∃ offset source width after, tokensOf after = rest ∧
      nestedConditional (.finish finish) fuel nesting before =
        .ok (d.meaning, ⟨token, offset, source, width⟩ :: after) := by
  obtain ⟨after, hafter, hreads⟩ :=
    h finish fuel nesting hnesting hfuel hbefore (ends_conditional htoken)
  obtain ⟨offset, source, width, after, rfl, hrest⟩ := exists_cons_of_tokensOf hafter
  exact ⟨offset, source, width, after, hrest, hreads⟩

section Cases

variable {n : Nat}

theorem complete_plain {condition : Derivation (.level 6)} (h : Complete condition) :
    Complete (.plain condition) := by
  intro finish fuel nesting before rest hnesting hfuel hbefore hfollows
  obtain ⟨nesting, rfl⟩ : ∃ k, nesting = k + 1 :=
    ⟨nesting - 1, by rw [Derivation.nesting] at hnesting; omega⟩
  rw [Derivation.nesting] at hnesting
  obtain ⟨after, rfl, hread⟩ := h.level finish fuel nesting (by omega) hfuel hbefore hfollows.1
  refine ⟨after, rfl, ?_⟩
  have hchains : chains (.finish finish) fuel (readLevel (.finish finish) fuel nesting 0) before =
      .ok (condition.meaning, after) := hread
  show branches _ fuel _ _ before = _
  rw [readLevel] at hchains
  simp only [branches, hchains, isNext_eq_false hfollows.2, bind, Except.bind]
  rfl

theorem complete_conditional {condition : Derivation (.level 6)}
    {whenTrue whenFalse : Derivation .conditional} (hcondition : Complete condition)
    (htrue : Complete whenTrue) (hfalse : Complete whenFalse) :
    Complete (.conditional condition whenTrue whenFalse) := by
  intro finish fuel nesting before rest hnesting hfuel hbefore hfollows
  obtain ⟨nesting, rfl⟩ : ∃ k, nesting = k + 1 :=
    ⟨nesting - 1, by rw [Derivation.nesting] at hnesting; omega⟩
  rw [Derivation.nesting] at hnesting
  simp only [yield, List.length_append, List.length_cons] at hfuel
  simp only [yield, List.append_assoc, List.cons_append] at hbefore
  obtain ⟨after, hafter, hread⟩ := hcondition.level finish fuel nesting (by omega) (by omega)
    hbefore (stops_of_ne nofun nofun)
  obtain ⟨offset, source, width, inside, rfl, hinside⟩ := exists_cons_of_tokensOf hafter
  obtain ⟨offset', source', width', after', hafter', hread'⟩ :=
    htrue.conditional finish fuel nesting (by omega) (by omega) hinside (.inr (.inr rfl))
  obtain ⟨after'', hafter'', hread''⟩ :=
    hfalse finish fuel nesting (by omega) (by omega) hafter' hfollows
  refine ⟨after'', hafter'', ?_⟩
  have hchains : chains (.finish finish) fuel (readLevel (.finish finish) fuel nesting 0) before =
      .ok (condition.meaning, ⟨.question, offset, source, width⟩ :: inside) := hread
  have hwhenFalse : nestedConditional (.finish finish) fuel nesting after' =
    .ok (whenFalse.meaning, after'') := hread''
  show branches _ fuel _ _ before = _
  rw [readLevel] at hchains
  simp only [branches, hchains, isNext_cons, advance_finish, List.tail_cons, hread', expect_cons,
    hwhenFalse, bind, Except.bind, ↓reduceIte]
  rfl

theorem complete_tighter {inner : Derivation (.level n)} (h : Complete inner) :
    Complete (.tighter n inner) := by
  intro finish fuel nesting before rest hnesting hfuel hbefore hfollows
  obtain ⟨after, hafter, hread⟩ := h.level finish fuel nesting hnesting hfuel hbefore hfollows
  refine ⟨after, hafter, ?_⟩
  show readLevel _ fuel nesting (n + 1) before = _
  rw [readLevel, chain, hread]
  rfl

theorem nextOperator?_cons {op : BinaryOperator} (hop : op ∈ operators n) (offset : Nat)
    (source : List Char) (width : Nat) (rest : List Lexeme) :
    nextOperator? (operators n) (⟨.operator op, offset, source, width⟩ :: rest) = some op := by
  rw [nextOperator?, if_pos (List.contains_iff_mem.2 hop)]

theorem complete_binary {op : BinaryOperator} (hop : op ∈ operators n)
    {left : Derivation (.level (n + 1))} {right : Derivation (.level n)} (hleft : Complete left)
    (hright : Complete right) : Complete (.binary n op hop left right) := by
  intro finish fuel nesting before rest hnesting hfuel hbefore hfollows
  have hrounds := rounds_le_length left
  rw [Derivation.nesting] at hnesting
  simp only [yield, List.length_append, List.length_cons] at hfuel
  simp only [yield, List.append_assoc, List.cons_append] at hbefore
  obtain ⟨middle, hmiddle, hread⟩ :=
    hleft finish fuel nesting (by omega) (by omega) hbefore (stops_operator hop)
  obtain ⟨offset, source, width, inside, rfl, hinside⟩ := exists_cons_of_tokensOf hmiddle
  obtain ⟨after, hafter, hread'⟩ :=
    hright.level finish fuel nesting (by omega) (by omega) hinside hfollows
  refine ⟨after, hafter, ?_⟩
  -- the left part has used one round for each of its operators, and this one has another
  have hspare : fuel - rounds left = fuel - (rounds left + 1) + 1 := by omega
  refine Eq.trans hread ?_
  rw [hspare, chainFrom]
  simp only [nextOperator?_cons hop, advance_finish, List.tail_cons, hread', bind, Except.bind]
  rfl

theorem complete_tight {inner : Derivation .power} (h : Complete inner) : Complete (.tight inner) := h

theorem complete_unary (op : UnaryOperator) {inner : Derivation (.level 0)} (h : Complete inner) :
    Complete (.unary op inner) := by
  intro finish fuel nesting before rest hnesting hfuel hbefore hfollows
  obtain ⟨nesting, rfl⟩ : ∃ k, nesting = k + 1 :=
    ⟨nesting - 1, by rw [Derivation.nesting] at hnesting; omega⟩
  rw [Derivation.nesting] at hnesting
  simp only [yield, List.length_cons] at hfuel
  obtain ⟨offset, source, width, inside, rfl, hinside⟩ := exists_cons_of_tokensOf hbefore
  obtain ⟨after, hafter, hread⟩ := h finish fuel nesting (by omega) (by omega) hinside hfollows
  refine ⟨after, hafter, ?_⟩
  have hinner : nestedOperand (.finish finish) fuel (nesting + 1) inside =
    .ok (inner.meaning, after) := hread
  show operand _ fuel _ _ _ = _
  simp only [operand, nextPrefix?_cons, advance_finish, List.tail_cons, hinner, bind, Except.bind]
  rfl

/-- Where a primary phrase starts there is no prefix. -/
theorem nextPrefix?_of_yield {phrase : Phrase} {d : Derivation phrase} {before : List Lexeme}
    {rest : List Token} (hstarts : ∀ token, Starts phrase token → ∀ op, token ≠ prefixToken op)
    (hbefore : tokensOf before = d.yield ++ rest) : nextPrefix? before = none := by
  obtain ⟨token, tokens, hyield, htoken⟩ := d.yield_starts
  refine nextPrefix?_eq_none fun op => ?_
  rw [hbefore, hyield]
  exact fun h => hstarts token htoken op (Option.some.inj h)

theorem complete_bare {inner : Derivation .primary} (h : Complete inner) : Complete (.bare inner) := by
  intro finish fuel nesting before rest hnesting hfuel hbefore hfollows
  obtain ⟨after, rfl, hread⟩ := h finish fuel nesting hnesting hfuel hbefore hfollows.ne_open
  refine ⟨after, rfl, ?_⟩
  have hnone := nextPrefix?_of_yield (d := inner) (fun _ h => h.2) hbefore
  have hprimary : primary (.finish finish) fuel (nestedConditional (.finish finish) fuel nesting) before =
    .ok (inner.meaning, after) := hread
  show operand _ fuel _ _ before = _
  simp only [operand, hnone, hprimary, isNext_eq_false hfollows.ne_power, bind, Except.bind]
  rfl

theorem complete_power {base : Derivation .primary} {exponent : Derivation (.level 0)}
    (hbase : Complete base) (hexponent : Complete exponent) : Complete (.power base exponent) := by
  intro finish fuel nesting before rest hnesting hfuel hbefore hfollows
  rw [Derivation.nesting] at hnesting
  obtain ⟨nesting, rfl⟩ : ∃ k, nesting = k + 1 := ⟨nesting - 1, by omega⟩
  simp only [yield, List.length_append, List.length_cons] at hfuel
  simp only [yield, List.append_assoc, List.cons_append] at hbefore
  have hnone := nextPrefix?_of_yield (d := base) (fun _ h => h.2) hbefore
  obtain ⟨middle, hmiddle, hread⟩ := hbase finish fuel (nesting + 1) (by omega) (by omega) hbefore nofun
  obtain ⟨offset, source, width, inside, rfl, hinside⟩ := exists_cons_of_tokensOf hmiddle
  obtain ⟨after, hafter, hread'⟩ := hexponent finish fuel nesting (by omega) (by omega) hinside hfollows
  refine ⟨after, hafter, ?_⟩
  have hprimary : primary (.finish finish) fuel (nestedConditional (.finish finish) fuel (nesting + 1))
    before = .ok (base.meaning, ⟨.operator .power, offset, source, width⟩ :: inside) := hread
  have hinner : nestedOperand (.finish finish) fuel (nesting + 1) inside =
    .ok (exponent.meaning, after) := hread'
  show operand _ fuel _ _ before = _
  simp only [operand, hnone, hprimary, isNext_cons, advance_finish, List.tail_cons, hinner, bind,
    Except.bind, ↓reduceIte]
  rfl

/-- A primary phrase of one token. -/
theorem complete_content {d : Derivation .primary} {token : Token} (hyield : d.yield = [token])
    (hread : ∀ {finish fuel conditional offset source width} {rest : List Lexeme},
      isNext .open rest = false →
      primary (.finish finish) fuel conditional (⟨token, offset, source, width⟩ :: rest) =
        .ok (d.meaning, rest)) : Complete d := by
  intro finish fuel nesting before rest _ _ hbefore hfollows
  rw [hyield] at hbefore
  obtain ⟨offset, source, width, after, rfl, rfl⟩ := exists_cons_of_tokensOf hbefore
  exact ⟨after, rfl, hread (isNext_eq_false hfollows)⟩

theorem complete_number (x : Number) : Complete (.number x) := by
  refine complete_content rfl fun _ => ?_
  simp only [primary, advance_finish, List.tail_cons]
  rfl

theorem complete_text (s : String) : Complete (.text s) := by
  refine complete_content rfl fun _ => ?_
  simp only [primary, advance_finish, List.tail_cons]
  rfl

theorem complete_boolean (b : Bool) : Complete (.boolean b) := by
  refine complete_content rfl fun _ => ?_
  simp only [primary, advance_finish, List.tail_cons]
  rfl

theorem complete_variable (name : String) : Complete (.variable name) := by
  refine complete_content rfl fun hopen => ?_
  simp only [primary, advance_finish, List.tail_cons, bind, Except.bind, hopen]
  rfl

theorem complete_parenthesized {inner : Derivation .conditional} (h : Complete inner) :
    Complete (.parenthesized inner) := by
  intro finish fuel nesting before rest hnesting hfuel hbefore _
  simp only [yield, List.length_append, List.length_cons] at hfuel
  simp only [yield, List.cons_append, List.append_assoc, List.nil_append] at hbefore
  obtain ⟨offset, source, width, inside, rfl, hinside⟩ := exists_cons_of_tokensOf hbefore
  obtain ⟨offset', source', width', after, hafter, hread⟩ :=
    h.conditional finish fuel nesting hnesting (by omega) hinside (.inr (.inl rfl))
  refine ⟨after, hafter, ?_⟩
  show primary _ fuel _ _ = _
  simp only [primary, advance_finish, List.tail_cons, hread, expect_cons, bind, Except.bind]
  rfl

theorem complete_emptyCall (name : String) : Complete (.emptyCall name) := by
  intro finish fuel nesting before rest _ _ hbefore _
  obtain ⟨offset, source, width, inside, rfl, hopen⟩ := exists_cons_of_tokensOf hbefore
  obtain ⟨offset', source', width', inside, rfl, hclose⟩ := exists_cons_of_tokensOf hopen
  obtain ⟨offset'', source'', width'', after, rfl, hafter⟩ := exists_cons_of_tokensOf hclose
  refine ⟨after, hafter, ?_⟩
  show primary _ fuel _ _ = _
  simp only [primary, advance_finish, List.tail_cons, isNext_cons, arguments, expect_cons, bind,
    Except.bind, ↓reduceIte]
  rfl

theorem arguments_eq {ending : Ending} {conditional : Reader Expr} {lexemes : List Lexeme} (fuel : Nat)
    (hclose : isNext .close lexemes = false) :
    arguments ending fuel conditional lexemes =
      ((conditional lexemes >>= fun (x, lexemes) =>
        argumentsFrom ending conditional fuel [x] lexemes) >>= fun (args, lexemes) => do
          .ok (args, ← expect ending .close .closeParen lexemes)) := by
  rw [arguments, hclose, if_neg Bool.false_ne_true]
  cases conditional lexemes <;> rfl

theorem complete_call (name : String) {args : Derivation .arguments} (h : Complete args) :
    Complete (.call name args) := by
  intro finish fuel nesting before rest hnesting hfuel hbefore _
  simp only [yield, List.length_append, List.length_cons] at hfuel
  simp only [yield, List.cons_append, List.append_assoc, List.nil_append] at hbefore
  obtain ⟨offset, source, width, inside, rfl, hopen⟩ := exists_cons_of_tokensOf hbefore
  obtain ⟨offset', source', width', inside, rfl, hargs⟩ := exists_cons_of_tokensOf hopen
  obtain ⟨after, hafter, hread⟩ :=
    h finish fuel nesting hnesting (by omega) hargs (ends_conditional (.inr (.inl rfl)))
  obtain ⟨offset'', source'', width'', after, rfl, hrest⟩ := exists_cons_of_tokensOf hafter
  refine ⟨after, hrest, ?_⟩
  have hclose : isNext .close inside = false := by
    obtain ⟨token, tokens, hyield, hstarts⟩ := args.yield_starts
    refine isNext_eq_false ?_
    rw [hargs, hyield]
    exact fun h => hstarts (Option.some.inj h)
  have harguments := Eq.trans hread (argumentsFrom_stop (by rfl) _ _)
  have hbody : arguments (.finish finish) fuel (nestedConditional (.finish finish) fuel nesting) inside =
      .ok (args.meaning, after) := by
    rw [arguments_eq fuel hclose, harguments]
    simp only [expect_cons, bind, Except.bind]
  show primary _ fuel _ _ = _
  simp only [primary, advance_finish, List.tail_cons, isNext_cons, hbody, bind, Except.bind, ↓reduceIte]
  rfl

theorem complete_first {arg : Derivation .conditional} (h : Complete arg) : Complete (.first arg) := by
  intro finish fuel nesting before rest hnesting hfuel hbefore hfollows
  obtain ⟨after, hafter, hread⟩ := h finish fuel nesting hnesting hfuel hbefore hfollows
  refine ⟨after, hafter, ?_⟩
  have hconditional : nestedConditional (.finish finish) fuel nesting before =
    .ok (arg.meaning, after) := hread
  show (_ >>= _) = _
  rw [hconditional]
  rfl

theorem complete_argument {args : Derivation .arguments} {last : Derivation .conditional}
    (hargs : Complete args) (hlast : Complete last) : Complete (.argument args last) := by
  intro finish fuel nesting before rest hnesting hfuel hbefore hfollows
  have hrounds := rounds_le_length args
  rw [Derivation.nesting] at hnesting
  simp only [yield, List.length_append, List.length_cons] at hfuel
  simp only [yield, List.append_assoc, List.cons_append] at hbefore
  obtain ⟨middle, hmiddle, hread⟩ :=
    hargs finish fuel nesting (by omega) (by omega) hbefore (ends_conditional (.inl rfl))
  obtain ⟨offset, source, width, inside, rfl, hinside⟩ := exists_cons_of_tokensOf hmiddle
  obtain ⟨after, hafter, hread'⟩ := hlast finish fuel nesting (by omega) (by omega) hinside hfollows
  refine ⟨after, hafter, ?_⟩
  have hspare : fuel - rounds args = fuel - (rounds args + 1) + 1 := by omega
  have hconditional : nestedConditional (.finish finish) fuel nesting inside =
    .ok (last.meaning, after) := hread'
  refine Eq.trans hread ?_
  rw [hspare, argumentsFrom]
  simp only [isNext_cons, advance_finish, List.tail_cons, hconditional, bind, Except.bind, ↓reduceIte]
  rfl

end Cases

/-- **Completeness.** Every derivation that does not nest too deep is read as what it means. -/
theorem complete {phrase : Phrase} (d : Derivation phrase) : Complete d := by
  induction d with
  | plain condition ih => exact complete_plain ih
  | conditional condition whenTrue whenFalse ihc iht ihf => exact complete_conditional ihc iht ihf
  | tighter n inner ih => exact complete_tighter ih
  | binary n op hop left right ihl ihr => exact complete_binary hop ihl ihr
  | tight inner ih => exact complete_tight ih
  | unary op operand ih => exact complete_unary op ih
  | bare inner ih => exact complete_bare ih
  | power base exponent ihb ihe => exact complete_power ihb ihe
  | number x => exact complete_number x
  | text s => exact complete_text s
  | boolean b => exact complete_boolean b
  | «variable» name => exact complete_variable name
  | emptyCall name => exact complete_emptyCall name
  | call name args ih => exact complete_call name ih
  | parenthesized inner ih => exact complete_parenthesized ih
  | first arg ih => exact complete_first ih
  | argument before last ihb ihl => exact complete_argument ihb ihl

/-! ## Acceptance -/

/-- What a text is accepted as has a derivation, whose tokens are a cut of the text. -/
theorem derivation_of_ofText? {source : String} {expr : Expr} (h : Expr.ofText? source = .ok expr) :
    ∃ d : Derivation .conditional, Lexemes.Cut source.toList d.yield ∧
      d.yield = tokensOf (Lexemes.ofText source).list ∧ d.meaning = expr ∧
      d.nesting ≤ Expr.maxDepth ∧ expr.depth ≤ Expr.maxDepth := by
  rw [Expr.ofText?] at h
  obtain ⟨start, harrive, hrest⟩ := exists_of_bind_ok h
  obtain ⟨⟨x, rest⟩, hread, hdone⟩ := exists_of_bind_ok hrest
  obtain ⟨rfl, -⟩ := arrive_ok harrive
  dsimp only at hdone
  split at hdone
  · next hempty =>
    obtain rfl := List.isEmpty_iff.1 hempty
    split at hdone
    · exact nomatch hdone
    · next hlevels =>
      obtain rfl := Except.ok.inj hdone
      rw [Expr.levels_eq_depth] at hlevels
      obtain ⟨d, hmeaning, hnesting, hyield, harrived⟩ := (nested_sound Expr.maxDepth).2 hread
      obtain ⟨finish, hfinish⟩ := harrived rfl
      have htokens : d.yield = tokensOf (Lexemes.ofText source).list :=
        (hyield.trans (List.append_nil d.yield)).symm
      refine ⟨d, ?_, htokens, hmeaning, by omega, by omega⟩
      rw [htokens]
      exact Lexemes.Cut.of_cutFrom hfinish
  · exact nomatch hdone

/-- Where enough nesting is left, the tokens of a text that are derived are read to their end. -/
theorem exists_read {source : String} {d : Derivation .conditional}
    (hcut : Lexemes.Cut source.toList d.yield) : ∃ lexemes finish,
    Lexemes.ofText source = ⟨lexemes, .finish finish⟩ ∧ ∀ nesting, d.nesting ≤ nesting →
      nestedConditional (.finish finish) lexemes.length nesting lexemes = .ok (d.meaning, []) := by
  rcases hcut.outcome 0 with ⟨htokens, finish, hfinish⟩ | ⟨n, s, hinfix⟩
  · refine ⟨(Lexemes.ofText source).list, finish, by rw [← hfinish]; rfl, fun nesting hnesting => ?_⟩
    have hall : tokensOf (Lexemes.ofText source).list = d.yield ++ [] := by
      rw [List.append_nil]
      exact htokens
    have hlength : d.yield.length ≤ (Lexemes.ofText source).list.length := by
      rw [← htokens, List.length_map]
      exact Nat.le_refl _
    obtain ⟨after, hafter, hread⟩ :=
      complete d finish _ nesting hnesting hlength hall ⟨stops_none 6, nofun⟩
    obtain rfl := List.map_eq_nil_iff.1 hafter
    exact hread
  · exact absurd hinfix (d.not_infix_yield n s)

theorem arrive_finish (finish : Nat) (lexemes : List Lexeme) :
    arrive (.finish finish) lexemes = .ok lexemes := by
  rw [arrive]
  exact fun _ _ h => nomatch h

theorem ofText?_derivation {source : String} {d : Derivation .conditional}
    (hcut : Lexemes.Cut source.toList d.yield) (hnesting : d.nesting ≤ Expr.maxDepth)
    (hdepth : Expr.depth d.meaning ≤ Expr.maxDepth) : Expr.ofText? source = .ok d.meaning := by
  obtain ⟨lexemes, finish, hlexemes, hread⟩ := exists_read hcut
  have hlevels : ¬ Expr.maxDepth < Expr.levels d.meaning := by
    rw [Expr.levels_eq_depth]
    omega
  rw [Expr.ofText?, hlexemes]
  simp only [arrive_finish, hread _ hnesting, bind, Except.bind, List.isEmpty_nil, ↓reduceIte,
    if_neg hlevels]

/-- **Acceptance.** A text is read as a tree if and only if it is cut into tokens that derive the tree,
and neither the derivation nests nor the tree is too deep. A text has one cut and one derivation at most, and
a tree that is read has only known operators. -/
theorem accepts_iff_derives (source : String) :
    (∀ expr, Expr.ofText? source = .ok expr ↔
      ∃ d : Derivation .conditional, Lexemes.Cut source.toList d.yield ∧ d.meaning = expr ∧
        d.nesting ≤ Expr.maxDepth ∧ expr.depth ≤ Expr.maxDepth) ∧
      (∀ tokens tokens', Lexemes.Cut source.toList tokens → Lexemes.Cut source.toList tokens' →
        tokens = tokens') ∧
      (∀ d d' : Derivation .conditional, Lexemes.Cut source.toList d.yield →
        Lexemes.Cut source.toList d'.yield → d = d') ∧
      ∀ expr, Expr.ofText? source = .ok expr → expr.Recognized := by
  refine ⟨fun expr => ⟨fun h => ?_, ?_⟩, fun tokens tokens' h h' => h.unique h', ?_, fun expr h => ?_⟩
  · obtain ⟨d, hcut, -, hmeaning, hbounds⟩ := derivation_of_ofText? h
    exact ⟨d, hcut, hmeaning, hbounds⟩
  · rintro ⟨d, hcut, rfl, hnesting, hdepth⟩
    exact ofText?_derivation hcut hnesting hdepth
  · exact fun d d' h h' => Derivation.unique (h.unique h')
  · obtain ⟨d, -, -, rfl, -⟩ := derivation_of_ofText? h
    exact d.meansRecognized

end Parser

end Formulary
