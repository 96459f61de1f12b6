import Formulary.Proofs.Source.Reading
import Formulary.Proofs.Source.Spacing

/-!
# Readers fail at the first token that is wrong

Where a reader of `Parser` reports an error, the tokens before the place are a viable prefix: with further tokens
they are what the reader's phrase derives (`Viable`), whatever levels of nesting were left.

`Outcome` says what becomes of a phrase of which some tokens have been read. It is closed under the steps of the
readers (`Outcome.bind`, `outcome_advance`, `outcome_expect`), so each reader follows from its productions. A
production is a context: what is read of a part is viable in the whole if the whole can go on once the part is
complete (`Viable.within`).
-/

namespace Formulary

namespace Parser

/-! ## Viable prefixes -/

/-- The phrase derives the tokens. -/
def Derives (phrase : Phrase) (tokens : List Token) : Prop := ∃ d : Derivation phrase, d.yield = tokens

/-- With further tokens, which can be written, these are derived from the phrase. -/
def Viable (phrase : Phrase) (tokens : List Token) : Prop :=
  ∃ more, (∀ token ∈ more, token.Writable) ∧ Derives phrase (tokens ++ more)

theorem Derives.viable {phrase : Phrase} {tokens : List Token} (h : Derives phrase tokens) :
    Viable phrase tokens :=
  ⟨[], fun _ h => absurd h List.not_mem_nil, by rwa [List.append_nil]⟩

theorem Viable.of_append {phrase : Phrase} {tokens more : List Token} (h : Viable phrase (tokens ++ more))
    (hmore : ∀ token ∈ more, token.Writable) : Viable phrase tokens := by
  obtain ⟨more', hmore', hderives⟩ := h
  refine ⟨more ++ more', fun token htoken => ?_, by rwa [← List.append_assoc]⟩
  rcases List.mem_append.1 htoken with h | h
  · exact hmore token h
  · exact hmore' token h

section Within

variable {inner outer : Phrase} {before : List Token}
  (hcontext : ∀ {tokens}, Derives inner tokens → Viable outer (before ++ tokens))

include hcontext

/-- A beginning of a part is a beginning of the whole. -/
theorem Viable.within {tokens : List Token} (h : Viable inner tokens) : Viable outer (before ++ tokens) := by
  obtain ⟨more, hmore, hderives⟩ := h
  have hviable := hcontext hderives
  rw [← List.append_assoc] at hviable
  exact hviable.of_append hmore

end Within

/-- The shortest that a phrase derives. -/
theorem derives_single (phrase : Phrase) : Derives phrase [.boolean true] := by
  have hlevel : ∀ n, Derives (.level n) [.boolean true] := by
    intro n
    induction n with
    | zero => exact ⟨.tight (.bare (.boolean true)), rfl⟩
    | succ n ih =>
      obtain ⟨d, hd⟩ := ih
      exact ⟨.tighter n d, hd⟩
  obtain ⟨d, hd⟩ := hlevel 6
  cases phrase with
  | conditional => exact ⟨.plain d, hd⟩
  | level n => exact hlevel n
  | power => exact ⟨.bare (.boolean true), rfl⟩
  | primary => exact ⟨.boolean true, rfl⟩
  | arguments => exact ⟨.first (.plain d), hd⟩

theorem viable_nil (phrase : Phrase) : Viable phrase [] :=
  ⟨[.boolean true], List.forall_mem_singleton.2 trivial, derives_single phrase⟩

/-- Before a part of the whole. -/
theorem viable_of_context {inner outer : Phrase} {before : List Token}
    (hcontext : ∀ {tokens}, Derives inner tokens → Viable outer (before ++ tokens)) : Viable outer before := by
  have h := (viable_nil inner).within hcontext
  rwa [List.append_nil] at h

/-! ## Productions -/

section Productions

variable {n : Nat} {tokens tokens' tokens'' : List Token}

theorem Derives.plain (h : Derives (.level 6) tokens) : Derives .conditional tokens := by
  obtain ⟨d, rfl⟩ := h
  exact ⟨.plain d, rfl⟩

theorem Derives.conditional (h : Derives (.level 6) tokens) (h' : Derives .conditional tokens')
    (h'' : Derives .conditional tokens'') :
    Derives .conditional (tokens ++ [.question] ++ tokens' ++ [.colon] ++ tokens'') := by
  obtain ⟨d, rfl⟩ := h
  obtain ⟨d', rfl⟩ := h'
  obtain ⟨d'', rfl⟩ := h''
  exact ⟨.conditional d d' d'', by simp⟩

theorem Derives.tighter (h : Derives (.level n) tokens) : Derives (.level (n + 1)) tokens := by
  obtain ⟨d, rfl⟩ := h
  exact ⟨.tighter n d, rfl⟩

theorem Derives.binary {op : BinaryOperator} (hop : op ∈ operators n) (h : Derives (.level (n + 1)) tokens)
    (h' : Derives (.level n) tokens') : Derives (.level (n + 1)) (tokens ++ [.operator op] ++ tokens') := by
  obtain ⟨d, rfl⟩ := h
  obtain ⟨d', rfl⟩ := h'
  exact ⟨.binary n op hop d d', by simp⟩

theorem Derives.unary (op : UnaryOperator) (h : Derives (.level 0) tokens) :
    Derives (.level 0) ([prefixToken op] ++ tokens) := by
  obtain ⟨d, rfl⟩ := h
  exact ⟨.unary op d, rfl⟩

theorem Derives.bare (h : Derives .primary tokens) : Derives (.level 0) tokens := by
  obtain ⟨d, rfl⟩ := h
  exact ⟨.tight (.bare d), rfl⟩

theorem Derives.power (h : Derives .primary tokens) (h' : Derives (.level 0) tokens') :
    Derives (.level 0) (tokens ++ [.operator .power] ++ tokens') := by
  obtain ⟨d, rfl⟩ := h
  obtain ⟨d', rfl⟩ := h'
  exact ⟨.tight (.power d d'), by simp⟩

theorem Derives.call (name : String) (h : Derives .arguments tokens) :
    Derives .primary ([.name name] ++ [.open] ++ tokens ++ [.close]) := by
  obtain ⟨d, rfl⟩ := h
  exact ⟨.call name d, by simp⟩

theorem Derives.parenthesized (h : Derives .conditional tokens) :
    Derives .primary ([.open] ++ tokens ++ [.close]) := by
  obtain ⟨d, rfl⟩ := h
  exact ⟨.parenthesized d, by simp⟩

theorem Derives.first (h : Derives .conditional tokens) : Derives .arguments tokens := by
  obtain ⟨d, rfl⟩ := h
  exact ⟨.first d, rfl⟩

theorem Derives.argument (h : Derives .arguments tokens) (h' : Derives .conditional tokens') :
    Derives .arguments (tokens ++ [.comma] ++ tokens') := by
  obtain ⟨d, rfl⟩ := h
  obtain ⟨d', rfl⟩ := h'
  exact ⟨.argument d d', by simp⟩

end Productions

/-! ## Outcomes -/

variable {ending : Ending}

/-- The error is reported at the place where these tokens are left. -/
inductive Reported (ending : Ending) : List Lexeme → ParseError → Prop where
  | token (lexeme : Lexeme) (rest : List Lexeme) (expected : Expected) :
    Reported ending (lexeme :: rest) ⟨.unexpectedToken lexeme.written expected, lexeme.offset⟩
  | finish {offset : Nat} (expected : Expected) (h : ending = .finish offset) :
    Reported ending [] ⟨.unexpectedEnd expected, offset⟩
  | fault {error : ParseError} (h : ending = .fault error) : Reported ending [] error
  | tooDeep {lexemes : List Lexeme} (h : Arrived ending lexemes) :
    Reported ending lexemes ⟨.tooDeep, offset ending lexemes⟩

/-- What becomes of a phrase of which the tokens `before` have been read: it is read whole, or what has been read
of it is viable where an error is reported. -/
inductive Outcome (ending : Ending) (phrase : Phrase) (before : List Token) (lexemes : List Lexeme) {α : Type} :
    Except ParseError (α × List Lexeme) → Prop where
  | read {x : α} {front rest : List Lexeme} (hsplit : lexemes = front ++ rest)
    (hderives : Derives phrase (before ++ tokensOf front)) (harrived : Arrived ending rest) :
    Outcome ending phrase before lexemes (.ok (x, rest))
  | failed {error : ParseError} {front rest : List Lexeme} (hsplit : lexemes = front ++ rest)
    (hviable : Viable phrase (before ++ tokensOf front)) (hreported : Reported ending rest error) :
    Outcome ending phrase before lexemes (.error error)

/-- The reader reads the phrase from any token that has been found readable. -/
def Reads (ending : Ending) (phrase : Phrase) {α : Type} (reader : Reader α) : Prop :=
  ∀ ⦃lexemes⦄, Arrived ending lexemes → Outcome ending phrase [] lexemes (reader lexemes)

section Steps

variable {α β : Type} {inner outer : Phrase} {before : List Token} {lexemes rest : List Lexeme}

theorem Outcome.stop {x : α} (hderives : Derives outer before) (harrived : Arrived ending lexemes) :
    Outcome ending outer before lexemes (.ok (x, lexemes)) :=
  .read (List.nil_append lexemes).symm (by rwa [tokensOf, List.map_nil, List.append_nil]) harrived

theorem Outcome.fail {error : ParseError} (hviable : Viable outer before)
    (hreported : Reported ending lexemes error) :
    @Outcome ending outer before lexemes α (.error error) :=
  .failed (List.nil_append lexemes).symm (by rwa [tokensOf, List.map_nil, List.append_nil]) hreported

/-- After the tokens of a front. -/
theorem Outcome.after {result : Except ParseError (α × List Lexeme)} {front : List Lexeme}
    (h : Outcome ending outer (before ++ tokensOf front) rest result) (hsplit : lexemes = front ++ rest) :
    Outcome ending outer before lexemes result := by
  have htokens : ∀ more, before ++ tokensOf front ++ tokensOf more = before ++ tokensOf (front ++ more) := by
    intro more
    rw [tokensOf, tokensOf, tokensOf, List.map_append, List.append_assoc]
  cases h with
  | @read x front' rest' hsplit' hderives harrived =>
    rw [htokens] at hderives
    exact .read (by rw [hsplit, hsplit', List.append_assoc]) hderives harrived
  | @failed error front' rest' hsplit' hviable hreported =>
    rw [htokens] at hviable
    exact .failed (by rw [hsplit, hsplit', List.append_assoc]) hviable hreported

/-- A part of the phrase, and what comes after it. -/
theorem Outcome.bind {x : Except ParseError (α × List Lexeme)}
    {f : α × List Lexeme → Except ParseError (β × List Lexeme)} (h : Outcome ending inner [] lexemes x)
    (hcontext : ∀ {tokens}, Derives inner tokens → Viable outer (before ++ tokens))
    (hf : ∀ y {tokens rest}, Derives inner tokens → Arrived ending rest →
      Outcome ending outer (before ++ tokens) rest (f (y, rest))) :
    Outcome ending outer before lexemes (x >>= f) := by
  cases h with
  | read hsplit hderives harrived => exact (hf _ hderives harrived).after hsplit
  | failed hsplit hviable hreported => exact .failed hsplit (hviable.within hcontext) hreported

theorem Outcome.map {x : Except ParseError (α × List Lexeme)} (h : Outcome ending outer before lexemes x)
    (g : α → β) : Outcome ending outer before lexemes (x >>= fun (y, rest) => .ok (g y, rest)) := by
  cases h with
  | read hsplit hderives harrived => exact .read hsplit hderives harrived
  | failed hsplit hviable hreported => exact .failed hsplit hviable hreported

theorem arrive_error {error : ParseError} (h : arrive ending lexemes = .error error) :
    lexemes = [] ∧ ending = .fault error := by
  unfold arrive at h
  split at h
  · exact ⟨rfl, by rw [Except.error.inj h]⟩
  · cases h

theorem outcome_advance {lexeme : Lexeme} {f : List Lexeme → Except ParseError (α × List Lexeme)}
    (hviable : Viable outer (before ++ [lexeme.token]))
    (hf : Arrived ending rest → Outcome ending outer (before ++ [lexeme.token]) rest (f rest)) :
    Outcome ending outer before (lexeme :: rest) (advance ending (lexeme :: rest) >>= f) := by
  have hsplit : lexeme :: rest = [lexeme] ++ rest := rfl
  cases hadvance : advance ending (lexeme :: rest) with
  | ok after =>
    obtain ⟨rfl, harrived⟩ := advance_ok hadvance
    exact (hf harrived).after hsplit
  | error error =>
    obtain ⟨hrest, hending⟩ := arrive_error hadvance
    obtain rfl : rest = [] := hrest
    exact .failed hsplit hviable (.fault hending)

theorem reported_unexpected (harrived : Arrived ending lexemes) (expected : Expected) :
    Reported ending lexemes (unexpected ending expected lexemes) := by
  cases lexemes with
  | nil =>
    obtain ⟨offset, hending⟩ := harrived rfl
    rw [unexpected, hending]
    exact .finish expected rfl
  | cons lexeme rest => exact .token lexeme rest expected

theorem outcome_expect {token : Token} {expected : Expected}
    {f : List Lexeme → Except ParseError (α × List Lexeme)} (harrived : Arrived ending lexemes)
    (hwritable : token.Writable) (hviable : Viable outer (before ++ [token]))
    (hf : ∀ {rest}, Arrived ending rest → Outcome ending outer (before ++ [token]) rest (f rest)) :
    Outcome ending outer before lexemes (expect ending token expected lexemes >>= f) := by
  rw [expect]
  split
  · next hnext =>
    obtain ⟨lexeme, rest, rfl, rfl⟩ := isNext_iff.1 hnext
    exact outcome_advance hviable hf
  · have hbefore := hviable.of_append (List.forall_mem_singleton.2 hwritable)
    exact .fail hbefore (reported_unexpected harrived expected)

end Steps

/-! ## Readers -/

section Readers

variable {fuel : Nat}

theorem outcome_chainFrom {n : Nat} {part : Reader Expr} (hpart : Reads ending (.level n) part) (left : Expr)
    {before : List Token} (hbefore : Derives (.level (n + 1)) before) {lexemes : List Lexeme}
    (harrived : Arrived ending lexemes) :
    Outcome ending (.level (n + 1)) before lexemes (chainFrom ending (operators n) part fuel left lexemes) := by
  induction fuel generalizing left before lexemes with
  | zero => exact .stop hbefore harrived
  | succ fuel ih =>
    rw [chainFrom]
    split
    · exact .stop hbefore harrived
    · next op hop =>
      obtain ⟨hmem, htokens⟩ := nextOperator?_some hop
      obtain ⟨lexeme, rest, rfl, htoken, -⟩ := List.map_eq_cons_iff.1 htokens
      have hcontext : ∀ {tokens}, Derives (.level n) tokens →
          Viable (.level (n + 1)) (before ++ [lexeme.token] ++ tokens) := by
        rw [htoken]
        exact fun h => (hbefore.binary hmem h).viable
      refine outcome_advance (viable_of_context hcontext) fun harrived => ?_
      refine (hpart harrived).bind hcontext fun right tokens rest hright harrived => ?_
      exact ih _ (by rw [htoken]; exact hbefore.binary hmem hright) harrived

theorem reads_chain {n : Nat} {part : Reader Expr} (hpart : Reads ending (.level n) part) :
    Reads ending (.level (n + 1)) (chain ending fuel (operators n) part) := by
  intro lexemes harrived
  refine (hpart harrived).bind (fun h => h.tighter.viable) fun first tokens rest hfirst harrived => ?_
  exact outcome_chainFrom hpart first hfirst.tighter harrived

/-- A primary phrase of one token. -/
theorem outcome_content {lexeme : Lexeme} {rest : List Lexeme} {x : Expr} {token : Token}
    (htoken : lexeme.token = token) (hderives : Derives .primary [token]) :
    Outcome ending .primary [] (lexeme :: rest) (do .ok (x, ← advance ending (lexeme :: rest))) := by
  subst htoken
  exact outcome_advance hderives.viable fun harrived => .stop hderives harrived

section Nested

variable {conditional prefixed : Reader Expr} (hconditional : Reads ending .conditional conditional)

include hconditional

theorem outcome_argumentsFrom (args : List Expr) {before : List Token} (hbefore : Derives .arguments before)
    {lexemes : List Lexeme} (harrived : Arrived ending lexemes) :
    Outcome ending .arguments before lexemes (argumentsFrom ending conditional fuel args lexemes) := by
  induction fuel generalizing args before lexemes with
  | zero => exact .stop hbefore harrived
  | succ fuel ih =>
    rw [argumentsFrom]
    split
    · next hcomma =>
      obtain ⟨lexeme, rest, rfl, htoken⟩ := isNext_iff.1 hcomma
      have hcontext : ∀ {tokens}, Derives .conditional tokens →
          Viable .arguments (before ++ [lexeme.token] ++ tokens) := by
        rw [htoken]
        exact fun h => (hbefore.argument h).viable
      refine outcome_advance (viable_of_context hcontext) fun harrived => ?_
      refine (hconditional harrived).bind hcontext fun arg tokens rest harg harrived => ?_
      exact ih _ (by rw [htoken]; exact hbefore.argument harg) harrived
    · exact .stop hbefore harrived

/-- A call after its opening parenthesis. -/
theorem outcome_arguments (name : String) {lexemes : List Lexeme} (harrived : Arrived ending lexemes) :
    Outcome ending .primary ([.name name] ++ [.open]) lexemes
      (arguments ending fuel conditional lexemes) := by
  cases hclose : isNext .close lexemes with
  | true =>
    -- a closing parenthesis may follow at once only where there are no arguments
    have hempty : Derives .primary ([.name name] ++ [.open] ++ [.close]) := ⟨.emptyCall name, rfl⟩
    rw [arguments, hclose, if_pos rfl]
    exact outcome_expect harrived trivial hempty.viable fun harrived => .stop hempty harrived
  | false =>
    have hcontext : ∀ {tokens}, Derives .arguments tokens →
        Viable .primary ([.name name] ++ [.open] ++ tokens) :=
      fun h => (h.call name).viable.of_append (List.forall_mem_singleton.2 trivial)
    rw [arguments_eq fuel hclose]
    refine Outcome.bind ?_ hcontext fun args tokens rest hargs harrived => ?_
    · refine (hconditional harrived).bind (fun h => h.first.viable) fun first tokens rest hfirst harrived => ?_
      exact outcome_argumentsFrom hconditional [first] hfirst.first harrived
    · exact outcome_expect harrived trivial (hargs.call name).viable fun harrived =>
        .stop (hargs.call name) harrived

theorem reads_primary : Reads ending .primary (primary ending fuel conditional) := by
  intro lexemes harrived
  unfold primary
  split
  · next n _ _ _ _ => exact outcome_content rfl ⟨.number n, rfl⟩
  · next s _ _ _ _ => exact outcome_content rfl ⟨.text s, rfl⟩
  · next b _ _ _ _ => exact outcome_content rfl ⟨.boolean b, rfl⟩
  · have hcontext : ∀ {tokens}, Derives .conditional tokens → Viable .primary ([.open] ++ tokens) :=
      fun h => h.parenthesized.viable.of_append (List.forall_mem_singleton.2 trivial)
    refine outcome_advance (viable_of_context hcontext) fun harrived => ?_
    refine (hconditional harrived).bind hcontext fun inner tokens rest hinner harrived => ?_
    exact outcome_expect harrived trivial hinner.parenthesized.viable fun harrived =>
      .stop hinner.parenthesized harrived
  · next name _ _ _ rest =>
    have hname : Derives .primary [.name name] := ⟨.variable name, rfl⟩
    refine outcome_advance hname.viable fun harrived => ?_
    split
    · next hopen =>
      obtain ⟨lexeme, rest, rfl, htoken⟩ := isNext_iff.1 hopen
      have hviable : Viable .primary ([.name name] ++ [lexeme.token]) := by
        rw [htoken]
        have hempty : Derives .primary ([.name name] ++ [.open] ++ [.close]) := ⟨.emptyCall name, rfl⟩
        exact hempty.viable.of_append (List.forall_mem_singleton.2 trivial)
      refine outcome_advance hviable fun harrived => ?_
      rw [htoken]
      exact (outcome_arguments hconditional name harrived).map (Expr.call name)
    · exact .stop hname harrived
  · exact .fail (viable_nil .primary) (reported_unexpected harrived .expression)

theorem reads_operand (hprefixed : Reads ending (.level 0) prefixed) :
    Reads ending (.level 0) (operand ending fuel prefixed conditional) := by
  intro lexemes harrived
  unfold operand
  split
  · next op hop =>
    obtain ⟨lexeme, rest, rfl, htoken, -⟩ := List.map_eq_cons_iff.1 (nextPrefix?_some hop)
    have hcontext : ∀ {tokens}, Derives (.level 0) tokens → Viable (.level 0) ([lexeme.token] ++ tokens) := by
      rw [htoken]
      exact fun h => (h.unary op).viable
    refine outcome_advance (viable_of_context hcontext) fun harrived => ?_
    refine (hprefixed harrived).bind hcontext fun inner tokens rest hinner harrived => ?_
    exact .stop (by rw [htoken]; exact hinner.unary op) harrived
  · refine (reads_primary hconditional harrived).bind (fun h => h.bare.viable)
      fun base tokens rest hbase harrived => ?_
    dsimp only
    split
    · next hpower =>
      obtain ⟨lexeme, rest, rfl, htoken⟩ := isNext_iff.1 hpower
      have hcontext : ∀ {tokens'}, Derives (.level 0) tokens' →
          Viable (.level 0) ([] ++ tokens ++ [lexeme.token] ++ tokens') := by
        rw [htoken]
        exact fun h => (hbase.power h).viable
      refine outcome_advance (viable_of_context hcontext) fun harrived => ?_
      refine (hprefixed harrived).bind hcontext fun exponent tokens' rest hexponent harrived => ?_
      exact .stop (by rw [htoken]; exact hbase.power hexponent) harrived
    · exact .stop hbase.bare harrived

theorem reads_branches (hprefixed : Reads ending (.level 0) prefixed) :
    Reads ending .conditional (branches ending fuel prefixed conditional) := by
  intro lexemes harrived
  have hoperand : Reads ending (.level 0) (operand ending fuel prefixed conditional) :=
    reads_operand hconditional hprefixed
  have hchains : Reads ending (.level 6) (chains ending fuel (operand ending fuel prefixed conditional)) :=
    reads_chain (reads_chain (reads_chain (reads_chain (reads_chain (reads_chain hoperand)))))
  refine (hchains harrived).bind (fun h => h.plain.viable) fun condition tokens rest hcondition harrived => ?_
  dsimp only
  split
  · next hquestion =>
    obtain ⟨lexeme, rest, rfl, htoken⟩ := isNext_iff.1 hquestion
    rw [List.nil_append]
    have hfalse : ∀ {tokens' tokens''}, Derives .conditional tokens' → Derives .conditional tokens'' →
        Viable .conditional (tokens ++ [lexeme.token] ++ tokens' ++ [.colon] ++ tokens'') := by
      rw [htoken]
      exact fun h h' => (hcondition.conditional h h').viable
    have htrue : ∀ {tokens'}, Derives .conditional tokens' →
        Viable .conditional (tokens ++ [lexeme.token] ++ tokens') :=
      fun h => (viable_of_context (hfalse h)).of_append (List.forall_mem_singleton.2 trivial)
    refine outcome_advance (viable_of_context htrue) fun harrived => ?_
    refine (hconditional harrived).bind htrue fun whenTrue tokens' rest hwhenTrue harrived => ?_
    refine outcome_expect harrived trivial (viable_of_context (hfalse hwhenTrue)) fun harrived => ?_
    refine (hconditional harrived).bind (hfalse hwhenTrue) fun whenFalse tokens'' rest hwhenFalse harrived => ?_
    exact .stop (by rw [htoken]; exact hcondition.conditional hwhenTrue hwhenFalse) harrived
  · exact .stop hcondition.plain harrived

end Nested

theorem reads_nested (fuel nesting : Nat) : Reads ending (.level 0) (nestedOperand ending fuel nesting) ∧
    Reads ending .conditional (nestedConditional ending fuel nesting) := by
  induction nesting with
  | zero =>
    exact ⟨fun _ harrived => .fail (viable_nil _) (.tooDeep harrived),
      fun _ harrived => .fail (viable_nil _) (.tooDeep harrived)⟩
  | succ nesting ih =>
    exact ⟨fun _ harrived => reads_operand ih.2 ih.1 harrived, reads_branches ih.2 ih.1⟩

end Readers

/-- Up to the place of an error the tokens of a text are a viable prefix, unless the finished tree is too deep. -/
theorem reported_of_ofText? {source : String} {error : ParseError} (h : Expr.ofText? source = .error error) :
    error = ⟨.tooDeep, 0⟩ ∨ ∃ front rest, (Lexemes.ofText source).list = front ++ rest ∧
      Viable .conditional (tokensOf front) ∧ Reported (Lexemes.ofText source).ending rest error := by
  rw [Expr.ofText?] at h
  generalize Lexemes.ofText source = lexemes at h ⊢
  obtain ⟨list, ending⟩ := lexemes
  dsimp only at h ⊢
  rcases eq_error_or_exists_of_bind_error h with harrive | ⟨start, harrive, h⟩
  · obtain ⟨hlist, hending⟩ := arrive_error harrive
    exact .inr ⟨[], [], hlist, viable_nil .conditional, .fault hending⟩
  obtain ⟨rfl, harrived⟩ := arrive_ok harrive
  have hreads := (reads_nested start.length Expr.maxDepth).2 harrived
  rcases eq_error_or_exists_of_bind_error h with hread | ⟨⟨expr, rest⟩, hread, h⟩
  · rw [hread] at hreads
    cases hreads with
    | failed hsplit hviable hreported => exact .inr ⟨_, _, hsplit, hviable, hreported⟩
  · rw [hread] at hreads
    cases hreads with
    | @read _ front _ hsplit hderives harrived =>
      dsimp only at h
      split at h
      · split at h
        · exact .inl (Except.error.inj h).symm
        · cases h
      · obtain rfl := Except.error.inj h
        exact .inr ⟨front, rest, hsplit, Derives.viable hderives, reported_unexpected harrived _⟩

end Parser

end Formulary
