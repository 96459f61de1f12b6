import Formulary.Proofs.Script.Fragment
import Formulary.Proofs.Script.Loading
import Mathlib.Data.List.Forall2
import Mathlib.Tactic.Choose

/-!
# Fragments cannot be broken out of

Whatever a name holds, and whatever code the arguments are, the code that is put together from them is read as
the text, the variable or the call that it was made for, and as nothing more (`fragments_contained`).

An argument is known only by being a code itself, so its tokens have to stay what they are where the next piece
stands behind them. They do before a separator (`Cut.append`): no token but a quoted text has a separator in
it, and a quoted text ends where it ends.
-/

namespace Formulary

namespace Script

/-! ## Tokens before a separator -/

section Separator

variable {x : Char} (hsep : isSeparator x = true)

include hsep

theorem ExponentRun.separator_not_mem {run : List Char} (h : ExponentRun run) : x ∉ run := by
  have hdigit : ¬ isDigit x = true := by
    rcases eq_of_isSeparator hsep with rfl | rfl | rfl | rfl <;> decide
  intro hx
  cases h with
  | none => exact nomatch hx
  | unsigned hmark hdigits =>
    rcases List.mem_cons.1 hx with rfl | hx
    · rcases hmark with rfl | rfl <;> exact nomatch hsep
    · exact hdigit (hdigits x hx)
  | signed hmark hsign hdigits =>
    rcases List.mem_cons.1 hx with rfl | hx
    · rcases hmark with rfl | rfl <;> exact nomatch hsep
    rcases List.mem_cons.1 hx with rfl | hx
    · rcases hsign with rfl | rfl <;> exact nomatch hsep
    · exact hdigit (hdigits x hx)

theorem NumberRun.separator_not_mem {run : List Char} (h : NumberRun run) : x ∉ run := by
  obtain ⟨-, hparts, hexponent⟩ := h
  rw [List.mem_append]
  rintro (hx | hx)
  · have hpart := hparts x hx
    rcases eq_of_isSeparator hsep with rfl | rfl | rfl | rfl <;> exact absurd hpart (by decide)
  · exact hexponent.separator_not_mem hsep hx

/-- Behind its first character, only a quoted text has a separator. -/
theorem IsRun.eq_quote {c : Char} {further : List Char} (h : IsRun (c :: further)) (hx : x ∈ further) :
    c = '"' := by
  have hnumber : ¬ NumberRun (c :: further) := fun hrun =>
    hrun.separator_not_mem hsep (List.mem_cons_of_mem c hx)
  rcases h with hrun | ⟨token, hspelling⟩
  · exact absurd hrun hnumber
  cases hspelling with
  | mark h =>
    have hmarks : (marks.all fun mark => mark.1.tail.all fun c => !isSeparator c) = true := by decide
    have hplain := List.all_eq_true.1 (List.all_eq_true.1 hmarks _ h) x hx
    rw [hsep] at hplain
    exact nomatch hplain
  | number hrun => exact absurd hrun hnumber
  | text => rfl
  | word hc hfurther =>
    have hword := hfurther x hx
    rcases eq_of_isSeparator hsep with rfl | rfl | rfl | rfl <;> exact absurd hword (by decide)

end Separator

/-- A quoted text is the longest run at its place, whatever stands behind it. -/
theorem Spelling.quote_longest {token : Token} {further tail longer : List Char}
    (h : Spelling token ('"' :: further)) (hfront : longer <+: '"' :: further ++ tail)
    (hrun : IsRun longer) : longer.length ≤ ('"' :: further).length := by
  cases longer with
  | nil => exact Nat.zero_le _
  | cons c longer =>
    obtain ⟨rfl, rest, hrest⟩ := List.cons_prefix_cons.1 hfront
    cases h with
    | mark h => exact absurd h (by simp [marks])
    | number hnumber =>
      obtain ⟨c, further', heq, hc⟩ := hnumber.exists_cons
      obtain ⟨rfl, rfl⟩ := List.cons.inj heq
      exact absurd hc (by decide)
    | text h =>
      have hscan := h.scan tail
      rw [show (_ ++ ['"']) ++ tail = longer ++ rest from hrest.symm] at hscan
      exact Nat.succ_le_succ (hrun.length_le hscan)
    | word hc => exact absurd hc (by decide)

/-- A token stays the longest run at its place where a separator follows what stands behind it. -/
theorem Spelling.longest_append {token : Token} {chars rest tail : List Char} (h : Spelling token chars)
    (hlongest : ∀ longer, longer <+: chars ++ rest → IsRun longer → longer.length ≤ chars.length)
    (hends : Ends tail) :
    ∀ longer, longer <+: chars ++ (rest ++ tail) → IsRun longer → longer.length ≤ chars.length := by
  intro longer hfront hrun
  obtain ⟨c, further, rfl, -⟩ := h.scan_longest hlongest
  rcases List.prefix_or_prefix_of_prefix (List.append_assoc _ rest tail ▸ hfront)
    (List.prefix_append ((c :: further) ++ rest) tail) with hshort | ⟨beyond, rfl⟩
  · exact hlongest longer hshort hrun
  · cases beyond with
    | nil => exact hlongest _ (by simp) hrun
    | cons x beyond =>
      -- the run goes on into the tail, so it takes the separator
      have hbeyond := hfront
      rw [List.append_assoc, List.prefix_append_right_inj, List.prefix_append_right_inj] at hbeyond
      obtain ⟨beyond', rfl⟩ := hbeyond
      obtain rfl : c = '"' := hrun.eq_quote hends (by simp)
      exact h.quote_longest hfront hrun

theorem Cut.append {code tail : List Char} {tokens more : List Token} (h : Cut code tokens)
    (hends : Ends tail) (htail : Cut tail more) : Cut (code ++ tail) (tokens ++ more) := by
  induction h with
  | nil => exact htail
  | blank hblank hrest ih => exact .blank hblank ih
  | token hspelling hlongest hrest ih =>
    rw [List.append_assoc]
    exact .token hspelling (hspelling.longest_append hlongest hends) ih

/-- A code that is cut is a piece of code. -/
theorem Cut.lexes {code : List Char} {tokens : List Token} (h : Cut code tokens) : Lexes code tokens :=
  fun _ _ hends hspells => (h.append hends hspells.cut).spells

/-! ## Codes as parts of codes -/

/-- The code is read as the script, with at most so many levels of nesting. -/
def LoadsWithin (nesting : Nat) (code : String) (script : Script) : Prop :=
  (lexemes code).bind (ofLexemes nesting) = .ok script

/-- No expression starts with an equality. -/
theorem not_loads_equality {token : Token} (h : token = .equal ∨ token = .strictEqual)
    {nesting offset : Nat} {rest : List Lexeme} {script : Script} :
    ofLexemes nesting (⟨token, offset⟩ :: rest) ≠ .ok script := by
  intro hread
  cases nesting with
  | zero => exact nomatch hread
  | succ nesting => rcases h with rfl | rfl <;> exact nomatch hread

theorem scan_equals {rest : List Char} {token : Token} {further : Nat}
    (h : scan '=' rest = .ok (token, further)) : token = .equal ∨ token = .strictEqual := by
  have hdigit : isDigit '=' = false := by decide
  have hletter : isAsciiLetter '=' = false := by decide
  unfold scan at h
  split at h <;> simp_all

section LoadsWithin

variable {nesting : Nat} {code : String} {script : Script} (h : LoadsWithin nesting code script)

include h

theorem LoadsWithin.head?_ne : code.toList.head? ≠ some '=' := by
  intro hhead
  obtain ⟨found, hfound, hread⟩ := exists_of_bind_ok h
  obtain ⟨rest, hchars⟩ := List.head?_eq_some_iff.1 hhead
  rw [lexemes, hchars, cutFrom, if_neg (by decide)] at hfound
  split at hfound
  · cases hfound
  · next token further hscan =>
    obtain ⟨more, -, rfl⟩ := exists_of_map_ok hfound
    exact not_loads_equality (scan_equals hscan) hread

/-- A code that loads on its own is spelled as a part of codes. -/
theorem LoadsWithin.spelled : Spelled .expression code script nesting := by
  obtain ⟨found, hfound, hread⟩ := exists_of_bind_ok h
  obtain ⟨tokens, htokens, hcut⟩ := exists_cut hfound
  obtain ⟨d, hmeaning, hnesting, rest, hyield, hrest⟩ := exists_derivation_of_ofLexemes hread
  rw [htokens] at hyield
  obtain rfl := eq_yield_of_append hcut.finish_not_mem hyield hrest
  exact ⟨⟨d, hcut.lexes, hmeaning, hnesting⟩, h.head?_ne⟩

theorem LoadsWithin.ofCode (hnesting : nesting ≤ maxNesting) : Script.ofCode code = .ok script :=
  h.spelled.ofCode hnesting

end LoadsWithin

/-! ## Fragments -/

theorem Spelled.ofCode_primary {code : String} {script : Script} {nesting : Nat}
    (h : Spelled .primary code script nesting) (hnesting : nesting + 1 ≤ maxNesting) :
    Script.ofCode code = .ok script :=
  (h.tight.level (Nat.zero_le 3)).plain.ofCode hnesting

theorem ofCode_textCode (text : String) : Script.ofCode (textCode text) = .ok (.literal (.text text)) :=
  (Spelled.text text).ofCode_primary (by decide)

theorem ofCode_variableCode (name : String) {indices : List Nat} (hindices : ∀ i ∈ indices, i < 2 ^ 53) :
    Script.ofCode (variableCode name indices) = .ok (.variable name indices) := by
  have hwide : ∀ i ∈ indices, i < 2 ^ 64 := by
    intro i hi
    have := hindices i hi
    omega
  have hspelled := Spelled.variable name hwide
  rw [Spelled.map_readIndex hindices] at hspelled
  exact hspelled.ofCode_primary (by decide)

theorem ofCode_callCode (name : String) {args : List String} {scriptOf : String → Script}
    (hargs : ∀ arg ∈ args, LoadsWithin (maxNesting - 1) arg (scriptOf arg)) :
    Script.ofCode (callCode name args) = .ok (.call name (args.map scriptOf)) := by
  have hspelled : Spelled .arguments ("" ++ commaParts (args.map id)) ([] ++ args.map scriptOf) (maxNesting - 1) :=
    Spelled.arguments (fun arg harg => (hargs arg harg).spelled) (Spelled.noArguments.mono (Nat.zero_le _))
  rw [List.map_id, String.empty_append, List.nil_append] at hspelled
  exact (hspelled.call name).ofCode_primary (by decide)

end Script

/-! ## Courses of fragments -/

namespace Course

variable {σ α : Type}

/-- One course after the other, up to the first failure, for the results of all. -/
def inTurn : List (Course σ α) → Course σ (List α)
  | [] => Gives (.ok [])
  | course :: rest => AndThen course fun value => AndThen (inTurn rest) fun values => Gives (.ok (value :: values))

end Course

namespace Script

open Course

variable {σ : Type}

/-- The course of a script that runs in a context. -/
def course (ctx : Context (StateM σ)) (bindings : Bindings) (script : Script) : Course σ Value :=
  fun state audit => (script.run ctx.audited bindings).audit state = audit

theorem isOf_course {code : String} {script : Script} (h : ofCode code = .ok script)
    (ctx : Context (StateM σ)) (bindings : Bindings) :
    (script.course ctx bindings).IsOf (script.run ctx bindings) (script.run ctx.audited bindings) := by
  obtain ⟨d, -, -, rfl⟩ := ofCode_iff_derived.1 h
  intro state
  obtain ⟨audit, haudits, -⟩ := d.isOf_evaluates ctx bindings state
  refine ⟨audit, haudits, fun audit' => ?_⟩
  have haudit : (d.meaning.run ctx.audited bindings).audit state = audit := haudits.audit_eq
  rw [course, haudit]
  exact eq_comm

theorem isOf_inTurn {codes : List String} {scripts : List Script}
    (h : List.Forall₂ (fun code script => ofCode code = .ok script) codes scripts)
    (ctx : Context (StateM σ)) (bindings : Bindings) :
    (inTurn (scripts.map (course ctx bindings))).IsOf (runAll ctx bindings scripts)
      (runAll ctx.audited bindings scripts) := by
  induction h with
  | nil => exact isOf_gives (.ok [])
  | cons hcode hcodes ih =>
    exact (isOf_course hcode ctx bindings).andThen fun value => ih.andThen fun values => isOf_gives _

/-- The code loads, and in every context its script takes the course and no other. -/
def LoadsAs (code : String) (course : {σ : Type} → Context (StateM σ) → Bindings → Course σ Value) : Prop :=
  ∃ script, ofCode code = .ok script ∧ ∀ {σ : Type} (ctx : Context (StateM σ)) (bindings : Bindings),
    (course ctx bindings).IsOf (script.run ctx bindings) (script.run ctx.audited bindings)

/-- **Containment.** A quoted text loads as the text itself. The code of a variable with indices of 53 bits loads,
and what it loads as asks the context once, for the variable of that name with those indices. The code of a call
with arguments that load with one level of nesting to spare loads, and what it loads as evaluates what the arguments
load as from left to right, up to the first failure, and then asks the context once, for the function of that name
with their values. -/
theorem fragments_contained (text name : String) {indices : List Nat} {args : List String}
    (hindices : ∀ i ∈ indices, i < 2 ^ 53)
    (hargs : ∀ arg ∈ args, ∃ script, LoadsWithin (maxNesting - 1) arg script) :
    LoadsAs (textCode text) (fun _ _ => Gives (.ok (.text text))) ∧
    LoadsAs (variableCode name indices) (fun ctx bindings =>
      Asks (.lookupScoped name indices bindings) (ctx.lookupScoped name indices bindings)) ∧
    ∃ scripts, List.Forall₂ (fun arg script => ofCode arg = .ok script) args scripts ∧
      LoadsAs (callCode name args) (fun ctx bindings =>
        AndThen (inTurn (scripts.map (course ctx bindings))) fun values =>
          Asks (.call name values) (ctx.call name values)) := by
  have : Nonempty Script := ⟨.literal .empty⟩
  choose! scriptOf hscripts using hargs
  have hloads : List.Forall₂ (fun arg script => ofCode arg = .ok script) args (args.map scriptOf) := by
    rw [List.forall₂_map_right_iff, List.forall₂_same]
    exact fun arg harg => (hscripts arg harg).ofCode (Nat.sub_le ..)
  refine ⟨⟨_, ofCode_textCode text, fun ctx bindings => isOf_gives _⟩,
    ⟨_, ofCode_variableCode name hindices, fun ctx bindings => isOf_asks _ _⟩, args.map scriptOf, hloads,
    _, ofCode_callCode name hscripts, fun ctx bindings => ?_⟩
  exact (isOf_inTurn hloads ctx bindings).andThen fun values => isOf_asks _ _

/-- A name that closes its quotes and the call, and an argument that holds what separates arguments. -/
theorem fragments_contained_hostile :
    LoadsAs (variableCode "\"), 0) \\\n" [0, 2]) (fun ctx bindings =>
      Asks (.lookupScoped "\"), 0) \\\n" [0, 2] bindings) (ctx.lookupScoped "\"), 0) \\\n" [0, 2] bindings)) ∧
    ∃ scripts : List Script, LoadsAs (callCode "\"), 0) \\\n" ["!true ? NaN : \"), \"", "var(\"x\")"]) (fun ctx bindings =>
      AndThen (inTurn (scripts.map (course ctx bindings))) fun values =>
        Asks (.call "\"), 0) \\\n" values) (ctx.call "\"), 0) \\\n" values)) := by
  have hindices : ∀ i ∈ [0, 2], i < 2 ^ 53 := by decide
  have hargs : ∀ arg ∈ ["!true ? NaN : \"), \"", "var(\"x\")"],
      ∃ script, LoadsWithin (maxNesting - 1) arg script := by
    simp only [List.mem_cons, List.not_mem_nil, or_false, forall_eq_or_imp, forall_eq]
    exact ⟨⟨_, rfl⟩, ⟨_, rfl⟩⟩
  obtain ⟨-, hvariable, scripts, -, hcall⟩ :=
    fragments_contained "" "\"), 0) \\\n" hindices hargs
  exact ⟨hvariable, scripts, hcall⟩

end Script

end Formulary
