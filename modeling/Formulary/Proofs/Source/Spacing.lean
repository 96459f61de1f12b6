import Formulary.Proofs.Script.Spelling
import Formulary.Proofs.Source.Grammar
import Formulary.Proofs.Source.Lexical
import Formulary.Script.Fragment

/-!
# Written tokens and the space between them

`Token.written` is one way to write each token. Written tokens need blanks between them only where the second
would go on with the first (`Token.joins`), and what a derivation yields has no such place
(`Derivation.yield_spaced`). So however its tokens are spaced, the text is cut into them again (`Layout.cut`).
-/

namespace Formulary

namespace Token

/-! ## Writing -/

/-- A token as it is written: a number in plain digits, a text as in generated code, a name in quotes. -/
def written : Token → List Char
  | number n => (n.format Number.plainStyle).toList
  | text s => (Script.textCode s).toList
  | boolean true => "true".toList
  | boolean false => "false".toList
  | name s => nameQuote :: (s.toList ++ [nameQuote])
  | operator op => op.symbol.toList
  | bang => ['!']
  | question => ['?']
  | colon => [':']
  | comma => [',']
  | .open => ['(']
  | close => [')']

/-- The token can be written: numbers have no sign and names no quote. -/
def Writable : Token → Prop
  | number n => ∃ m, n = .finite false m
  | name s => ∀ c ∈ s.toList, c ≠ nameQuote
  | _ => True

/-- The character would go on with the token. -/
def joins : Token → Char → Bool
  | number _, c | boolean _, c => isNameChar c || c == '.'
  | operator _, c | bang, c => c == '=' || c == '>'
  | _, _ => false

/-- The second token may be written directly after the first. -/
def Parted (token token' : Token) : Prop := ∀ c ∈ token'.written.head?, token.joins c = false

theorem joins_of_isBlank {c : Char} (h : isBlank c = true) (token : Token) :
    token.joins c = false := by
  have hname : isNameChar c = false := by
    rw [isNameChar, isAlphanumeric_of_isBlank h, Bool.false_or, beq_eq_false_iff_ne]
    rintro rfl
    exact absurd h (by decide)
  have hne : ∀ x, isBlank x = false → (c == x) = false := by
    intro x hx
    rw [beq_eq_false_iff_ne]
    rintro rfl
    rw [h] at hx
    exact nomatch hx
  cases token with
  | number n => simp [Token.joins, hname, hne '.' (by decide)]
  | boolean b => simp [Token.joins, hname, hne '.' (by decide)]
  | operator op => simp [Token.joins, hne '=' (by decide), hne '>' (by decide)]
  | bang => simp [Token.joins, hne '=' (by decide), hne '>' (by decide)]
  | text | name | question | colon | comma | «open» | close => rfl

/-! ## Scanning what is written -/

theorem scan_mark {mark : List Char × Token} (h : mark ∈ marks) {rest : List Char}
    (hrest : ∀ c ∈ rest.head?, c ≠ '=' ∧ c ≠ '>') :
    ∃ c further, mark.1 = c :: further ∧ scan c (further ++ rest) = .token mark.2 further.length := by
  simp only [marks, List.mem_cons, List.not_mem_nil, or_false] at h
  rcases h with rfl | rfl | rfl | rfl | rfl | rfl | rfl | rfl | rfl | rfl | rfl | rfl | rfl | rfl | rfl |
    rfl | rfl | rfl | rfl | rfl | rfl | rfl | rfl | rfl
  all_goals first
    | exact ⟨_, _, rfl, rfl⟩
    | refine ⟨_, _, rfl, ?_⟩
      unfold scan
      split <;> simp_all

/-- The digits of a magnitude are taken up to what goes on with no number. -/
theorem scan_positional (m : Magnitude) {rest : List Char}
    (hrest : ∀ c ∈ rest.head?, (isNameChar c || c == '.') = false) :
    ∃ c further, m.shortest.positional = c :: further ∧
      scan c (further ++ rest) = .token (number (.finite false m)) further.length := by
  obtain ⟨c, further, hchars, hc, -⟩ := Script.exists_positional_cons m.shortest
  have hread := Number.ofDecimal?_positional m
  obtain ⟨whole, fraction, -, hshape, hdigits, -, -⟩ := m.shortest.exists_positional_eq
  have hwhole : ∀ c ∈ whole, isDigit c = true := fun c h => hdigits c (List.mem_append_left _ h)
  have hfraction : ∀ c ∈ fraction, isDigit c = true := fun c h => hdigits c (List.mem_append_right _ h)
  have hstop : ∀ c ∈ rest.head?, isDigit c = false ∧ c ≠ '.' := by
    intro c hc
    obtain ⟨hname, hpoint⟩ := Bool.or_eq_false_iff.1 (hrest c hc)
    refine ⟨?_, by simpa using hpoint⟩
    simp only [isNameChar, isAlphanumeric, Bool.or_eq_false_iff] at hname
    exact hname.1.1.2
  have hexponent : DecimalText.takeExponent rest = [] := by
    cases rest with
    | nil => rfl
    | cons x rest =>
      refine takeExponent_of_ne ?_ rest
      have hname := (Bool.or_eq_false_iff.1 (hrest x rfl)).1
      rintro (rfl | rfl) <;> exact absurd hname (by decide)
  have hall : numberChars (c :: (further ++ rest)) = c :: further := by
    rw [← List.cons_append, ← hchars]
    rcases hshape with h | ⟨h, rfl⟩
    · rw [h, List.append_assoc,
        (Parts.decimal hwhole hfraction fun c hc => (hstop c hc).1).numberChars_eq, hexponent,
        List.append_nil]
    · rw [h, ← List.nil_append rest, (Parts.integer hwhole hstop).numberChars_eq, hexponent,
        List.append_nil, List.append_nil]
  refine ⟨c, further, hchars, ?_⟩
  rw [scan_numeral ⟨c, _, rfl, .inl hc⟩, scanNumber, hall, ← hchars, hread]
  simp [hchars]

theorem quoted_flatMap (content : List Char) : Quoted '"' (content.flatMap Script.quoteChar) content := by
  induction content with
  | nil => exact .nil
  | cons c content ih =>
    rw [List.flatMap_cons]
    unfold Script.quoteChar
    split
    · exact .escape '"' ih
    · exact .escape '\\' ih
    · exact .escape 'n' ih
    · exact .escape 'r' ih
    · exact .escape 't' ih
    · next hquote hescape _ _ _ => exact .plain (fun h => hquote h) (fun h => hescape h) ih

theorem takeWhile_isNameChar {rest : List Char}
    (hrest : ∀ c ∈ rest.head?, (isNameChar c || c == '.') = false) : rest.takeWhile isNameChar = [] := by
  cases rest with
  | nil => rfl
  | cons c rest =>
    have hname := (Bool.or_eq_false_iff.1 (hrest c rfl)).1
    rw [List.takeWhile_cons_of_neg (by rw [hname]; exact Bool.false_ne_true)]

/-- Before what does not go on with it, a written token is scanned. -/
theorem scan_written {token : Token} (h : token.Writable) {rest : List Char}
    (hrest : ∀ c ∈ rest.head?, token.joins c = false) :
    ∃ c further, token.written = c :: further ∧ scan c (further ++ rest) = .token token further.length := by
  cases token with
  | number n =>
    obtain ⟨m, rfl⟩ := h
    have hwritten : (number (.finite false m)).written = m.shortest.positional := by
      simp [written, Number.format, Number.formatMagnitude, Number.plainStyle]
    rw [hwritten]
    exact scan_positional m hrest
  | text s =>
    refine ⟨'"', s.toList.flatMap Script.quoteChar ++ ['"'], by simp [written, Script.textCode], ?_⟩
    rw [(quoted_flatMap s.toList).scan (.inl rfl), String.ofList_toList]
  | boolean b =>
    have hword := takeWhile_isNameChar hrest
    cases b with
    | false =>
      have htake : (['a', 'l', 's', 'e'] ++ rest).takeWhile isNameChar = ['a', 'l', 's', 'e'] := by
        rw [List.takeWhile_append_of_pos (List.all_eq_true.1 (by decide)), hword, List.append_nil]
      refine ⟨'f', ['a', 'l', 's', 'e'], rfl, ?_⟩
      rw [scan_word (.inl (by decide)), htake]
      rfl
    | true =>
      have htake : (['r', 'u', 'e'] ++ rest).takeWhile isNameChar = ['r', 'u', 'e'] := by
        rw [List.takeWhile_append_of_pos (List.all_eq_true.1 (by decide)), hword, List.append_nil]
      refine ⟨'t', ['r', 'u', 'e'], rfl, ?_⟩
      rw [scan_word (.inl (by decide)), htake]
      rfl
  | name s =>
    refine ⟨nameQuote, s.toList ++ [nameQuote], rfl, ?_⟩
    rw [scan_closedName h, String.ofList_toList]
  | operator op =>
    have hmark : (op.symbol.toList, operator op) ∈ marks := by cases op <;> decide
    exact scan_mark hmark fun c hc => by simpa [Token.joins] using hrest c hc
  | bang =>
    have hmark : (['!'], bang) ∈ marks := by decide
    exact scan_mark hmark fun c hc => by simpa [Token.joins] using hrest c hc
  | question => exact ⟨'?', [], rfl, rfl⟩
  | colon => exact ⟨':', [], rfl, rfl⟩
  | comma => exact ⟨',', [], rfl, rfl⟩
  | «open» => exact ⟨'(', [], rfl, rfl⟩
  | close => exact ⟨')', [], rfl, rfl⟩

/-! ## Layouts -/

/-- The text consists of the written tokens with any blanks before, between and after them. -/
inductive Layout : List Token → List Char → Prop where
  | nil {blanks : List Char} (hblanks : ∀ c ∈ blanks, isBlank c = true) : Layout [] blanks
  | cons {blanks rest : List Char} {token : Token} {tokens : List Token}
    (hblanks : ∀ c ∈ blanks, isBlank c = true) (h : Layout tokens rest) :
    Layout (token :: tokens) (blanks ++ (token.written ++ rest))

theorem Cut.blanks {blanks rest : List Char} {tokens : List Token}
    (hblanks : ∀ c ∈ blanks, isBlank c = true) (h : Lexemes.Cut rest tokens) :
    Lexemes.Cut (blanks ++ rest) tokens := by
  induction blanks with
  | nil => exact h
  | cons c blanks ih =>
    exact .blank (hblanks c List.mem_cons_self) (ih fun x hx => hblanks x (List.mem_cons_of_mem c hx))

/-- A layout starts with a blank or with the first token. -/
theorem Layout.head {tokens : List Token} {text : List Char} (h : Layout tokens text)
    (hwritable : ∀ token ∈ tokens, token.Writable) {c : Char} (hc : c ∈ text.head?) :
    isBlank c = true ∨ ∃ token ∈ tokens.head?, c ∈ token.written.head? := by
  cases h with
  | nil hblanks => exact .inl (hblanks c (List.mem_of_mem_head? hc))
  | @cons blanks rest token tokens hblanks h =>
    cases blanks with
    | cons x blanks =>
      obtain rfl := Option.some.inj hc
      exact .inl (hblanks x List.mem_cons_self)
    | nil =>
      obtain ⟨x, further, hwritten, -⟩ :=
        @scan_written token (hwritable token List.mem_cons_self) [] nofun
      rw [List.nil_append, hwritten] at hc
      exact .inr ⟨token, rfl, by rw [hwritten]; exact hc⟩

/-- **Spacing.** Tokens of which none goes on with the one before it are cut from every layout of them. -/
theorem Layout.cut {tokens : List Token} {text : List Char} (h : Layout tokens text)
    (hparted : tokens.IsChain Parted) (hwritable : ∀ token ∈ tokens, token.Writable) :
    Lexemes.Cut text tokens := by
  induction h with
  | @nil blanks hblanks =>
    rw [← List.append_nil blanks]
    exact Cut.blanks hblanks .nil
  | @cons blanks rest token tokens hblanks h ih =>
    obtain ⟨hhead, htail⟩ := List.isChain_cons.1 hparted
    have htokens : ∀ token ∈ tokens, token.Writable := fun x hx => hwritable x (List.mem_cons_of_mem _ hx)
    have hrest : ∀ c ∈ rest.head?, token.joins c = false := by
      intro c hc
      rcases h.head htokens hc with hblank | ⟨next, hnext, hfirst⟩
      · exact joins_of_isBlank hblank token
      · exact hhead next hnext c hfirst
    obtain ⟨c, further, hwritten, hscan⟩ := scan_written (hwritable token List.mem_cons_self) hrest
    refine Cut.blanks hblanks ?_
    have hspelling : Spelling token token.written := by
      have hsound := (scan_sound hscan).2
      rwa [List.take_left, ← hwritten] at hsound
    refine .token hspelling (fun longer token' hfront hlonger => ?_) (ih htail htokens)
    rw [hwritten, List.cons_append] at hfront
    have hle := Lexemes.length_le_of_scan hscan hfront hlonger
    rwa [hwritten]

end Token

namespace Parser

open Token

/-! ## Derivations have no such places -/

/-- What a phrase starts with. -/
def opening : Token → Bool
  | .number _ | .text _ | .boolean _ | .name _ | .operator .add | .operator .subtract | .bang | .open => true
  | _ => false

/-- What a phrase ends with. -/
def closing : Token → Bool
  | .number _ | .text _ | .boolean _ | .name _ | .close => true
  | _ => false

/-- What stands between phrases or after them. -/
def between : Token → Bool
  | .operator _ | .question | .colon | .comma | .close => true
  | _ => false

theorem head?_format_ne (n : Number) {c : Char} (h : c ∈ (n.format Number.plainStyle).toList.head?) :
    c ≠ '=' ∧ c ≠ '>' := by
  cases n with
  | nan => obtain rfl := Option.some.inj h; decide
  | infinity negative => cases negative <;> (obtain rfl := Option.some.inj h; decide)
  | finite negative m =>
    obtain ⟨x, further, hchars, hx, -⟩ := Script.exists_positional_cons m.shortest
    have hformat : Number.formatMagnitude Number.plainStyle m = x :: further := by
      simp [Number.formatMagnitude, Number.plainStyle, hchars]
    cases negative with
    | true =>
      simp [Number.format, Number.plainStyle] at h
      subst h
      decide
    | false =>
      simp [Number.format, hformat] at h
      subst h
      constructor <;> (rintro rfl; exact absurd hx (by decide))

theorem parted_opening {token token' : Token} (h : closing token = false)
    (h' : opening token' = true) : Parted token token' := by
  intro c hc
  have hne : c ≠ '=' ∧ c ≠ '>' := by
    cases token' with
    | number n => exact head?_format_ne n hc
    | text s =>
      obtain rfl : '"' = c := by simpa [written, Script.textCode] using hc
      decide
    | boolean b => cases b <;> (obtain rfl := Option.some.inj hc; decide)
    | name s => obtain rfl := Option.some.inj hc; decide
    | operator op =>
      obtain rfl | rfl : op = .add ∨ op = .subtract := by cases op <;> simp_all [opening]
      · obtain rfl := Option.some.inj hc; decide
      · obtain rfl := Option.some.inj hc; decide
    | bang | «open» => obtain rfl := Option.some.inj hc; decide
    | question | colon | comma | close => exact absurd h' Bool.false_ne_true
  cases token with
  | operator op => simp [Token.joins, hne]
  | bang => simp [Token.joins, hne]
  | question | colon | comma | «open» => rfl
  | number | text | boolean | name | close => exact absurd h.symm Bool.false_ne_true

theorem parted_between {token token' : Token} (h : closing token = true)
    (h' : between token' = true) : Parted token token' := by
  intro c hc
  have hname : (isNameChar c || c == '.') = false := by
    cases token' with
    | operator op => cases op <;> (obtain rfl := Option.some.inj hc; decide)
    | question | colon | comma | close => obtain rfl := Option.some.inj hc; decide
    | number | text | boolean | name | bang | «open» => exact absurd h' Bool.false_ne_true
  cases token with
  | number n => exact hname
  | boolean b => exact hname
  | text | name | close => rfl
  | operator | bang | question | colon | comma | «open» => exact absurd h Bool.false_ne_true

/-- Tokens that may be written without blanks, from the start of a phrase to the end of one. -/
structure Spaced (tokens : List Token) : Prop where
  opens : ∃ token ∈ tokens.head?, opening token = true
  closes : ∃ token ∈ tokens.getLast?, closing token = true
  chain : tokens.IsChain Parted

namespace Spaced

variable {token : Token} {tokens tokens' : List Token}

theorem single (hopen : opening token = true) (hclose : closing token = true) : Spaced [token] :=
  ⟨⟨token, rfl, hopen⟩, ⟨token, rfl, hclose⟩, .singleton _⟩

/-- A token that may stand before the first one. -/
theorem cons (hopen : opening token = true) (hparted : ∀ next, opening next = true → Parted token next)
    (h : Spaced tokens) : Spaced (token :: tokens) := by
  obtain ⟨⟨first, hfirst, hopens⟩, ⟨last, hlast, hcloses⟩, hchain⟩ := h
  refine ⟨⟨token, rfl, hopen⟩, ⟨last, ?_, hcloses⟩, List.isChain_cons.2 ⟨fun next hnext => ?_, hchain⟩⟩
  · rw [List.getLast?_cons, Option.mem_def.1 hlast]
    rfl
  · obtain rfl : first = next := Option.some.inj (hfirst.symm.trans hnext)
    exact hparted first hopens

theorem close (h : Spaced tokens) : Spaced (tokens ++ [.close]) := by
  obtain ⟨⟨first, hfirst, hopens⟩, ⟨last, hlast, hcloses⟩, hchain⟩ := h
  refine ⟨⟨first, ?_, hopens⟩, ⟨.close, by simp, rfl⟩,
    List.isChain_append.2 ⟨hchain, .singleton _, fun x hx y hy => ?_⟩⟩
  · rw [List.head?_append, Option.mem_def.1 hfirst]
    rfl
  · obtain rfl := Option.some.inj hy
    obtain rfl : last = x := Option.some.inj (hlast.symm.trans hx)
    exact parted_between hcloses rfl

theorem parenthesized (h : Spaced tokens) : Spaced (.open :: (tokens ++ [.close])) :=
  h.close.cons rfl fun _ hnext => parted_opening rfl hnext

theorem append (hbetween : between token = true) (hclosing : closing token = false)
    (h : Spaced tokens) (h' : Spaced tokens') : Spaced (tokens ++ token :: tokens') := by
  obtain ⟨⟨first, hfirst, hopens⟩, ⟨last, hlast, hcloses⟩, hchain⟩ := h
  obtain ⟨⟨first', hfirst', hopens'⟩, ⟨last', hlast', hcloses'⟩, hchain'⟩ := h'
  refine ⟨⟨first, ?_, hopens⟩, ⟨last', ?_, hcloses'⟩,
    List.isChain_append.2 ⟨hchain, List.isChain_cons.2 ⟨fun next hnext => ?_, hchain'⟩, fun x hx y hy => ?_⟩⟩
  · rw [List.head?_append, Option.mem_def.1 hfirst]
    rfl
  · rw [List.getLast?_append, List.getLast?_cons, Option.mem_def.1 hlast']
    rfl
  · obtain rfl : first' = next := Option.some.inj (hfirst'.symm.trans hnext)
    exact parted_opening hclosing hopens'
  · obtain rfl := Option.some.inj hy
    obtain rfl : last = x := Option.some.inj (hlast.symm.trans hx)
    exact parted_between hcloses hbetween

end Spaced

theorem Derivation.yield_spaced {phrase : Phrase} (d : Derivation phrase) : Spaced d.yield := by
  induction d with
  | plain | tighter | tight | bare | first => assumption
  | number | text | boolean | «variable» => exact .single rfl rfl
  | emptyCall name =>
    have hname : Parted (.name name) .open := fun _ _ => rfl
    have hopen : Parted .open .close := fun _ _ => rfl
    exact ⟨⟨_, rfl, rfl⟩, ⟨.close, rfl, rfl⟩, .cons_cons hname (.cons_cons hopen (.singleton _))⟩
  | conditional condition whenTrue whenFalse ihc iht ihf => exact ihc.append rfl rfl (iht.append rfl rfl ihf)
  | binary n op hop left right ihl ihr => exact ihl.append rfl rfl ihr
  | unary op operand ih =>
    have hclosing : closing (prefixToken op) = false := by cases op <;> rfl
    exact ih.cons (by cases op <;> rfl) fun _ hnext => parted_opening hclosing hnext
  | power base exponent ihb ihe => exact ihb.append rfl rfl ihe
  | call name args ih => exact ih.parenthesized.cons rfl fun _ _ _ _ => rfl
  | parenthesized inner ih => exact ih.parenthesized
  | argument before last ihb ihl => exact ihb.append rfl rfl ihl

end Parser

end Formulary
