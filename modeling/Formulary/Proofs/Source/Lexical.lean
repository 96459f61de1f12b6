import Formulary.Proofs.Source.Numeral
import Formulary.Proofs.Text.Classes

/-!
# The lexical grammar of formulas

`Token.Spelling` says which characters spell a token, and `Cut` how a text is cut into tokens: blanks are
left out, and every token is the longest that is spelled at its place. A text has one cut at most
(`Cut.unique`), which `Lexemes.ofText` finds (`Cut.of_cutFrom`). It does not find a cut in which a name
follows a number directly, as in `1e`, where it expects the number to go on (`Cut.outcome`).
-/

namespace Formulary

namespace Token

/-! ## Spellings -/

/-- The tokens without content. Equality and inequality have two spellings. -/
def marks : List (List Char × Token) := [
  (['+'], .operator .add), (['-'], .operator .subtract), (['*'], .operator .multiply),
  (['/'], .operator .divide), (['%'], .operator .remainder), (['^'], .operator .power),
  (['='], .operator .equal), (['=', '='], .operator .equal), (['=', '=', '='], .operator .strictEqual),
  (['!', '='], .operator .notEqual), (['<', '>'], .operator .notEqual),
  (['!', '=', '='], .operator .strictNotEqual), (['<'], .operator .lessThan),
  (['<', '='], .operator .lessEqual), (['>'], .operator .greaterThan),
  (['>', '='], .operator .greaterEqual), (['&', '&'], .operator .and), (['|', '|'], .operator .or),
  (['!'], .bang), (['?'], .question), ([':'], .colon), ([','], .comma), (['('], .open), ([')'], .close)]

/-- Characters between quotes and the content that they spell. -/
inductive Quoted (quote : Char) : List Char → List Char → Prop where
  | nil : Quoted quote [] []
  | plain {c : Char} {chars content : List Char} (hquote : c ≠ quote) (hescape : c ≠ '\\')
    (h : Quoted quote chars content) : Quoted quote (c :: chars) (c :: content)
  | escape (c : Char) {chars content : List Char} (h : Quoted quote chars content) :
    Quoted quote ('\\' :: c :: chars) (unescape c :: content)

/-- The characters spell the token. -/
inductive Spelling : Token → List Char → Prop where
  | mark {token : Token} {chars : List Char} (h : (chars, token) ∈ marks) : Spelling token chars
  | number {n : Number} {chars : List Char} (h : IsNumeral chars n) : Spelling (.number n) chars
  | text {quote : Char} {chars content : List Char} (hquote : quote = '"' ∨ quote = '\'')
    (h : Quoted quote chars content) :
    Spelling (.text (String.ofList content)) (quote :: (chars ++ [quote]))
  | word {c : Char} {chars : List Char} (hc : isAlphabetic c = true ∨ c = '_')
    (hchars : ∀ x ∈ chars, isNameChar x = true) : Spelling (ofWord (c :: chars)) (c :: chars)
  | quotedName {chars : List Char} (h : ∀ c ∈ chars, c ≠ nameQuote) :
    Spelling (.name (String.ofList chars)) (nameQuote :: (chars ++ [nameQuote]))

/-! ## What is scanned is spelled -/

theorem scanText_sound {quote : Char} {rest content : List Char} {further : Nat}
    (h : scanText quote rest = some (content, further)) :
    ∃ chars tail, rest = chars ++ quote :: tail ∧ further = chars.length + 1 ∧
      Quoted quote chars content := by
  fun_induction scanText quote rest generalizing content further with
  | case1 => exact nomatch h
  | case2 c rest ih =>
    obtain ⟨⟨content', further'⟩, hscan, heq⟩ := Option.map_eq_some_iff.1 h
    obtain ⟨rfl, rfl⟩ := Prod.mk.inj heq
    obtain ⟨chars, tail, rfl, rfl, hquoted⟩ := ih hscan
    exact ⟨'\\' :: c :: chars, tail, rfl, rfl, .escape c hquoted⟩
  | case3 rest hescape =>
    obtain ⟨rfl, rfl⟩ := Prod.mk.inj (Option.some.inj h)
    exact ⟨[], rest, rfl, rfl, .nil⟩
  | case4 c rest hescape hquote ih =>
    obtain ⟨⟨content', further'⟩, hscan, heq⟩ := Option.map_eq_some_iff.1 h
    obtain ⟨rfl, rfl⟩ := Prod.mk.inj heq
    have hplain : c ≠ '\\' := by
      rintro rfl
      cases rest with
      | nil => exact nomatch hscan
      | cons x rest => exact hescape x rest rfl rfl
    obtain ⟨chars, tail, rfl, rfl, hquoted⟩ := ih hscan
    exact ⟨c :: chars, tail, rfl, rfl, .plain hquote hplain hquoted⟩

theorem scanNumber_sound {c : Char} {rest : List Char} {token : Token} {further : Nat}
    (hstart : StartsNumeral (c :: rest)) (h : scanNumber (c :: rest) = .token token further) :
    further ≤ rest.length ∧ Spelling token (c :: rest.take further) := by
  rw [scanNumber] at h
  cases hn : Number.ofDecimal? (numberChars (c :: rest)) with
  | none => simp [hn] at h
  | some n =>
    simp only [hn, Scan.token.injEq] at h
    obtain ⟨rfl, rfl⟩ := h
    have hnumeral := hstart.isNumeral hn
    have htake := List.prefix_iff_eq_take.1 (numberChars_isPrefix (c :: rest))
    have hpos : 0 < (numberChars (c :: rest)).length := List.length_pos_iff.2 hnumeral.ne_nil
    have hle := (numberChars_isPrefix (c :: rest)).length_le
    rw [List.length_cons] at hle
    refine ⟨by omega, ?_⟩
    rw [← List.take_succ_cons, Nat.sub_add_cancel hpos, ← htake]
    exact .number hnumeral

/-- Up to its first quote, a text that has one. -/
theorem take_to_quote {rest : List Char} (h : (rest.takeWhile (· ≠ nameQuote)).length < rest.length) :
    rest.take ((rest.takeWhile (· ≠ nameQuote)).length + 1) =
      rest.takeWhile (· ≠ nameQuote) ++ [nameQuote] := by
  have hsplit := List.takeWhile_append_dropWhile (p := (· ≠ nameQuote)) (l := rest)
  cases hafter : rest.dropWhile (· ≠ nameQuote) with
  | nil =>
    rw [hafter, List.append_nil] at hsplit
    rw [hsplit] at h
    exact absurd h (Nat.lt_irrefl _)
  | cons c after =>
    have hhead : c ∈ (rest.dropWhile (· ≠ nameQuote)).head? := by rw [hafter]; rfl
    have hc := head?_dropWhile hhead
    obtain rfl : c = nameQuote := by simpa using hc
    rw [hafter] at hsplit
    generalize rest.takeWhile (· ≠ nameQuote) = content at hsplit
    subst hsplit
    simp [List.take_append]

theorem scanQuotedName_sound {rest : List Char} {token : Token} {further : Nat}
    (h : scanQuotedName rest = .token token further) :
    further ≤ rest.length ∧ Spelling token (nameQuote :: rest.take further) := by
  rw [scanQuotedName] at h
  split at h
  · next hlength =>
    obtain ⟨rfl, rfl⟩ := Scan.token.inj h
    refine ⟨hlength, ?_⟩
    rw [take_to_quote hlength]
    exact .quotedName fun c hc => by simpa using List.mem_takeWhile_imp hc
  · exact nomatch h

theorem scan_sound {c : Char} {rest : List Char} {token : Token} {further : Nat}
    (h : scan c rest = .token token further) :
    further ≤ rest.length ∧ Spelling token (c :: rest.take further) := by
  unfold scan at h
  split at h
  case h_25 =>
    split at h
    · exact nomatch h
    split at h
    · next hquote =>
      split at h
      · next content further' hscan =>
        obtain ⟨rfl, rfl⟩ := Scan.token.inj h
        obtain ⟨chars, tail, rfl, rfl, hquoted⟩ := scanText_sound hscan
        refine ⟨by simp, ?_⟩
        have htake : (chars ++ c :: tail).take (chars.length + 1) = chars ++ [c] := by simp [List.take_append]
        rw [htake]
        exact .text hquote hquoted
      · exact nomatch h
    split at h
    · next hname =>
      obtain rfl := hname
      exact scanQuotedName_sound h
    split at h
    · next hstart => exact scanNumber_sound ⟨_, _, rfl, hstart⟩ h
    split at h
    · next hc =>
      obtain ⟨rfl, rfl⟩ := Scan.token.inj h
      have hfront := List.takeWhile_prefix (l := rest) isNameChar
      refine ⟨hfront.length_le, ?_⟩
      rw [← List.prefix_iff_eq_take.1 hfront]
      exact .word hc fun x hx => List.mem_takeWhile_imp hx
    · exact nomatch h
  all_goals
    obtain ⟨rfl, rfl⟩ := Scan.token.inj h
    exact ⟨by simp, .mark (by repeat (first | exact .head _ | apply List.Mem.tail))⟩

/-! ## What is spelled is scanned -/

/-- At this character, before `rest` and `tail`, a token is scanned that takes at least `rest`, and the
given one if it takes no more. -/
def Covers (c : Char) (rest tail : List Char) (token : Token) : Prop :=
  ∃ token' further, scan c (rest ++ tail) = .token token' further ∧ rest.length ≤ further ∧
    (further = rest.length → token' = token)

theorem covers_exact {c : Char} {rest tail : List Char} {token : Token}
    (h : scan c (rest ++ tail) = .token token rest.length) : Covers c rest tail token :=
  ⟨token, rest.length, h, Nat.le_refl _, fun _ => rfl⟩

theorem covers_mark {mark : List Char × Token} (h : mark ∈ marks) (tail : List Char) :
    ∃ c rest, mark.1 = c :: rest ∧ Covers c rest tail mark.2 := by
  simp only [marks, List.mem_cons, List.not_mem_nil, or_false] at h
  rcases h with rfl | rfl | rfl | rfl | rfl | rfl | rfl | rfl | rfl | rfl | rfl | rfl | rfl | rfl | rfl |
    rfl | rfl | rfl | rfl | rfl | rfl | rfl | rfl | rfl
  all_goals first
    | exact ⟨_, _, rfl, covers_exact rfl⟩
    | refine ⟨_, _, rfl, ?_⟩
      unfold Covers scan
      split <;> simp_all

theorem scan_quote {quote : Char} (hquote : quote = '"' ∨ quote = '\'') (rest : List Char) :
    scan quote rest = match scanText quote rest with
      | some (content, further) => .token (text (String.ofList content)) further
      | none => .unclosed quote := by
  rcases hquote with rfl | rfl <;> rfl

theorem scan_nameQuote (rest : List Char) : scan nameQuote rest = scanQuotedName rest := rfl

theorem Quoted.scanText {quote : Char} (hquote : quote ≠ '\\') {chars content : List Char}
    (h : Quoted quote chars content) (tail : List Char) :
    scanText quote (chars ++ quote :: tail) = some (content, chars.length + 1) := by
  induction h with
  | nil =>
    rw [List.nil_append, Token.scanText, if_pos rfl]
    · rfl
    · exact fun _ _ h => absurd h hquote
  | @plain c chars content hc hescape h ih =>
    rw [List.cons_append, Token.scanText, if_neg hc, ih]
    · rfl
    · exact fun _ _ h => absurd h hescape
  | @escape c chars content h ih =>
    rw [List.cons_append, List.cons_append, Token.scanText, ih]
    rfl

theorem Quoted.scan {quote : Char} (hquote : quote = '"' ∨ quote = '\'') {chars content : List Char}
    (h : Quoted quote chars content) (tail : List Char) :
    scan quote (chars ++ [quote] ++ tail) =
      .token (text (String.ofList content)) (chars ++ [quote]).length := by
  have hescape : quote ≠ '\\' := by rcases hquote with rfl | rfl <;> decide
  rw [scan_quote hquote, List.append_assoc, List.singleton_append, h.scanText hescape]
  simp

theorem scan_closedName {chars : List Char} (h : ∀ c ∈ chars, c ≠ nameQuote) (tail : List Char) :
    scan nameQuote (chars ++ [nameQuote] ++ tail) =
      .token (name (String.ofList chars)) (chars ++ [nameQuote]).length := by
  have htake : (chars ++ nameQuote :: tail).takeWhile (· ≠ nameQuote) = chars := by
    refine (span_append (fun c hc => by simpa using h c hc) fun c hc => ?_).1
    obtain rfl := Option.some.inj hc
    simp
  rw [scan_nameQuote, List.append_assoc, List.singleton_append, scanQuotedName, htake, if_pos (by simp)]
  simp

theorem scan_word {c : Char} (hc : isAlphabetic c = true ∨ c = '_') (rest : List Char) :
    scan c rest = .token (ofWord (c :: rest.takeWhile isNameChar))
      (rest.takeWhile isNameChar).length := by
  have hword : (isAlphabetic c || c == '_') = true := by simpa using hc
  have hdigit : isDigit c = false := by
    rcases hc with hc | rfl
    · cases h : isDigit c with
      | false => rfl
      | true => exact absurd hc (by simp [isAlphabetic_of_isDigit h])
    · rfl
  unfold scan
  -- no mark starts a word
  split
  case h_25 =>
    have hne : ∀ x, (isAlphabetic x || x == '_') = false → c ≠ x := by
      rintro x hx rfl
      rw [hword] at hx
      exact nomatch hx
    rw [if_neg (not_or.2 ⟨hne _ (by decide), hne _ (by decide)⟩),
      if_neg (not_or.2 ⟨hne _ (by decide), hne _ (by decide)⟩), if_neg (hne _ (by decide)),
      if_neg (by simp [hdigit, hne '.' (by decide)]), if_pos hc]
  all_goals exact absurd hword (by decide)

theorem scan_numeral {c : Char} {rest : List Char} (h : StartsNumeral (c :: rest)) :
    scan c rest = scanNumber (c :: rest) := by
  obtain ⟨c', rest', heq, hstart⟩ := h
  obtain ⟨rfl, rfl⟩ := List.cons.inj heq
  have hmark : (isDigit c || c == '.') = true := by
    rcases hstart with hc | ⟨rfl, -⟩
    · rw [hc, Bool.true_or]
    · rfl
  unfold scan
  split
  case h_25 =>
    have hne : ∀ x, (isDigit x || x == '.') = false → c ≠ x := by
      rintro x hx rfl
      rw [hmark] at hx
      exact nomatch hx
    rw [if_neg (not_or.2 ⟨hne _ (by decide), hne _ (by decide)⟩),
      if_neg (not_or.2 ⟨hne _ (by decide), hne _ (by decide)⟩), if_neg (hne _ (by decide)),
      if_pos hstart]
  all_goals exact absurd hmark (by decide)

/-- Where a token is spelled, it or a longer one is scanned, unless a numeral goes on with an exponent
that breaks off. -/
theorem Spelling.covers {token : Token} {chars : List Char} (h : Spelling token chars)
    (tail : List Char) : ∃ c rest, chars = c :: rest ∧ (Covers c rest tail token ∨
      (∃ n, token = .number n ∧ IsNumeral chars n) ∧
        Number.ofDecimal? (numberChars (chars ++ tail)) = none) := by
  cases h with
  | mark h =>
    obtain ⟨c, rest, hchars, hcovers⟩ := covers_mark h tail
    exact ⟨c, rest, hchars, .inl hcovers⟩
  | @number n _ h =>
    obtain ⟨c, rest, rfl⟩ := List.exists_cons_of_ne_nil h.ne_nil
    refine ⟨c, rest, rfl, ?_⟩
    cases hm : Number.ofDecimal? (numberChars (c :: rest ++ tail)) with
    | none => exact .inr ⟨⟨n, rfl, h⟩, rfl⟩
    | some m =>
      have hfront := h.prefix_numberChars tail
      have hle := hfront.length_le
      rw [List.length_cons] at hle
      refine .inl ⟨.number m, (numberChars (c :: rest ++ tail)).length - 1, ?_, by omega, fun heq => ?_⟩
      · have hstart : StartsNumeral (c :: (rest ++ tail)) := h.starts tail
        rw [scan_numeral hstart, scanNumber, ← List.cons_append, hm]
      · have hsame := hfront.eq_of_length (by rw [List.length_cons]; omega)
        rw [← hsame, h.2] at hm
        rw [Option.some.inj hm]
  | @text quote chars content hquote h =>
    exact ⟨quote, chars ++ [quote], rfl, .inl (covers_exact (h.scan hquote tail))⟩
  | @word c chars hc hchars =>
    have htake : (chars ++ tail).takeWhile isNameChar = chars ++ tail.takeWhile isNameChar :=
      List.takeWhile_append_of_pos hchars
    refine ⟨c, chars, rfl, .inl ⟨_, _, scan_word hc _, ?_, fun heq => ?_⟩⟩
    · rw [htake, List.length_append]
      omega
    · rw [htake, List.length_append] at heq
      rw [htake, List.length_eq_zero_iff.1 (by omega : (tail.takeWhile isNameChar).length = 0),
        List.append_nil]
  | @quotedName chars h =>
    exact ⟨nameQuote, chars ++ [nameQuote], rfl, .inl (covers_exact (scan_closedName h tail))⟩

theorem Spelling.scan_self {token : Token} {chars : List Char} (h : Spelling token chars) :
    ∃ c rest, chars = c :: rest ∧ scan c rest = .token token rest.length := by
  obtain ⟨c, rest, rfl, ⟨token', further, hscan, hle, hsame⟩ | ⟨⟨n, rfl, hn⟩, hnone⟩⟩ := h.covers []
  · rw [List.append_nil] at hscan
    obtain rfl : further = rest.length := Nat.le_antisymm (scan_sound hscan).1 hle
    exact ⟨c, rest, rfl, hsame rfl ▸ hscan⟩
  · rw [List.append_nil, hn.numberChars_eq, hn.2] at hnone
    exact nomatch hnone

/-- Characters spell one token at most. -/
theorem Spelling.unique {token token' : Token} {chars : List Char} (h : Spelling token chars)
    (h' : Spelling token' chars) : token = token' := by
  obtain ⟨c, rest, rfl, hscan⟩ := h.scan_self
  obtain ⟨c', rest', heq, hscan'⟩ := h'.scan_self
  obtain ⟨rfl, rfl⟩ := List.cons.inj heq
  rw [hscan] at hscan'
  exact (Scan.token.inj hscan').1

/-! ## Blanks -/

theorem mark_not_blank {chars : List Char} {token : Token} (h : (chars, token) ∈ marks) :
    ∀ c ∈ chars, isBlank c = false := by
  have hmarks : (marks.all fun mark => mark.1.all fun c => !isBlank c) = true := by decide
  intro c hc
  simpa using List.all_eq_true.1 (List.all_eq_true.1 hmarks _ h) c hc

theorem exponent_not_blank {text : List Char} (h : (DecimalText.exponent? text).isSome) :
    ∀ c ∈ text, isBlank c = false := by
  cases text with
  | nil => exact nofun
  | cons mark rest =>
    by_cases hmark : mark = 'e' ∨ mark = 'E'
    · rw [exponent?_isSome hmark, Bool.and_eq_true, List.all_eq_true] at h
      refine List.forall_mem_cons.2 ⟨by rcases hmark with rfl | rfl <;> decide, ?_⟩
      rcases sign_cases rest with ⟨sign, digits, rfl, hsign⟩ | hsign
      · rw [splitSign_snd hsign] at h
        refine List.forall_mem_cons.2 ⟨by rcases hsign with rfl | rfl <;> decide, fun c hc => ?_⟩
        exact isBlank_of_isDigit (h.2 c hc)
      · rw [splitSign_of_ne hsign] at h
        exact fun c hc => isBlank_of_isDigit (h.2 c hc)
    · rw [DecimalText.exponent?, if_neg (by simpa using hmark)] at h
      exact absurd h Bool.false_ne_true

theorem IsNumeral.not_blank {text : List Char} {n : Number} (h : IsNumeral text n) :
    ∀ c ∈ text, isBlank c = false := by
  obtain ⟨whole, point, rest, rfl, hparts, -, hexponent⟩ := h.exists_parts
  have hwhole : ∀ c ∈ whole, isDigit c = true := by cases hparts <;> assumption
  intro c hc
  rcases List.mem_append.1 hc with hc | hc
  · exact isBlank_of_isDigit (hwhole c hc)
  rcases List.mem_append.1 hc with hc | hc
  · cases hparts with
    | integer => cases hc
    | decimal hwhole hfraction =>
      rcases List.mem_cons.1 hc with rfl | hc
      · decide
      · exact isBlank_of_isDigit (hfraction c hc)
  · exact exponent_not_blank hexponent c hc

/-- No token starts with a blank. -/
theorem Spelling.not_blank {token : Token} {chars : List Char} (h : Spelling token chars) :
    ∀ c ∈ chars.head?, isBlank c = false := by
  intro c hc
  cases h with
  | mark h => exact mark_not_blank h c (List.mem_of_mem_head? hc)
  | number h => exact h.not_blank c (List.mem_of_mem_head? hc)
  | text hquote =>
    obtain rfl := Option.some.inj hc
    rcases hquote with rfl | rfl <;> decide
  | word hword =>
    obtain rfl := Option.some.inj hc
    rcases hword with hword | rfl
    · cases hblank : isBlank _ with
      | false => rfl
      | true => exact absurd hword (by simp [isAlphabetic_of_isBlank hblank])
    · decide
  | quotedName =>
    obtain rfl := Option.some.inj hc
    decide

end Token

namespace Lexemes

/-! ## Cuts -/

open Token

/-- The text is cut into the tokens. -/
inductive Cut : List Char → List Token → Prop where
  | nil : Cut [] []
  | blank {c : Char} {rest : List Char} {tokens : List Token} (hblank : isBlank c = true)
    (hrest : Cut rest tokens) : Cut (c :: rest) tokens
  | token {chars rest : List Char} {token : Token} {tokens : List Token}
    (hspelling : Spelling token chars)
    (hlongest : ∀ longer token', longer <+: chars ++ rest → Spelling token' longer →
      longer.length ≤ chars.length)
    (hrest : Cut rest tokens) : Cut (chars ++ rest) (token :: tokens)

/-- The characters of a token are passed over once it is cut. -/
theorem cutFrom_drop (skip offset : Nat) (text : List Char) : ∃ offset',
    cutFrom offset skip text = cutFrom offset' 0 (text.drop skip) := by
  induction skip generalizing offset text with
  | zero => exact ⟨offset, rfl⟩
  | succ skip ih =>
    cases text with
    | nil => exact ⟨offset, rfl⟩
    | cons c text => exact ih (offset + c.utf8Size) text

/-- No token that is spelled at a place is longer than the one that is scanned there. -/
theorem length_le_of_scan {c : Char} {rest longer : List Char} {token token' : Token} {further : Nat}
    (hscan : scan c rest = .token token further) (hfront : longer <+: c :: rest)
    (h : Spelling token' longer) : longer.length ≤ further + 1 := by
  obtain ⟨tail, htail⟩ := hfront
  obtain ⟨c', rest', rfl, hcovers | ⟨⟨n, -, hn⟩, hnone⟩⟩ := h.covers tail
  · obtain ⟨rfl, hrest⟩ : c' = c ∧ rest' ++ tail = rest := List.cons.inj htail
    obtain ⟨token'', further', hscan', hle, -⟩ := hcovers
    rw [hrest, hscan] at hscan'
    obtain ⟨-, rfl⟩ := Scan.token.inj hscan'
    exact Nat.succ_le_succ hle
  · have hstart := hn.starts tail
    rw [htail] at hstart hnone
    rw [scan_numeral hstart, scanNumber, hnone] at hscan
    exact nomatch hscan

/-- A token that is scanned is cut, also from a text that breaks off behind it. -/
theorem Cut.scanned {c : Char} {rest after : List Char} {token : Token} {further : Nat} {tokens : List Token}
    (hscan : scan c (rest ++ after) = .token token further) (hle : further ≤ rest.length)
    (h : Cut (rest.drop further) tokens) : Cut (c :: rest) (token :: tokens) := by
  have hspelling := (scan_sound hscan).2
  rw [List.take_append_of_le_length hle] at hspelling
  have htext : c :: rest = (c :: rest.take further) ++ rest.drop further := by
    rw [List.cons_append, List.take_append_drop]
  rw [htext]
  refine .token hspelling (fun longer token' hfront hlonger => ?_) h
  rw [← htext] at hfront
  have hwhole : longer <+: c :: (rest ++ after) := hfront.trans (List.prefix_append (c :: rest) after)
  have hlength := length_le_of_scan hscan hwhole hlonger
  rwa [List.length_cons, List.length_take, Nat.min_eq_left hle]

/-- The tokens of a text without lexical faults are a cut of it. -/
theorem Cut.of_cutFrom {offset skip finish : Nat} {text : List Char}
    (h : (cutFrom offset skip text).ending = .finish finish) :
    Cut (text.drop skip) ((cutFrom offset skip text).list.map Lexeme.token) := by
  fun_induction cutFrom offset skip text with
  | case1 offset skip =>
    rw [List.drop_nil]
    exact .nil
  | case2 offset skip c rest ih => exact ih h
  | case3 offset c rest hblank ih => exact .blank hblank (ih h)
  | case4 offset c rest hblank token further hscan after ih =>
    have hle := (scan_sound hscan).1
    rw [← List.append_nil rest] at hscan
    exact .scanned hscan hle (ih h)
  | case5 => exact nomatch h
  | case6 => exact nomatch h

/-- A word that starts like an exponent is a name. -/
theorem name_of_mark {token : Token} {mark : Char} {rest : List Char}
    (hmark : mark = 'e' ∨ mark = 'E') (h : Spelling token (mark :: rest)) : ∃ s, token = .name s := by
  obtain ⟨c, rest', heq, hscan⟩ := h.scan_self
  obtain ⟨rfl, rfl⟩ := List.cons.inj heq
  have hne : mark ≠ 't' ∧ mark ≠ 'f' := by rcases hmark with rfl | rfl <;> decide
  have hword : isAlphabetic mark = true := by rcases hmark with rfl | rfl <;> decide
  rw [scan_word (.inl hword)] at hscan
  obtain ⟨rfl, -⟩ := Scan.token.inj hscan
  have htrue : mark :: rest.takeWhile isNameChar ≠ "true".toList :=
    fun h => hne.1 (List.cons.inj h).1
  have hfalse : mark :: rest.takeWhile isNameChar ≠ "false".toList :=
    fun h => hne.2 (List.cons.inj h).1
  exact ⟨_, by rw [ofWord, if_neg htrue, if_neg hfalse]⟩

/-- Where there is no blank there is a token. -/
theorem Cut.exists_spelling {c : Char} {rest : List Char} {tokens : List Token}
    (h : Cut (c :: rest) tokens) (hblank : isBlank c = false) :
    ∃ token chars tokens', tokens = token :: tokens' ∧ Spelling token (c :: chars) := by
  generalize htext : c :: rest = text at h
  cases h with
  | nil => exact nomatch htext
  | blank hblank' =>
    obtain ⟨rfl, -⟩ := List.cons.inj htext
    rw [hblank] at hblank'
    exact nomatch hblank'
  | @token chars _ token tokens hspelling =>
    obtain ⟨c', chars, rfl, -⟩ := hspelling.scan_self
    obtain ⟨rfl, -⟩ : c = c' ∧ _ := List.cons.inj htext
    exact ⟨token, chars, tokens, rfl, hspelling⟩

/-- A cut is found, unless a name follows a number in it. -/
theorem Cut.outcome {text : List Char} {tokens : List Token} (h : Cut text tokens) (offset : Nat) :
    (((cutFrom offset 0 text).list.map Lexeme.token = tokens ∧
      ∃ finish, (cutFrom offset 0 text).ending = .finish finish)) ∨
    ∃ n s, [.number n, .name s] <:+: tokens := by
  induction h generalizing offset with
  | nil => exact .inl ⟨rfl, offset, rfl⟩
  | @blank c rest tokens hblank hrest ih =>
    rw [cutFrom, if_pos hblank]
    exact ih _
  | @token chars rest token tokens hspelling hlongest hrest ih =>
    have hblank := hspelling.not_blank
    obtain ⟨c, further, rfl, hcovers | ⟨⟨n, rfl, hn⟩, hnone⟩⟩ := hspelling.covers rest
    · obtain ⟨token', width, hscan, hle, hsame⟩ := hcovers
      obtain ⟨hwidth, hspelling'⟩ := scan_sound hscan
      -- the scan takes what the token covers, and no more, as the token is the longest
      have hfront : c :: (further ++ rest).take width <+: c :: further ++ rest :=
        (List.prefix_cons_inj c).2 (List.take_prefix width _)
      have hlength := hlongest _ _ hfront hspelling'
      rw [List.length_cons, List.length_cons, List.length_take, Nat.min_eq_left hwidth] at hlength
      obtain rfl : width = further.length := by omega
      obtain rfl := hsame rfl
      obtain ⟨offset', hdrop⟩ := cutFrom_drop further.length (offset + c.utf8Size) (further ++ rest)
      rw [List.drop_left] at hdrop
      rw [List.cons_append, cutFrom, if_neg (by simp [hblank c rfl])]
      simp only [hscan, hdrop, List.map_cons]
      rcases ih offset' with ⟨htokens, hending⟩ | ⟨n, s, hnames⟩
      · exact .inl ⟨by rw [htokens], hending⟩
      · exact .inr ⟨n, s, hnames.trans (List.infix_cons List.infix_rfl)⟩
    · obtain ⟨front, mark, after, m, htext, hmark, hfront, hmost⟩ :=
        numberChars_malformed (hn.starts rest) hnone
      -- the token ends before the mark of the broken exponent, where a name begins
      have hshort := hlongest front _ (htext ▸ List.prefix_append _ _) (.number hfront)
      have hlong := hmost _ n (List.prefix_append _ _) hn
      obtain ⟨rfl, rfl⟩ := List.append_inj htext (by omega)
      obtain ⟨token', chars, tokens', rfl, hspelling'⟩ :=
        hrest.exists_spelling (by rcases hmark with rfl | rfl <;> decide)
      obtain ⟨name, rfl⟩ := name_of_mark hmark hspelling'
      exact .inr ⟨n, name, [], tokens', rfl⟩

/-- A text has one cut at most. -/
theorem Cut.unique {text : List Char} {tokens tokens' : List Token} (h : Cut text tokens)
    (h' : Cut text tokens') : tokens = tokens' := by
  induction h generalizing tokens' with
  | nil =>
    generalize htext : [] = text at h'
    cases h' with
    | nil => rfl
    | blank => exact nomatch htext
    | token hspelling =>
      obtain ⟨c, chars, rfl, -⟩ := hspelling.scan_self
      exact nomatch htext
  | @blank c rest tokens hblank hrest ih =>
    generalize htext : c :: rest = text at h'
    cases h' with
    | nil => exact nomatch htext
    | blank _ hrest' =>
      obtain ⟨rfl, rfl⟩ := List.cons.inj htext
      exact ih hrest'
    | token hspelling =>
      obtain ⟨c', chars, rfl, -⟩ := hspelling.scan_self
      obtain ⟨rfl, -⟩ : c = c' ∧ _ := List.cons.inj htext
      rw [hspelling.not_blank c rfl] at hblank
      exact nomatch hblank
  | @token chars rest token tokens hspelling hlongest hrest ih =>
    generalize htext : chars ++ rest = text at h'
    obtain ⟨c, further, rfl, -⟩ := hspelling.scan_self
    cases h' with
    | nil => exact nomatch htext
    | blank hblank =>
      obtain ⟨rfl, -⟩ : c = _ ∧ _ := List.cons.inj htext
      rw [hspelling.not_blank c rfl] at hblank
      exact nomatch hblank
    | @token chars' rest' token' tokens' hspelling' hlongest' hrest' =>
      -- both first tokens are longest, so they are equally long
      have hle := hlongest chars' token' (htext ▸ List.prefix_append _ _) hspelling'
      have hge := hlongest' _ token (htext ▸ List.prefix_append _ _) hspelling
      obtain ⟨rfl, rfl⟩ := List.append_inj htext (Nat.le_antisymm hge hle)
      rw [hspelling.unique hspelling', ih hrest']

end Lexemes

end Formulary
