import Formulary.Proofs.Reader
import Formulary.Proofs.Script.Spelling
import Formulary.Proofs.Source.Numeral

/-!
# The lexical grammar of scripts

`Spelling` says which characters spell a token, and `Cut` how a code is cut into tokens: blanks are left out,
and every token takes the most characters that can be one. A number takes its digits and points with all that
looks like an exponent, also where these denote no number; then there is no cut. The tokens that
`Script.lexemes` finds are the cut of a code (`lexemes_iff_cut`).
-/

namespace Formulary

namespace Script

open Formulary.Token (takeExponent_signed takeExponent_unsigned takeExponent_isPrefix takeExponent_prefix_append
  span_append sign_cases)

/-! ## Spellings -/

/-- The tokens without content. -/
def marks : List (List Char × Token) := [
  (['('], .open), ([')'], .close), ([','], .comma), (['?'], .question), ([':'], .colon), (['-'], .minus),
  (['!'], .bang), (['!', '='], .notEqual), (['!', '=', '='], .strictNotEqual), (['=', '='], .equal),
  (['=', '=', '='], .strictEqual), (['&', '&'], .and), (['|', '|'], .or)]

/-- Characters between quotes and the content that they spell. -/
inductive Quoted : List Char → List Char → Prop where
  | nil : Quoted [] []
  | plain {c : Char} {chars content : List Char} (hquote : c ≠ '"') (hescape : c ≠ '\\')
    (h : Quoted chars content) : Quoted (c :: chars) (c :: content)
  | escape {escape c : Char} {chars content : List Char} (hescape : unescape? escape = some c)
    (h : Quoted chars content) : Quoted ('\\' :: escape :: chars) (c :: content)

/-- What stands behind digits and points as an exponent: nothing, or a mark, a sign if there is one, and
digits if there are any. -/
inductive ExponentRun : List Char → Prop where
  | none : ExponentRun []
  | unsigned {mark : Char} {digits : List Char} (hmark : mark = 'e' ∨ mark = 'E')
    (hdigits : ∀ c ∈ digits, isDigit c = true) : ExponentRun (mark :: digits)
  | signed {mark sign : Char} {digits : List Char} (hmark : mark = 'e' ∨ mark = 'E')
    (hsign : sign = '+' ∨ sign = '-') (hdigits : ∀ c ∈ digits, isDigit c = true) :
    ExponentRun (mark :: sign :: digits)

/-- The characters that are taken for a number, whether they denote one or not. -/
inductive NumberRun : List Char → Prop where
  | intro {parts exponent : List Char} (hne : parts ≠ [])
    (hparts : ∀ c ∈ parts, (isDigit c || c == '.') = true) (hexponent : ExponentRun exponent) :
    NumberRun (parts ++ exponent)

/-- The characters spell the token. -/
inductive Spelling : Token → List Char → Prop where
  | mark {token : Token} {chars : List Char} (h : (chars, token) ∈ marks) : Spelling token chars
  | number {n : Number} {chars : List Char} (hrun : NumberRun chars)
    (h : Number.ofDecimal? chars = some n) : Spelling (.number n) chars
  | text {chars content : List Char} (h : Quoted chars content) :
    Spelling (.text (String.ofList content)) ('"' :: (chars ++ ['"']))
  | word {c : Char} {chars : List Char} (hc : isAsciiLetter c = true ∨ c = '_')
    (hchars : ∀ x ∈ chars, isWordChar x = true) :
    Spelling (.word (String.ofList (c :: chars))) (c :: chars)

/-- The characters can be taken for a token. -/
def IsRun (chars : List Char) : Prop := NumberRun chars ∨ ∃ token, Spelling token chars

/-- The code is cut into the tokens. -/
inductive Cut : List Char → List Token → Prop where
  | nil : Cut [] []
  | blank {c : Char} {rest : List Char} {tokens : List Token} (hblank : isBlank c = true)
    (hrest : Cut rest tokens) : Cut (c :: rest) tokens
  | token {chars rest : List Char} {token : Token} {tokens : List Token}
    (hspelling : Spelling token chars)
    (hlongest : ∀ longer, longer <+: chars ++ rest → IsRun longer → longer.length ≤ chars.length)
    (hrest : Cut rest tokens) : Cut (chars ++ rest) (token :: tokens)

/-! ## Runs of numbers -/

theorem ExponentRun.takeExponent_eq {run : List Char} (h : ExponentRun run) :
    DecimalText.takeExponent run = run := by
  cases h with
  | none => rfl
  | @unsigned mark digits hmark hdigits =>
    rw [takeExponent_unsigned hmark, List.takeWhile_eq_self_iff.2 hdigits]
    intro x hx
    have := hdigits x (List.mem_of_mem_head? hx)
    rintro (rfl | rfl) <;> exact absurd this (by decide)
  | signed hmark hsign hdigits =>
    rw [takeExponent_signed hmark hsign, List.takeWhile_eq_self_iff.2 hdigits]

theorem exponentRun_takeExponent (text : List Char) : ExponentRun (DecimalText.takeExponent text) := by
  cases text with
  | nil => exact .none
  | cons c rest =>
    by_cases hmark : c = 'e' ∨ c = 'E'
    · have hdigits : ∀ digits : List Char, ∀ x ∈ digits.takeWhile isDigit, isDigit x = true :=
        fun _ _ hx => List.mem_takeWhile_imp hx
      rcases sign_cases rest with ⟨sign, digits, rfl, hsign⟩ | hsign
      · rw [takeExponent_signed hmark hsign]
        exact .signed hmark hsign (hdigits digits)
      · rw [takeExponent_unsigned hmark hsign]
        exact .unsigned hmark (hdigits rest)
    · rw [Token.takeExponent_of_ne hmark]
      exact .none

theorem numberChars_isPrefix (text : List Char) : numberChars text <+: text := by
  have h := (List.prefix_append_right_inj (text.takeWhile fun c => isDigit c || c == '.')).2
    (takeExponent_isPrefix (text.dropWhile fun c => isDigit c || c == '.'))
  rwa [List.takeWhile_append_dropWhile] at h

theorem numberRun_numberChars {c : Char} (h : (isDigit c || c == '.') = true) (rest : List Char) :
    NumberRun (numberChars (c :: rest)) := by
  have hne : (c :: rest).takeWhile (fun c => isDigit c || c == '.') ≠ [] := by
    rw [@List.takeWhile_cons_of_pos _ (fun c => isDigit c || c == '.') c rest h]
    exact List.cons_ne_nil _ _
  have hparts : ∀ x ∈ (c :: rest).takeWhile (fun c => isDigit c || c == '.'), (isDigit x || x == '.') = true :=
    fun x hx => @List.mem_takeWhile_imp _ _ _ x hx
  exact .intro hne hparts (exponentRun_takeExponent _)

/-- A run is a beginning of what is taken where it stands. -/
theorem NumberRun.prefix_numberChars {run : List Char} (h : NumberRun run) (tail : List Char) :
    run <+: numberChars (run ++ tail) := by
  obtain ⟨hne, hparts, hexponent⟩ := h
  rename_i parts exponent
  cases exponent with
  | nil =>
    rw [List.append_nil, numberChars, List.takeWhile_append_of_pos hparts, List.append_assoc]
    exact List.prefix_append _ _
  | cons mark exponent =>
    have hmark : (isDigit mark || mark == '.') = false := by
      cases hexponent with
      | unsigned hmark | signed hmark => rcases hmark with rfl | rfl <;> rfl
    have hstop : ∀ c ∈ (mark :: exponent ++ tail).head?, (isDigit c || c == '.') = false := by
      simpa using hmark
    obtain ⟨htake, hdrop⟩ := span_append hparts hstop
    rw [numberChars, List.append_assoc, htake, hdrop, List.prefix_append_right_inj]
    have h := takeExponent_prefix_append (mark :: exponent) tail
    rwa [hexponent.takeExponent_eq] at h

theorem NumberRun.exists_cons {run : List Char} (h : NumberRun run) : ∃ c further, run = c :: further ∧
    (isDigit c || c == '.') = true := by
  obtain ⟨hne, hparts, hexponent⟩ := h
  rename_i parts exponent
  obtain ⟨c, parts, rfl⟩ := List.exists_cons_of_ne_nil hne
  exact ⟨c, parts ++ exponent, rfl, hparts c List.mem_cons_self⟩

/-! ## What is scanned is spelled -/

theorem scanText_sound {rest content : List Char} {further : Nat}
    (h : scanText rest = .ok (content, further)) :
    ∃ chars tail, rest = chars ++ '"' :: tail ∧ further = chars.length + 1 ∧ Quoted chars content := by
  fun_induction scanText rest generalizing content further with
  | case1 => exact nomatch h
  | case2 rest =>
    obtain ⟨rfl, rfl⟩ := Prod.mk.inj (Except.ok.inj h)
    exact ⟨[], rest, rfl, rfl, .nil⟩
  | case3 => exact nomatch h
  | case4 escape rest c hescape ih =>
    obtain ⟨⟨content', further'⟩, hscan, heq⟩ := exists_of_map_ok h
    obtain ⟨rfl, rfl⟩ := Prod.mk.inj heq
    obtain ⟨chars, tail, rfl, rfl, hquoted⟩ := ih hscan
    exact ⟨'\\' :: escape :: chars, tail, rfl, rfl, .escape hescape hquoted⟩
  | case5 => exact nomatch h
  | case6 c rest hquote _ hescape ih =>
    obtain ⟨⟨content', further'⟩, hscan, heq⟩ := exists_of_map_ok h
    obtain ⟨rfl, rfl⟩ := Prod.mk.inj heq
    obtain ⟨chars, tail, rfl, rfl, hquoted⟩ := ih hscan
    exact ⟨c :: chars, tail, rfl, rfl, .plain hquote hescape hquoted⟩

theorem scanNumber_eq {c : Char} (hc : (isDigit c || c == '.') = true) (rest : List Char) :
    ∃ further, numberChars (c :: rest) = c :: further ∧ further <+: rest := by
  obtain ⟨c', further, hchars, -⟩ := (numberRun_numberChars hc rest).exists_cons
  have hfront := numberChars_isPrefix (c :: rest)
  rw [hchars] at hfront ⊢
  obtain ⟨rfl, hrest⟩ := List.cons_prefix_cons.1 hfront
  exact ⟨further, rfl, hrest⟩

theorem scanNumber_sound {c : Char} {rest : List Char} {token : Token} {further : Nat}
    (hc : (isDigit c || c == '.') = true) (h : scanNumber (c :: rest) = .ok (token, further)) :
    further ≤ rest.length ∧ Spelling token (c :: rest.take further) := by
  obtain ⟨chars, hchars, hfront⟩ := scanNumber_eq hc rest
  have hrun := numberRun_numberChars hc rest
  rw [hchars] at hrun
  simp only [scanNumber, hchars] at h
  split at h
  · next n hread =>
    obtain ⟨rfl, rfl⟩ := Prod.mk.inj (Except.ok.inj h)
    refine ⟨hfront.length_le, ?_⟩
    rw [List.length_cons, Nat.add_sub_cancel, ← List.prefix_iff_eq_take.1 hfront]
    exact .number hrun hread
  · cases h

theorem scan_wordStart {c : Char} (hc : isAsciiLetter c = true ∨ c = '_') (rest : List Char) :
    scan c rest = .ok (.word (String.ofList (c :: rest.takeWhile isWordChar)),
      (rest.takeWhile isWordChar).length) := by
  rcases hc with hc | rfl
  · exact scan_letter hc rest
  · rfl

theorem scan_part {c : Char} (hc : (isDigit c || c == '.') = true) (rest : List Char) :
    scan c rest = scanNumber (c :: rest) := by
  rw [Bool.or_eq_true, beq_iff_eq] at hc
  rcases hc with hc | rfl
  · exact scan_digit hc rest
  · rfl

theorem scan_sound {c : Char} {rest : List Char} {token : Token} {further : Nat}
    (h : scan c rest = .ok (token, further)) :
    further ≤ rest.length ∧ Spelling token (c :: rest.take further) := by
  unfold scan at h
  split at h
  case h_14 =>
    obtain ⟨⟨content, further'⟩, hscan, heq⟩ := exists_of_map_ok h
    obtain ⟨rfl, rfl⟩ := Prod.mk.inj heq
    obtain ⟨chars, tail, rfl, rfl, hquoted⟩ := scanText_sound hscan
    refine ⟨by simp, ?_⟩
    have htake : (chars ++ '"' :: tail).take (chars.length + 1) = chars ++ ['"'] := by simp [List.take_append]
    rw [htake]
    exact .text hquoted
  case h_15 =>
    split at h
    · next hc => exact scanNumber_sound (by simpa using hc) h
    split at h
    · next hc =>
      obtain ⟨rfl, rfl⟩ := Prod.mk.inj (Except.ok.inj h)
      have hfront := List.takeWhile_prefix (l := rest) isWordChar
      refine ⟨hfront.length_le, ?_⟩
      rw [← List.prefix_iff_eq_take.1 hfront]
      exact .word hc fun x hx => List.mem_takeWhile_imp hx
    · exact nomatch h
  all_goals
    obtain ⟨rfl, rfl⟩ := Prod.mk.inj (Except.ok.inj h)
    exact ⟨by simp, .mark (by repeat (first | exact .head _ | apply List.Mem.tail))⟩

/-! ## What is spelled is scanned -/

/-- At this character, before `further` and `tail`, a token is scanned that takes at least `further`, and the
given one if it takes no more. -/
def Covers (c : Char) (further tail : List Char) (token : Token) : Prop :=
  ∃ token' further', scan c (further ++ tail) = .ok (token', further') ∧ further.length ≤ further' ∧
    (further' = further.length → token' = token)

theorem covers_exact {c : Char} {further tail : List Char} {token : Token}
    (h : scan c (further ++ tail) = .ok (token, further.length)) : Covers c further tail token :=
  ⟨token, further.length, h, Nat.le_refl _, fun _ => rfl⟩

theorem covers_mark {mark : List Char × Token} (h : mark ∈ marks) (tail : List Char) :
    ∃ c further, mark.1 = c :: further ∧ Covers c further tail mark.2 := by
  simp only [marks, List.mem_cons, List.not_mem_nil, or_false] at h
  rcases h with rfl | rfl | rfl | rfl | rfl | rfl | rfl | rfl | rfl | rfl | rfl | rfl | rfl
  all_goals first
    | exact ⟨_, _, rfl, covers_exact rfl⟩
    | refine ⟨_, _, rfl, ?_⟩
      unfold Covers scan
      split <;> simp_all

theorem Quoted.scanText {chars content : List Char} (h : Quoted chars content) (tail : List Char) :
    scanText (chars ++ '"' :: tail) = .ok (content, chars.length + 1) := by
  induction h with
  | nil => rfl
  | @plain c chars content hquote hescape h ih =>
    rw [List.cons_append, Script.scanText, if_neg hescape, ih]
    · rfl
    · exact hquote
    · exact fun _ _ h => absurd h hescape
  | @escape escape c chars content hescape h ih =>
    rw [List.cons_append, List.cons_append, Script.scanText]
    simp only [hescape, ih]
    rfl

/-- A quoted text ends where it ends, whatever stands behind it. -/
theorem Quoted.scan {chars content : List Char} (h : Quoted chars content) (tail : List Char) :
    scan '"' ((chars ++ ['"']) ++ tail) =
      .ok (.text (String.ofList content), (chars ++ ['"']).length) := by
  rw [List.append_assoc, List.singleton_append]
  simp only [Script.scan, h.scanText]
  simp [Except.map]

/-- Where a token is spelled, it or a longer one is scanned, unless it is a number. -/
theorem Spelling.covers {token : Token} {chars : List Char} (h : Spelling token chars) (tail : List Char) :
    (∃ n, token = .number n ∧ NumberRun chars ∧ Number.ofDecimal? chars = some n) ∨
      ∃ c further, chars = c :: further ∧ Covers c further tail token := by
  cases h with
  | mark h => exact .inr (covers_mark h tail)
  | number hrun h => exact .inl ⟨_, rfl, hrun, h⟩
  | text h => exact .inr ⟨'"', _, rfl, covers_exact (h.scan tail)⟩
  | @word c chars hc hchars =>
    have htake : (chars ++ tail).takeWhile isWordChar = chars ++ tail.takeWhile isWordChar :=
      List.takeWhile_append_of_pos hchars
    refine .inr ⟨c, chars, rfl, _, _, scan_wordStart hc _, ?_, fun heq => ?_⟩
    · rw [htake, List.length_append]
      omega
    · rw [htake, List.length_append] at heq
      rw [htake, List.length_eq_zero_iff.1 (by omega : (tail.takeWhile isWordChar).length = 0),
        List.append_nil]

/-- No run is longer than what is scanned at its place. -/
theorem IsRun.length_le {c : Char} {further tail : List Char} {token : Token} {n : Nat}
    (h : IsRun (c :: further)) (hscan : scan c (further ++ tail) = .ok (token, n)) :
    further.length ≤ n := by
  have hnumber : NumberRun (c :: further) → further.length ≤ n := by
    intro hrun
    obtain ⟨c', further', heq, hc⟩ := hrun.exists_cons
    obtain ⟨rfl, rfl⟩ := List.cons.inj heq
    have hle := (hrun.prefix_numberChars tail).length_le
    rw [scan_part hc, scanNumber] at hscan
    split at hscan
    · obtain ⟨rfl, rfl⟩ := Prod.mk.inj (Except.ok.inj hscan)
      exact Nat.le_sub_of_add_le hle
    · cases hscan
  rcases h with hrun | ⟨token', hspelling⟩
  · exact hnumber hrun
  · obtain ⟨n, rfl, hrun, -⟩ | ⟨c', further', heq, token'', further'', hscan', hle, -⟩ := hspelling.covers tail
    · exact hnumber hrun
    · obtain ⟨rfl, rfl⟩ := List.cons.inj heq
      rw [hscan] at hscan'
      obtain ⟨rfl, rfl⟩ := Prod.mk.inj (Except.ok.inj hscan')
      exact hle

/-- A token that no longer run stands at the place of is scanned. -/
theorem Spelling.scan_longest {token : Token} {chars tail : List Char} (h : Spelling token chars)
    (hlongest : ∀ longer, longer <+: chars ++ tail → IsRun longer → longer.length ≤ chars.length) :
    ∃ c further, chars = c :: further ∧ scan c (further ++ tail) = .ok (token, further.length) := by
  obtain ⟨n, rfl, hrun, hread⟩ | ⟨c, further, rfl, token', further', hscan, hle, hsame⟩ := h.covers tail
  · obtain ⟨c, further, rfl, hc⟩ := hrun.exists_cons
    have hfront := hrun.prefix_numberChars tail
    have hle := hlongest _ (numberChars_isPrefix _) (.inl (numberRun_numberChars hc _))
    have hchars := hfront.eq_of_length_le hle
    refine ⟨c, further, rfl, ?_⟩
    rw [scan_part hc, scanNumber, ← List.cons_append]
    simp only [← hchars, hread]
    rfl
  · obtain ⟨hbound, hspelling⟩ := scan_sound hscan
    have hlonger := hlongest (c :: (further ++ tail).take further')
      (List.cons_prefix_cons.2 ⟨rfl, List.take_prefix ..⟩) (.inr ⟨token', hspelling⟩)
    simp only [List.length_cons, List.length_take] at hlonger
    obtain rfl : further' = further.length := by omega
    exact ⟨c, further, rfl, hsame rfl ▸ hscan⟩

/-- No token starts with a blank. -/
theorem Spelling.not_blank {token : Token} {chars : List Char} (h : Spelling token chars) :
    ∀ c ∈ chars.head?, isBlank c = false := by
  intro c hc
  cases h with
  | mark h =>
    have hmarks : (marks.all fun mark => mark.1.all fun c => !isBlank c) = true := by decide
    have hchar := List.all_eq_true.1 (List.all_eq_true.1 hmarks _ h) c (List.mem_of_mem_head? hc)
    rwa [Bool.not_eq_true'] at hchar
  | number hrun =>
    obtain ⟨c', further, rfl, hpart⟩ := hrun.exists_cons
    obtain rfl := Option.some.inj hc
    rw [Bool.or_eq_true, beq_iff_eq] at hpart
    rcases hpart with hdigit | rfl
    · exact isBlank_of_isDigit hdigit
    · decide
  | text =>
    obtain rfl := Option.some.inj hc
    decide
  | word hword =>
    obtain rfl := Option.some.inj hc
    rcases hword with hletter | rfl
    · exact isBlank_of_isAsciiLetter hletter
    · decide

/-! ## Cuts -/

/-- What is cut as the reader cuts it is cut as the grammar says. -/
theorem Spells.cut {code : List Char} {tokens : List Token} (h : Spells code tokens) : Cut code tokens := by
  induction h with
  | nil => exact .nil
  | blank hblank hrest ih => exact .blank hblank ih
  | @token c further rest token tokens hblank hscan hrest ih =>
    have hspelling := (scan_sound hscan).2
    rw [List.take_left] at hspelling
    rw [← List.cons_append]
    refine .token hspelling (fun longer hfront hrun => ?_) ih
    cases longer with
    | nil => exact Nat.zero_le _
    | cons c' longer =>
      obtain ⟨rfl, tail, htail⟩ := List.cons_prefix_cons.1 hfront
      rw [show further ++ rest = longer ++ tail from htail.symm] at hscan
      exact Nat.succ_le_succ (hrun.length_le hscan)

theorem Cut.spells {code : List Char} {tokens : List Token} (h : Cut code tokens) : Spells code tokens := by
  induction h with
  | nil => exact .nil
  | blank hblank hrest ih => exact .blank hblank ih
  | token hspelling hlongest hrest ih =>
    obtain ⟨c, further, rfl, hscan⟩ := hspelling.scan_longest hlongest
    exact .token (hspelling.not_blank c rfl) hscan ih

/-- What is found is a cut of the code, behind the characters of the token before it. -/
theorem spells_of_cutFrom {offset skip : Nat} {code : List Char} {lexemes : List Lexeme}
    (h : cutFrom offset skip code = .ok lexemes) :
    ∃ tokens, lexemes.map Lexeme.token = tokens ++ [.finish] ∧ Spells (code.drop skip) tokens := by
  fun_induction cutFrom offset skip code generalizing lexemes with
  | case1 =>
    obtain rfl := Except.ok.inj h
    exact ⟨[], rfl, by rw [List.drop_nil]; exact .nil⟩
  | case2 offset skip c rest ih => exact ih h
  | case3 offset c rest hblank ih =>
    obtain ⟨tokens, htokens, hspells⟩ := ih h
    exact ⟨tokens, htokens, .blank hblank hspells⟩
  | case4 => exact nomatch h
  | case5 offset c rest hblank token further hscan ih =>
    cases hcut : cutFrom (offset + c.utf8Size) further rest with
    | error fault =>
      rw [hcut] at h
      exact nomatch h
    | ok after =>
      rw [hcut] at h
      obtain rfl := Except.ok.inj h
      obtain ⟨tokens, htokens, hspells⟩ := ih hcut
      have hlength : (rest.take further).length = further := List.length_take_of_le (scan_sound hscan).1
      refine ⟨token :: tokens, by rw [List.map_cons, htokens]; rfl, ?_⟩
      have hsplit := List.take_append_drop further rest
      rw [List.drop_zero, ← hsplit]
      refine .token (by simpa using hblank) ?_ hspells
      rw [hlength, hsplit, hscan]

theorem Spelling.ne_finish {token : Token} {chars : List Char} (h : Spelling token chars) :
    token ≠ .finish := by
  rintro rfl
  cases h with
  | mark h => exact absurd h (by simp [marks])

theorem Cut.finish_not_mem {code : List Char} {tokens : List Token} (h : Cut code tokens) :
    .finish ∉ tokens := by
  induction h with
  | nil => exact List.not_mem_nil
  | blank hblank hrest ih => exact ih
  | token hspelling hlongest hrest ih =>
    exact List.not_mem_cons_of_ne_of_not_mem hspelling.ne_finish.symm ih

/-- **Tokens.** The tokens that are found in a code are those into which it is cut, and a last one. -/
theorem lexemes_iff_cut {code : String} {tokens : List Token} :
    (∃ found, lexemes code = .ok found ∧ found.map Lexeme.token = tokens ++ [.finish]) ↔
      Cut code.toList tokens := by
  constructor
  · rintro ⟨found, hfound, htokens⟩
    obtain ⟨tokens', htokens', hspells⟩ := spells_of_cutFrom hfound
    rw [htokens] at htokens'
    obtain rfl := List.append_cancel_right htokens'
    exact hspells.cut
  · intro h
    exact h.spells.cutFrom 0

/-- A code is cut into tokens in one way at most. -/
theorem Cut.unique {code : List Char} {tokens tokens' : List Token} (h : Cut code tokens)
    (h' : Cut code tokens') : tokens = tokens' := by
  obtain ⟨found, hfound, htokens⟩ := h.spells.cutFrom 0
  obtain ⟨found', hfound', htokens'⟩ := h'.spells.cutFrom 0
  rw [hfound] at hfound'
  obtain rfl := Except.ok.inj hfound'
  exact List.append_cancel_right (htokens.symm.trans htokens')

end Script

end Formulary
