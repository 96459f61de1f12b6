import Formulary.Operator
import Formulary.Proofs.Number.Whole
import Formulary.Proofs.Text.Classes
import Formulary.Script.Fragment
import Formulary.Script.Lexeme

/-!
# Codes that spell tokens

`Spells code tokens` says how a code is cut: blanks are skipped, and every token takes what `scan`
takes. Generated code is put together from pieces, so what is proved of a piece is `Lexes`: before any
code that starts with a separator it spells its tokens and then those of that code.
-/

namespace Formulary

namespace Script

/-! ## Cutting -/

/-- The code is cut into the tokens. -/
inductive Spells : List Char → List Token → Prop where
  | nil : Spells [] []
  | blank {c : Char} {rest : List Char} {tokens : List Token} (hblank : isBlank c = true)
      (hrest : Spells rest tokens) : Spells (c :: rest) tokens
  | token {c : Char} {further rest : List Char} {token : Token} {tokens : List Token}
      (hblank : isBlank c = false) (hscan : scan c (further ++ rest) = .ok (token, further.length))
      (hrest : Spells rest tokens) : Spells (c :: (further ++ rest)) (token :: tokens)

/-- The characters of a token are passed over once it is cut. -/
theorem cutFrom_append (further rest : List Char) (offset : Nat) : ∃ offset',
    cutFrom offset further.length (further ++ rest) = cutFrom offset' 0 rest := by
  induction further generalizing offset with
  | nil => exact ⟨offset, rfl⟩
  | cons c further ih => exact ih (offset + c.utf8Size)

/-- **Cutting.** A code that spells tokens is cut into them and a last one. -/
theorem Spells.cutFrom {code : List Char} {tokens : List Token} (h : Spells code tokens)
    (offset : Nat) : ∃ lexemes, Script.cutFrom offset 0 code = .ok lexemes ∧
      lexemes.map Lexeme.token = tokens ++ [.finish] := by
  induction h generalizing offset with
  | nil => exact ⟨_, rfl, rfl⟩
  | @blank c rest tokens hblank hrest ih =>
    obtain ⟨lexemes, hcut, htokens⟩ := ih (offset + c.utf8Size)
    refine ⟨lexemes, ?_, htokens⟩
    rw [Script.cutFrom, if_pos hblank, hcut]
  | @token c further rest token tokens hblank hscan hrest ih =>
    obtain ⟨offset', hoffset⟩ := cutFrom_append further rest (offset + c.utf8Size)
    obtain ⟨lexemes, hcut, htokens⟩ := ih offset'
    refine ⟨⟨token, offset⟩ :: lexemes, ?_, by rw [List.map_cons, htokens, List.cons_append]⟩
    rw [Script.cutFrom, if_neg (by simp [hblank])]
    simp only [hscan, hoffset, hcut]
    rfl

/-- A token of one character. -/
theorem Spells.mark {c : Char} {rest : List Char} {token : Token} {tokens : List Token}
    (hblank : isBlank c = false) (hscan : scan c rest = .ok (token, 0)) (hrest : Spells rest tokens) :
    Spells (c :: rest) (token :: tokens) :=
  @Spells.token c [] rest token tokens hblank hscan hrest

/-! ## Pieces of code -/

/-- The characters that end a word or a number in generated code. -/
def isSeparator (c : Char) : Bool := c == ' ' || c == '(' || c == ')' || c == ','

/-- There is nothing, or a separator comes first. -/
def Ends : List Char → Prop
  | [] => True
  | c :: _ => isSeparator c = true

/-- Before an end the code spells the tokens. -/
def Lexes (code : List Char) (tokens : List Token) : Prop :=
  ∀ ⦃rest : List Char⦄ ⦃more : List Token⦄, Ends rest → Spells rest more →
    Spells (code ++ rest) (tokens ++ more)

theorem Lexes.spells {code : List Char} {tokens : List Token} (h : Lexes code tokens) :
    Spells code tokens := by
  have hspells := @h [] [] trivial .nil
  rwa [List.append_nil, List.append_nil] at hspells

theorem Lexes.nil : Lexes [] [] := fun _ _ _ hspells => hspells

/-- Two pieces, the second of which starts with a separator or is empty. -/
theorem Lexes.append {code code' : List Char} {tokens tokens' : List Token} (h : Lexes code tokens)
    (h' : Lexes code' tokens') (hends : ∀ rest, Ends rest → Ends (code' ++ rest)) :
    Lexes (code ++ code') (tokens ++ tokens') := by
  intro rest more hrest hspells
  rw [List.append_assoc, List.append_assoc]
  exact h (hends rest hrest) (h' hrest hspells)

section Marks

variable {code : List Char} {tokens : List Token} (h : Lexes code tokens)

include h

theorem Lexes.blank : Lexes (' ' :: code) tokens := fun _ _ hrest hspells =>
  .blank (by decide) (h hrest hspells)

theorem Lexes.open : Lexes ('(' :: code) (.open :: tokens) := fun _ _ hrest hspells =>
  .mark (by decide) rfl (h hrest hspells)

theorem Lexes.close : Lexes (')' :: code) (.close :: tokens) := fun _ _ hrest hspells =>
  .mark (by decide) rfl (h hrest hspells)

theorem Lexes.comma : Lexes (',' :: code) (.comma :: tokens) := fun _ _ hrest hspells =>
  .mark (by decide) rfl (h hrest hspells)

theorem Lexes.question : Lexes ('?' :: code) (.question :: tokens) := fun _ _ hrest hspells =>
  .mark (by decide) rfl (h hrest hspells)

theorem Lexes.colon : Lexes (':' :: code) (.colon :: tokens) := fun _ _ hrest hspells =>
  .mark (by decide) rfl (h hrest hspells)

theorem Lexes.minus : Lexes ('-' :: code) (.minus :: tokens) := fun _ _ hrest hspells =>
  .mark (by decide) rfl (h hrest hspells)

/-- An exclamation mark is a token of its own unless an equals sign follows. -/
theorem Lexes.bang (hhead : code.head? ≠ some '=') : Lexes ('!' :: code) (.bang :: tokens) := by
  intro rest more hrest hspells
  refine .mark (by decide) ?_ (h hrest hspells)
  have hne : (code ++ rest).head? ≠ some '=' := by
    cases code with
    | nil =>
      cases rest with
      | nil => exact fun h => nomatch h
      | cons c rest =>
        rintro h
        obtain rfl := Option.some.inj h
        exact nomatch hrest
    | cons c code => exact hhead
  show scan '!' (code ++ rest) = _
  generalize code ++ rest = tail at hne
  unfold scan
  split <;> simp_all

end Marks

/-! ## Quoted texts -/

theorem scanText_quoted (chars rest : List Char) :
    scanText (chars.flatMap quoteChar ++ '"' :: rest) =
      .ok (chars, (chars.flatMap quoteChar ++ ['"']).length) := by
  induction chars with
  | nil => rfl
  | cons c chars ih =>
    have hescaped : ∀ escape, unescape? escape = some c →
        scanText ('\\' :: escape :: (chars.flatMap quoteChar ++ '"' :: rest)) =
          .ok (c :: chars, (chars.flatMap quoteChar ++ ['"']).length + 2) := by
      intro escape hescape
      rw [scanText]
      simp only [hescape, ih]
      rfl
    rw [List.flatMap_cons]
    by_cases hspecial : c = '"' ∨ c = '\\' ∨ c = '\n' ∨ c = '\r' ∨ c = '\t'
    · rcases hspecial with rfl | rfl | rfl | rfl | rfl
      · exact hescaped _ rfl
      · exact hescaped _ rfl
      · exact hescaped _ rfl
      · exact hescaped _ rfl
      · exact hescaped _ rfl
    · simp only [not_or] at hspecial
      have hquote : quoteChar c = [c] := by
        unfold quoteChar
        split <;> simp_all
      have hplain : ∀ tail, scanText (c :: tail) =
          (scanText tail).map fun read => (c :: read.1, read.2 + 1) := by
        intro tail
        rw [scanText] <;> simp_all
      rw [hquote, List.singleton_append, List.cons_append, hplain, ih]
      rfl

theorem Lexes.text {code : List Char} {tokens : List Token} (h : Lexes code tokens) (name : String) :
    Lexes ((textCode name).toList ++ code) (.text name :: tokens) := by
  intro rest more hrest hspells
  have hscan := scanText_quoted name.toList (code ++ rest)
  have hcode : (textCode name).toList ++ code ++ rest =
      '"' :: ((name.toList.flatMap quoteChar ++ ['"']) ++ (code ++ rest)) := by
    simp [textCode]
  rw [hcode]
  refine .token (by decide) ?_ (h hrest hspells)
  rw [List.append_assoc, List.singleton_append]
  simp only [scan, hscan]
  simp [Except.map]

/-! ## Words and numbers -/

theorem isAsciiLetter_bounds {c : Char} (h : isAsciiLetter c = true) :
    65 ≤ c.toNat ∧ c.toNat ≤ 122 := by
  simp only [isAsciiLetter, Bool.or_eq_true, Bool.and_eq_true, decide_eq_true_eq, Char.le_def,
    UInt32.le_iff_toNat_le] at h
  have ha : 'a'.val.toNat = 97 := rfl
  have hz : 'z'.val.toNat = 122 := rfl
  have hA : 'A'.val.toNat = 65 := rfl
  have hZ : 'Z'.val.toNat = 90 := rfl
  have hc : c.toNat = c.val.toNat := rfl
  omega

theorem isBlank_of_isAsciiLetter {c : Char} (h : isAsciiLetter c = true) : isBlank c = false := by
  obtain ⟨hlow, hhigh⟩ := isAsciiLetter_bounds h
  exact isBlank_of_lt (by omega) (by omega)

/-- A name made of a letter and characters of words. -/
def isWord : List Char → Bool
  | [] => false
  | c :: rest => isAsciiLetter c && rest.all isWordChar

theorem scan_letter {c : Char} (h : isAsciiLetter c = true) (rest : List Char) :
    scan c rest = .ok (.word (String.ofList (c :: rest.takeWhile isWordChar)),
      (rest.takeWhile isWordChar).length) := by
  have hbounds := isAsciiLetter_bounds h
  have hdigit : ¬ (isDigit c = true ∨ c = '.') := by
    rintro (hd | rfl)
    · have := isDigit_bounds hd
      omega
    · exact absurd h (by decide)
  unfold scan
  -- no mark is a letter
  split
  all_goals first
    | exact absurd h (by decide)
    | rw [if_neg hdigit, if_pos (.inl h)]

theorem scan_digit {c : Char} (h : isDigit c = true) (rest : List Char) :
    scan c rest = scanNumber (c :: rest) := by
  unfold scan
  split
  all_goals first
    | exact absurd h (by decide)
    | rw [if_pos (.inl h)]

/-- A separator takes no part in what stands before it. -/
theorem takeWhile_of_ends {p : Char → Bool} (hp : ∀ c, isSeparator c = true → p c = false)
    {rest : List Char} (hrest : Ends rest) : rest.takeWhile p = [] := by
  cases rest with
  | nil => rfl
  | cons c rest => rw [List.takeWhile_cons, hp c hrest]; rfl

theorem eq_of_isSeparator {c : Char} (h : isSeparator c = true) :
    c = ' ' ∨ c = '(' ∨ c = ')' ∨ c = ',' := by
  simpa [isSeparator, or_assoc] using h

theorem Lexes.word {name : String} {code : List Char} {tokens : List Token} (h : Lexes code tokens)
    (hname : isWord name.toList = true)
    (hends : ∀ rest, Ends rest → Ends (code ++ rest)) :
    Lexes (name.toList ++ code) (.word name :: tokens) := by
  intro rest more hrest hspells
  cases hchars : name.toList with
  | nil => rw [hchars] at hname; exact nomatch hname
  | cons c further =>
    rw [hchars, isWord, Bool.and_eq_true, List.all_eq_true] at hname
    obtain ⟨hc, hfurther⟩ := hname
    rw [List.cons_append, List.cons_append, List.append_assoc]
    refine .token (isBlank_of_isAsciiLetter hc) ?_ (h hrest hspells)
    have htake : (further ++ (code ++ rest)).takeWhile isWordChar = further := by
      rw [List.takeWhile_append_of_pos hfurther, takeWhile_of_ends ?_ (hends rest hrest),
        List.append_nil]
      intro c hsep
      rcases eq_of_isSeparator hsep with rfl | rfl | rfl | rfl <;> rfl
    rw [scan_letter hc, htake, ← hchars, String.ofList_toList]

theorem takeExponent_of_ends {rest : List Char} (hrest : Ends rest) :
    DecimalText.takeExponent rest = [] := by
  cases rest with
  | nil => rfl
  | cons c rest => rcases eq_of_isSeparator hrest with rfl | rfl | rfl | rfl <;> rfl

theorem exists_positional_cons (d : Decimal) : ∃ c further, d.positional = c :: further ∧
    isDigit c = true ∧ ∀ x ∈ d.positional, (isDigit x || x == '.') = true := by
  obtain ⟨whole, fraction, hne, hshape, hdigits, -, -⟩ := d.exists_positional_eq
  obtain ⟨c, whole, rfl⟩ := List.exists_cons_of_ne_nil hne
  have hpart : ∀ x ∈ d.positional, x ∈ c :: whole ++ fraction ∨ x = '.' := by
    intro x hx
    rcases hshape with h | ⟨h, -⟩ <;> simp only [h, List.mem_append, List.mem_cons] at hx ⊢ <;> grind
  have hall : ∀ x ∈ d.positional, (isDigit x || x == '.') = true := by
    intro x hx
    rcases hpart x hx with h | rfl
    · rw [hdigits x h, Bool.true_or]
    · rfl
  have hc := hdigits c List.mem_cons_self
  rcases hshape with h | ⟨h, -⟩
  · exact ⟨c, whole ++ '.' :: fraction, h, hc, hall⟩
  · exact ⟨c, whole, h, hc, hall⟩

/-- Digits, and a point among them, are a token if they denote a number. -/
theorem Lexes.decimal {chars code : List Char} {c : Char} {further : List Char} {n : Number}
    {tokens : List Token} (hchars : chars = c :: further) (hc : isDigit c = true)
    (hall : ∀ x ∈ chars, (isDigit x || x == '.') = true) (hread : Number.ofDecimal? chars = some n)
    (h : Lexes code tokens) (hends : ∀ rest, Ends rest → Ends (code ++ rest)) :
    Lexes (chars ++ code) (.number n :: tokens) := by
  intro rest more hrest hspells
  rw [hchars] at hall hread ⊢
  have hnumber : numberChars (c :: (further ++ (code ++ rest))) = c :: further := by
    have hpart : ∀ x, isSeparator x = true → (isDigit x || x == '.') = false := by
      intro x hx
      rcases eq_of_isSeparator hx with rfl | rfl | rfl | rfl <;> rfl
    have htail := hends rest hrest
    have htake := takeWhile_of_ends hpart htail
    have hdrop : (code ++ rest).dropWhile (fun c => isDigit c || c == '.') = code ++ rest := by
      have h := List.takeWhile_append_dropWhile (p := fun c => isDigit c || c == '.')
        (l := code ++ rest)
      rwa [htake, List.nil_append] at h
    rw [numberChars, ← List.cons_append, List.takeWhile_append_of_pos hall,
      List.dropWhile_append_of_pos hall, htake, hdrop, takeExponent_of_ends htail, List.append_nil,
      List.append_nil]
  rw [List.cons_append, List.cons_append, List.append_assoc]
  refine .token (isBlank_of_isDigit hc) ?_ (h hrest hspells)
  rw [scan_digit hc, scanNumber]
  simp only [hnumber, hread]
  rfl

/-- The digits of a magnitude are a token, its number. -/
theorem Lexes.magnitude {code : List Char} {tokens : List Token} (h : Lexes code tokens)
    (m : Magnitude) (hends : ∀ rest, Ends rest → Ends (code ++ rest)) :
    Lexes (m.shortest.positional ++ code) (.number (.finite false m) :: tokens) := by
  obtain ⟨c, further, hchars, hc, hall⟩ := exists_positional_cons m.shortest
  exact Lexes.decimal hchars hc hall (Number.ofDecimal?_positional m) h hends

/-- The digits of a natural number are a token, the number nearest to it. -/
theorem Lexes.nat {code : List Char} {tokens : List Token} (h : Lexes code tokens) (n : Nat)
    (hends : ∀ rest, Ends rest → Ends (code ++ rest)) :
    Lexes ((toString n).toList ++ code) (.number (.ofNat n) :: tokens) := by
  have hchars : (toString n).toList = Nat.toDigits 10 n := by simp [toString, Nat.repr]
  have hdigits : ∀ x ∈ Nat.toDigits 10 n, isDigit x = true := fun x hx => isDigit_of_mem_toDigits hx
  obtain ⟨c, further, hcons⟩ := List.exists_cons_of_ne_nil (@Nat.toDigits_ne_nil n 10)
  rw [hchars]
  refine Lexes.decimal hcons (hdigits c (hcons ▸ List.mem_cons_self)) (fun x hx => ?_)
    (Number.ofDecimal?_toDigits n) h hends
  rw [hdigits x hx, Bool.true_or]

/-! ## Operators between blanks -/

/-- The token of an operator that generated code puts between its operands. -/
def infixToken? : BinaryOperator → Option Token
  | .equal => some .equal
  | .strictEqual => some .strictEqual
  | .notEqual => some .notEqual
  | .strictNotEqual => some .strictNotEqual
  | .and => some .and
  | .or => some .or
  | _ => none

theorem Lexes.symbol {op : BinaryOperator} {token : Token} {code : List Char} {tokens : List Token}
    (h : Lexes code tokens) (hop : infixToken? op = some token) :
    Lexes (op.symbol.toList ++ ' ' :: code) (token :: tokens) := by
  intro rest more hrest hspells
  have hblank := h.blank hrest hspells
  cases op <;> simp only [infixToken?, Option.some.injEq, reduceCtorEq] at hop
  all_goals
    obtain rfl := hop
    first
      | exact @Spells.token '=' ['='] _ _ _ (by decide) rfl hblank
      | exact @Spells.token '=' ['=', '='] _ _ _ (by decide) rfl hblank
      | exact @Spells.token '!' ['='] _ _ _ (by decide) rfl hblank
      | exact @Spells.token '!' ['=', '='] _ _ _ (by decide) rfl hblank
      | exact @Spells.token '&' ['&'] _ _ _ (by decide) rfl hblank
      | exact @Spells.token '|' ['|'] _ _ _ (by decide) rfl hblank

end Script

end Formulary
