import Formulary.Proofs.Number.Spelling
import Formulary.Proofs.Source.Numeral
import Mathlib.Data.Nat.Digits.Defs

/-!
# The grammar of numbers

`Number.Spelled` says how a number is spelled: as `Infinity`, in hexadecimal after `0x` or `0X`, or as a
decimal. Every text that is spelled so denotes a number once the blanks at its ends are left out, and there is
one more kind that does: hexadecimal digits may have a plus sign in front of them, behind the mark
(`Number.spellings_accepted`).
-/

namespace Formulary

namespace Number

open DecimalText

/-! ## The grammar -/

inductive OptionalSign : List Char → Prop where
  | none : OptionalSign []
  | some {sign : Char} (h : sign = '+' ∨ sign = '-') : OptionalSign [sign]

def IsHexDigit (c : Char) : Prop := ('0' ≤ c ∧ c ≤ '9') ∨ ('a' ≤ c ∧ c ≤ 'f') ∨ ('A' ≤ c ∧ c ≤ 'F')

instance : DecidablePred IsHexDigit := fun c =>
  inferInstanceAs (Decidable (('0' ≤ c ∧ c ≤ '9') ∨ ('a' ≤ c ∧ c ≤ 'f') ∨ ('A' ≤ c ∧ c ≤ 'F')))

def hexWeight (c : Char) : Nat := (hexDigit? c).getD 0

/-- Hexadecimal digits, the highest first, of a number of 64 bits. -/
structure IsWord64 (digits : List Char) : Prop where
  ne_nil : digits ≠ []
  isHexDigit : ∀ c ∈ digits, IsHexDigit c
  lt : Nat.ofDigits 16 (digits.map hexWeight).reverse < 2 ^ (64 : Nat)

/-- A point and the digits after it, or neither. -/
inductive OptionalPoint : List Char → Prop where
  | none : OptionalPoint []
  | some {fraction : List Char} (h : ∀ c ∈ fraction, isDigit c = true) : OptionalPoint ('.' :: fraction)

inductive OptionalExponent : List Char → Prop where
  | none : OptionalExponent []
  | some {mark : Char} {sign digits : List Char} (hmark : mark = 'e' ∨ mark = 'E') (hsign : OptionalSign sign)
    (hne : digits ≠ []) (hdigits : ∀ c ∈ digits, isDigit c = true) :
    OptionalExponent (mark :: (sign ++ digits))

inductive IsDecimal : List Char → Prop where
  | intro {sign whole point exponent : List Char} (hsign : OptionalSign sign)
    (hwhole : ∀ c ∈ whole, isDigit c = true) (hpoint : OptionalPoint point)
    (hdigit : whole ≠ [] ∨ point.tail ≠ []) (hexponent : OptionalExponent exponent) :
    IsDecimal (sign ++ (whole ++ (point ++ exponent)))

/-- The characters spell a number. -/
inductive Spelled : List Char → Prop where
  | infinity {sign : List Char} (hsign : OptionalSign sign) : Spelled (sign ++ "Infinity".toList)
  | hexadecimal {mark : Char} {digits : List Char} (hmark : mark = 'x' ∨ mark = 'X') (h : IsWord64 digits) :
    Spelled ('0' :: mark :: digits)
  | decimal {chars : List Char} (h : IsDecimal chars) : Spelled chars

/-- A hexadecimal number with a plus sign between its mark and its digits. -/
def PlusBehindMark (chars : List Char) : Prop :=
  ∃ mark digits, chars = '0' :: mark :: '+' :: digits ∧ (mark = 'x' ∨ mark = 'X') ∧ IsWord64 digits

/-! ## Signs -/

theorem OptionalSign.splitSign_append {sign rest : List Char} (h : OptionalSign sign)
    (hrest : ∀ c ∈ rest.head?, ¬ (c = '+' ∨ c = '-')) : (splitSign (sign ++ rest)).2 = rest := by
  cases h with
  | none => rw [List.nil_append, Token.splitSign_of_ne hrest]
  | some hsign => exact Token.splitSign_snd hsign rest

theorem exists_optionalSign (chars : List Char) :
    ∃ sign, OptionalSign sign ∧ chars = sign ++ (splitSign chars).2 := by
  rcases Token.sign_cases chars with ⟨sign, rest, rfl, hsign⟩ | hne
  · exact ⟨[sign], .some hsign, by rw [Token.splitSign_snd hsign]; rfl⟩
  · exact ⟨[], .none, by rw [Token.splitSign_of_ne hne]; rfl⟩

theorem OptionalSign.isDecimalChar {sign : List Char} (h : OptionalSign sign) : ∀ c ∈ sign, IsDecimalChar c := by
  cases h with
  | none => simp
  | some hsign =>
    intro c hc
    obtain rfl := List.mem_singleton.1 hc
    rcases hsign with rfl | rfl <;> decide

theorem unsigned_of_isDigit {c : Char} (h : isDigit c = true) : ¬ (c = '+' ∨ c = '-') := by
  rintro (rfl | rfl)
  · exact absurd h (by decide)
  · exact absurd h (by decide)

/-! ## Decimals -/

theorem exponent?_isSome_iff {chars : List Char} : (exponent? chars).isSome ↔ OptionalExponent chars := by
  constructor
  · intro h
    cases chars with
    | nil => exact .none
    | cons mark rest =>
      by_cases hmark : mark = 'e' ∨ mark = 'E'
      · rw [Token.exponent?_isSome hmark, Bool.and_eq_true, List.all_eq_true] at h
        obtain ⟨sign, hsign, hrest⟩ := exists_optionalSign rest
        rw [hrest]
        exact .some hmark hsign (by simpa using h.1) h.2
      · rw [exponent?, if_neg (by simpa using hmark)] at h
        exact absurd h Bool.false_ne_true
  · intro h
    cases h with
    | none => rfl
    | @some mark sign digits hmark hsign hne hdigits =>
      have hsplit : (splitSign (sign ++ digits)).2 = digits :=
        hsign.splitSign_append fun c hc => unsigned_of_isDigit (hdigits c (List.mem_of_mem_head? hc))
      rw [Token.exponent?_isSome hmark, hsplit, Bool.and_eq_true, List.all_eq_true]
      exact ⟨by simpa using hne, hdigits⟩

theorem OptionalExponent.head_cases {exponent : List Char} (h : OptionalExponent exponent) :
    ∀ c ∈ exponent.head?, c = 'e' ∨ c = 'E' := by
  cases h with
  | none => exact fun c hc => nomatch hc
  | some hmark => exact fun c hc => Option.some.inj hc ▸ hmark

theorem OptionalPoint.parts {whole point exponent : List Char} (hpoint : OptionalPoint point)
    (hwhole : ∀ c ∈ whole, isDigit c = true) (hexponent : OptionalExponent exponent) :
    Token.Parts whole point exponent := by
  have hstop : ∀ c ∈ exponent.head?, isDigit c = false ∧ c ≠ '.' := by
    intro c hc
    rcases hexponent.head_cases c hc with rfl | rfl <;> decide
  cases hpoint with
  | none => exact .integer hwhole hstop
  | some hfraction => exact .decimal hwhole hfraction fun c hc => (hstop c hc).1

theorem parts_optional {whole point rest : List Char} (h : Token.Parts whole point rest) :
    (∀ c ∈ whole, isDigit c = true) ∧ OptionalPoint point := by
  cases h with
  | integer hwhole => exact ⟨hwhole, .none⟩
  | decimal hwhole hfraction => exact ⟨hwhole, .some hfraction⟩

/-- The mantissa of a decimal has no sign of its own. -/
theorem unsigned_mantissa {whole point : List Char} (exponent : List Char)
    (hwhole : ∀ c ∈ whole, isDigit c = true) (hpoint : OptionalPoint point) (hdigit : whole ≠ [] ∨ point.tail ≠ []) :
    ∀ c ∈ (whole ++ (point ++ exponent)).head?, ¬ (c = '+' ∨ c = '-') := by
  intro c hc
  cases whole with
  | cons first whole =>
    obtain rfl := Option.some.inj hc
    exact unsigned_of_isDigit (hwhole first List.mem_cons_self)
  | nil =>
    cases hpoint with
    | none => simp at hdigit
    | some => exact Option.some.inj hc ▸ by decide

theorem ofDecimal?_isSome_iff {chars : List Char} : (ofDecimal? chars).isSome ↔ IsDecimal chars := by
  constructor
  · intro h
    obtain ⟨sign, hsign, hchars⟩ := exists_optionalSign chars
    obtain ⟨whole, point, rest, hunsigned, hparts⟩ := Token.exists_parts (splitSign chars).2
    obtain ⟨hdigit, hexponent⟩ := (hparts.isSome_ofDecimal?_splitSign hunsigned).1 h
    obtain ⟨hwhole, hpoint⟩ := parts_optional hparts
    rw [hchars, hunsigned]
    exact .intro hsign hwhole hpoint hdigit (exponent?_isSome_iff.1 hexponent)
  · intro h
    cases h with
    | @intro _ _ _ exponent hsign hwhole hpoint hdigit hexponent =>
      have hparts := hpoint.parts hwhole hexponent
      have hunsigned := unsigned_mantissa exponent hwhole hpoint hdigit
      have hsplit := hsign.splitSign_append hunsigned
      exact (hparts.isSome_ofDecimal?_splitSign hsplit).2 ⟨hdigit, exponent?_isSome_iff.2 hexponent⟩

/-- A decimal has no letter but the mark of its exponent. -/
theorem IsDecimal.isDecimalChar {chars : List Char} (h : IsDecimal chars) : ∀ c ∈ chars, IsDecimalChar c := by
  have hdigits : ∀ {digits : List Char}, (∀ c ∈ digits, isDigit c = true) → ∀ c ∈ digits, IsDecimalChar c :=
    fun hall c hc => isDecimalChar_of_isDigit (hall c hc)
  obtain @⟨sign, whole, point, exponent, hsign, hwhole, hpoint, -, hexponent⟩ := h
  have hpoint : ∀ c ∈ point, IsDecimalChar c := by
    cases hpoint with
    | none => simp
    | some hfraction => exact List.forall_mem_cons.2 ⟨by decide, hdigits hfraction⟩
  have hexponent : ∀ c ∈ exponent, IsDecimalChar c := by
    cases hexponent with
    | none => simp
    | some hmark hsign hne hall =>
      refine List.forall_mem_cons.2 ⟨?_, List.forall_mem_append.2 ⟨hsign.isDecimalChar, hdigits hall⟩⟩
      rcases hmark with rfl | rfl <;> decide
  exact List.forall_mem_append.2 ⟨hsign.isDecimalChar,
    List.forall_mem_append.2 ⟨hdigits hwhole, List.forall_mem_append.2 ⟨hpoint, hexponent⟩⟩⟩

/-! ## Hexadecimal numbers -/

theorem hexDigit?_eq_some {c : Char} (h : IsHexDigit c) : hexDigit? c = some (hexWeight c) := by
  have hsome : (hexDigit? c).isSome := by
    unfold hexDigit?
    split_ifs with hdecimal hlower hupper
    · rfl
    · rfl
    · rfl
    · exact absurd h (not_or.2 ⟨hdecimal, not_or.2 ⟨hlower, hupper⟩⟩)
  obtain ⟨digit, hdigit⟩ := Option.isSome_iff_exists.1 hsome
  rw [hexWeight, hdigit, Option.getD_some]

theorem isHexDigit_of_hexDigit? {c : Char} {digit : Nat} (h : hexDigit? c = some digit) : IsHexDigit c := by
  unfold hexDigit? at h
  split_ifs at h with hdecimal hlower hupper
  · exact .inl hdecimal
  · exact .inr (.inl hlower)
  · exact .inr (.inr hupper)

theorem hexValue?_eq_some {digits : List Char} (h : ∀ c ∈ digits, IsHexDigit c) (high : Nat) :
    hexValue? high digits =
      some (high * 16 ^ digits.length + Nat.ofDigits 16 (digits.map hexWeight).reverse) := by
  induction digits generalizing high with
  | nil => simp [hexValue?]
  | cons c digits ih =>
    obtain ⟨hc, hrest⟩ := List.forall_mem_cons.1 h
    rw [hexValue?, hexDigit?_eq_some hc, Option.bind_some, ih hrest, List.map_cons, List.reverse_cons,
      Nat.ofDigits_append, Nat.ofDigits_singleton, List.length_reverse, List.length_map, List.length_cons]
    congr 1
    ring

theorem isHexDigit_of_hexValue? {digits : List Char} {high value : Nat} (h : hexValue? high digits = some value) :
    ∀ c ∈ digits, IsHexDigit c := by
  induction digits generalizing high with
  | nil => simp
  | cons c digits ih =>
    obtain ⟨digit, hdigit, hrest⟩ := Option.bind_eq_some_iff.1 h
    exact List.forall_mem_cons.2 ⟨isHexDigit_of_hexDigit? hdigit, ih hrest⟩

theorem isWord64_iff {digits : List Char} :
    IsWord64 digits ↔ digits ≠ [] ∧ ∃ value, hexValue? 0 digits = some value ∧ value < 2 ^ (64 : Nat) := by
  constructor
  · rintro ⟨hne, hdigits, hlt⟩
    refine ⟨hne, _, hexValue?_eq_some hdigits 0, ?_⟩
    rwa [Nat.zero_mul, Nat.zero_add]
  · rintro ⟨hne, value, hvalue, hlt⟩
    have hdigits := isHexDigit_of_hexValue? hvalue
    refine ⟨hne, hdigits, ?_⟩
    rw [hexValue?_eq_some hdigits, Nat.zero_mul, Nat.zero_add] at hvalue
    exact Option.some.inj hvalue ▸ hlt

theorem not_isHexDigit_plus : ¬ IsHexDigit '+' := by decide

theorem digits_isSome_iff {digits : List Char} : (if digits.isEmpty then none
    else (hexValue? 0 digits).filter (· < 2 ^ (64 : Nat))).isSome ↔ IsWord64 digits := by
  rw [isWord64_iff]
  cases digits with
  | nil => simp
  | cons c digits => simp [Option.isSome_filter, Option.any_eq_true]

/-- A plus sign in front of the digits does not count. -/
theorem word64?_isSome_iff {chars : List Char} :
    (word64? chars).isSome ↔ IsWord64 chars ∨ ∃ digits, chars = '+' :: digits ∧ IsWord64 digits := by
  by_cases hplus : ∃ digits, chars = '+' :: digits
  · obtain ⟨digits, rfl⟩ := hplus
    have hnot : ¬ IsWord64 ('+' :: digits) := fun h =>
      not_isHexDigit_plus (h.isHexDigit '+' List.mem_cons_self)
    have hread : (word64? ('+' :: digits)).isSome ↔ IsWord64 digits := digits_isSome_iff
    rw [hread, or_iff_right hnot]
    exact ⟨fun h => ⟨digits, rfl, h⟩, fun ⟨_, heq, h⟩ => (List.cons.inj heq).2 ▸ h⟩
  · have hnot : ¬ ∃ digits, chars = '+' :: digits ∧ IsWord64 digits := fun ⟨digits, h, _⟩ => hplus ⟨digits, h⟩
    have hread : word64? chars = if chars.isEmpty then none
        else (hexValue? 0 chars).filter (· < 2 ^ (64 : Nat)) := by
      unfold word64?
      split
      · exact absurd ⟨_, rfl⟩ hplus
      · rfl
    rw [or_iff_left hnot, hread, digits_isSome_iff]

theorem afterHexMark?_eq_some {chars digits : List Char} :
    afterHexMark? chars = some digits ↔ ∃ mark, (mark = 'x' ∨ mark = 'X') ∧ chars = '0' :: mark :: digits := by
  constructor
  · intro h
    unfold afterHexMark? at h
    split at h
    · exact ⟨'x', .inl rfl, Option.some.inj h ▸ rfl⟩
    · exact ⟨'X', .inr rfl, Option.some.inj h ▸ rfl⟩
    · exact nomatch h
  · rintro ⟨mark, rfl | rfl, rfl⟩
    · rfl
    · rfl

theorem plusBehindMark_iff {chars : List Char} :
    PlusBehindMark chars ↔ ∃ digits, afterHexMark? chars = some ('+' :: digits) ∧ IsWord64 digits := by
  constructor
  · rintro ⟨mark, digits, rfl, hmark, hdigits⟩
    exact ⟨digits, afterHexMark?_eq_some.2 ⟨mark, hmark, rfl⟩, hdigits⟩
  · rintro ⟨digits, hchars, hdigits⟩
    obtain ⟨mark, hmark, rfl⟩ := afterHexMark?_eq_some.1 hchars
    exact ⟨mark, digits, rfl, hmark, hdigits⟩

/-! ## Spellings -/

def IsInfinityWord (chars : List Char) : Prop := ∃ sign, OptionalSign sign ∧ chars = sign ++ "Infinity".toList

theorem isInfinityWord_iff {chars : List Char} : IsInfinityWord chars ↔
    (chars = "Infinity".toList ∨ chars = "+Infinity".toList) ∨ chars = "-Infinity".toList := by
  constructor
  · rintro ⟨sign, hsign, rfl⟩
    cases hsign with
    | none => exact .inl (.inl rfl)
    | some hsign =>
      rcases hsign with rfl | rfl
      · exact .inl (.inr rfl)
      · exact .inr rfl
  · rintro ((rfl | rfl) | rfl)
    · exact ⟨[], .none, rfl⟩
    · exact ⟨['+'], .some (.inl rfl), rfl⟩
    · exact ⟨['-'], .some (.inr rfl), rfl⟩

theorem IsInfinityWord.afterHexMark?_eq {chars : List Char} (h : IsInfinityWord chars) :
    afterHexMark? chars = none := by
  rcases isInfinityWord_iff.1 h with (rfl | rfl) | rfl
  · rfl
  · rfl
  · rfl

/-- The three kinds of spelling by the mark, as they are tried. -/
theorem spelled_iff {chars : List Char} : Spelled chars ↔ IsInfinityWord chars ∨
    (∃ digits, afterHexMark? chars = some digits ∧ IsWord64 digits) ∨
      afterHexMark? chars = none ∧ IsDecimal chars := by
  constructor
  · intro h
    cases h with
    | infinity hsign => exact .inl ⟨_, hsign, rfl⟩
    | hexadecimal hmark hdigits =>
      exact .inr (.inl ⟨_, afterHexMark?_eq_some.2 ⟨_, hmark, rfl⟩, hdigits⟩)
    | decimal h => exact .inr (.inr ⟨afterHexMark?_of_isDecimalChar h.isDecimalChar, h⟩)
  · rintro (⟨sign, hsign, rfl⟩ | ⟨digits, hchars, hdigits⟩ | ⟨-, h⟩)
    · exact .infinity hsign
    · obtain ⟨mark, hmark, rfl⟩ := afterHexMark?_eq_some.1 hchars
      exact .hexadecimal hmark hdigits
    · exact .decimal h

/-- No decimal is screened out, and no word gets past the screen. -/
theorem ofScreened?_eq_ofDecimal? (chars : List Char) :
    (if chars.any isWordLetter then none else ofLiteral? chars) = ofDecimal? chars := by
  split
  · next hscreen =>
    obtain ⟨c, hc, hletter⟩ := List.any_eq_true.1 hscreen
    refine (Option.not_isSome_iff_eq_none.1 fun hsome => ?_).symm
    exact Bool.false_ne_true (((ofDecimal?_isSome_iff.1 hsome).isDecimalChar c hc).2.symm.trans hletter)
  · next hscreen => exact ofLiteral?_eq_ofDecimal? (by simpa using hscreen)

theorem ofText?_isSome_iff {text : String} {chars : List Char} (hchars : trimChars text.toList = chars) :
    (ofText? text).isSome ↔ IsInfinityWord chars ∨
      (∃ digits, afterHexMark? chars = some digits ∧ (word64? digits).isSome) ∨
        afterHexMark? chars = none ∧ (ofDecimal? chars).isSome := by
  rw [isInfinityWord_iff, ofText?, hchars, ofScreened?_eq_ofDecimal?]
  split_ifs with hempty hpositive hnegative
  · obtain rfl := List.isEmpty_iff.1 hempty
    decide
  · exact iff_of_true rfl (.inl (.inl hpositive))
  · exact iff_of_true rfl (.inl (.inr hnegative))
  · rw [or_iff_right (not_or.2 ⟨hpositive, hnegative⟩)]
    cases afterHexMark? chars with
    | some digits => simp
    | none => simp

/-- The grammar has no plus sign behind the mark. -/
theorem PlusBehindMark.not_spelled {chars : List Char} (h : PlusBehindMark chars) : ¬ Spelled chars := by
  obtain ⟨digits, hmark, -⟩ := plusBehindMark_iff.1 h
  rw [spelled_iff, hmark]
  rintro (hword | ⟨_, heq, hdigits⟩ | ⟨hnone, -⟩)
  · exact nomatch hmark.symm.trans hword.afterHexMark?_eq
  · obtain rfl := Option.some.inj heq
    exact not_isHexDigit_plus (hdigits.isHexDigit '+' List.mem_cons_self)
  · exact nomatch hnone

/-- **Spellings.** The texts that denote a number are those that are spelled by the grammar and, apart from
them, the hexadecimal ones with a plus sign behind the mark. What they denote is a number. -/
theorem spellings_accepted (text : String) :
    ((ofText? text).isSome ↔ Spelled (trimChars text.toList) ∨ PlusBehindMark (trimChars text.toList)) ∧
    ¬ (Spelled (trimChars text.toList) ∧ PlusBehindMark (trimChars text.toList)) ∧
    (ofText? text).all (fun n => !n.isNaN) := by
  refine ⟨?_, fun h => h.2.not_spelled h.1, ?_⟩
  · rw [ofText?_isSome_iff rfl, spelled_iff, plusBehindMark_iff]
    simp only [word64?_isSome_iff, ofDecimal?_isSome_iff]
    constructor
    · rintro (hword | ⟨digits, hmark, hdigits | ⟨digits, rfl, hdigits⟩⟩ | hdecimal)
      · exact .inl (.inl hword)
      · exact .inl (.inr (.inl ⟨digits, hmark, hdigits⟩))
      · exact .inr ⟨digits, hmark, hdigits⟩
      · exact .inl (.inr (.inr hdecimal))
    · rintro ((hword | ⟨digits, hmark, hdigits⟩ | hdecimal) | ⟨digits, hmark, hdigits⟩)
      · exact .inl hword
      · exact .inr (.inl ⟨digits, hmark, .inl hdigits⟩)
      · exact .inr (.inr hdecimal)
      · exact .inr (.inl ⟨_, hmark, .inr ⟨digits, rfl, hdigits⟩⟩)
  · cases htext : ofText? text with
    | none => rfl
    | some n => simp [isNaN_of_ofText? htext]

/-- The grammar leaves out a text that denotes a number. -/
theorem plusBehindMark_accepted : (ofText? "0x+1F").isSome ∧ ¬ Spelled (trimChars "0x+1F".toList) := by
  have hword : IsWord64 ['1', 'F'] := isWord64_iff.2 ⟨List.cons_ne_nil _ _, 31, rfl, by decide⟩
  have hplus : PlusBehindMark "0x+1F".toList := ⟨'x', ['1', 'F'], rfl, .inl rfl, hword⟩
  exact ⟨(ofText?_isSome_iff rfl).2 (.inr (.inl ⟨['+', '1', 'F'], rfl, rfl⟩)), hplus.not_spelled⟩

/-! ## Marks behind digits -/

theorem IsInfinityWord.isDigit_head {c : Char} {chars : List Char} (h : IsInfinityWord (c :: chars)) :
    isDigit c = false := by
  rcases isInfinityWord_iff.1 h with (heq | heq) | heq
  all_goals
    rw [(List.cons.inj heq).1]
    decide

section Mark

variable {digits rest : List Char} {mark : Char} (hne : digits ≠ []) (hdigits : ∀ c ∈ digits, isDigit c = true)

include hne hdigits

theorem afterHexMark?_digits (hhex : ¬ (mark = 'x' ∨ mark = 'X')) : afterHexMark? (digits ++ mark :: rest) = none := by
  rw [← Option.not_isSome_iff_eq_none]
  intro hsome
  obtain ⟨marked, hmarked⟩ := Option.isSome_iff_exists.1 hsome
  obtain ⟨x, hx, heq⟩ := afterHexMark?_eq_some.1 hmarked
  obtain ⟨c, more, rfl⟩ := List.exists_cons_of_ne_nil hne
  have hsecond := (List.cons.inj heq).2
  cases more with
  | nil => exact hhex ((List.cons.inj hsecond).1 ▸ hx)
  | cons d more =>
    obtain rfl : d = x := (List.cons.inj hsecond).1
    have hd := hdigits d (by simp)
    rcases hx with rfl | rfl <;> exact absurd hd (by decide)

theorem ofDecimal?_digits (hmark : isDigit mark = false) (hpoint : mark ≠ '.')
    (hexponent : ¬ (mark = 'e' ∨ mark = 'E')) : ofDecimal? (digits ++ mark :: rest) = none := by
  have hparts : Token.Parts digits [] (mark :: rest) :=
    .integer hdigits fun x hx => Option.some.inj hx ▸ ⟨hmark, hpoint⟩
  have hunsigned : ∀ x ∈ (digits ++ mark :: rest).head?, x ≠ '+' ∧ x ≠ '-' := by
    obtain ⟨c, more, rfl⟩ := List.exists_cons_of_ne_nil hne
    intro x hx
    obtain rfl := Option.some.inj hx
    exact not_or.1 (unsigned_of_isDigit (hdigits c List.mem_cons_self))
  rw [← Option.not_isSome_iff_eq_none]
  intro hsome
  have hexponentSome := ((hparts.isSome_ofDecimal? hunsigned).1 hsome).2
  rw [DecimalText.exponent?, if_neg (by simpa using hexponent)] at hexponentSome
  exact Bool.false_ne_true hexponentSome

/-- Digits with a mark behind them that no number has there. -/
theorem ofText?_of_mark {text : String} (htext : trimChars text.toList = digits ++ mark :: rest)
    (hmark : isDigit mark = false) (hother : mark ∉ ".eExX".toList) : ofText? text = none := by
  have hpoint : mark ≠ '.' := by rintro rfl; exact hother (by decide)
  have hexponent : ¬ (mark = 'e' ∨ mark = 'E') := by rintro (rfl | rfl) <;> exact hother (by decide)
  have hhex : ¬ (mark = 'x' ∨ mark = 'X') := by rintro (rfl | rfl) <;> exact hother (by decide)
  rw [← Option.not_isSome_iff_eq_none, ofText?_isSome_iff htext, afterHexMark?_digits hne hdigits hhex,
    ofDecimal?_digits hne hdigits hmark hpoint hexponent]
  rintro (hword | ⟨_, hmarked, -⟩ | ⟨-, hdecimal⟩)
  · obtain ⟨c, more, rfl⟩ := List.exists_cons_of_ne_nil hne
    exact absurd (hdigits c List.mem_cons_self) (Bool.eq_false_iff.1 hword.isDigit_head)
  · exact Option.some_ne_none _ hmarked.symm
  · exact Bool.false_ne_true hdecimal

end Mark

end Number

end Formulary
