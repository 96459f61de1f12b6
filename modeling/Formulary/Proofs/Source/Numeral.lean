import Formulary.Proofs.Number.Shortest
import Formulary.Source.Token

/-!
# Numerals in formulas

`Token.numberChars` is cut from the front of a text by what may come next, a decimal is read by its
grammar. The two agree: the decimals at the front of a text are beginnings of `numberChars`, which is
itself the longest of them unless it ends in an exponent without digits (`numberChars_malformed`).
-/

namespace Formulary

namespace Token

/-- The text is a decimal without a sign. -/
def IsNumeral (text : List Char) (n : Number) : Prop :=
  (∀ c ∈ text.head?, c ≠ '+' ∧ c ≠ '-') ∧ Number.ofDecimal? text = some n

open DecimalText

theorem takeWhile_prefix_append (p : Char → Bool) (xs ys : List Char) :
    xs.takeWhile p <+: (xs ++ ys).takeWhile p := by
  rw [List.takeWhile_append]
  split
  · next h =>
    rw [(List.takeWhile_sublist p).eq_of_length h]
    exact List.prefix_append _ _
  · exact List.prefix_rfl

/-! ## Exponents -/

section Mark

variable {c sign : Char} (hmark : c = 'e' ∨ c = 'E')

include hmark

theorem takeExponent_signed (hsign : sign = '+' ∨ sign = '-') (digits : List Char) :
    takeExponent (c :: sign :: digits) = c :: sign :: digits.takeWhile isDigit := by
  simp only [takeExponent, if_pos hmark, if_pos hsign]

theorem takeExponent_unsigned {rest : List Char}
    (hsign : ∀ x ∈ rest.head?, ¬ (x = '+' ∨ x = '-')) :
    takeExponent (c :: rest) = c :: rest.takeWhile isDigit := by
  cases rest with
  | nil => simp only [takeExponent, if_pos hmark, List.takeWhile_nil]
  | cons sign digits => simp only [takeExponent, if_pos hmark, if_neg (hsign sign rfl)]

theorem exponent?_isSome {rest : List Char} : (exponent? (c :: rest)).isSome =
    (!(splitSign rest).2.isEmpty && (splitSign rest).2.all isDigit) := by
  rw [exponent?, if_pos (by simpa using hmark)]
  cases hdigits : (splitSign rest).2.isEmpty <;> cases hall : (splitSign rest).2.all isDigit <;>
    simp [hdigits, hall]

end Mark

theorem takeExponent_of_ne {c : Char} (hmark : ¬ (c = 'e' ∨ c = 'E')) (rest : List Char) :
    takeExponent (c :: rest) = [] := by
  simp only [takeExponent, if_neg hmark]

/-- What follows a mark starts with a sign or not. -/
theorem sign_cases (rest : List Char) :
    (∃ sign digits, rest = sign :: digits ∧ (sign = '+' ∨ sign = '-')) ∨
      ∀ x ∈ rest.head?, ¬ (x = '+' ∨ x = '-') := by
  cases rest with
  | nil => exact .inr fun x hx => nomatch hx
  | cons sign digits =>
    by_cases hsign : sign = '+' ∨ sign = '-'
    · exact .inl ⟨sign, digits, rfl, hsign⟩
    · exact .inr fun x hx => Option.some.inj hx ▸ hsign

theorem takeExponent_mark {mark : Char} (hmark : mark = 'e' ∨ mark = 'E') (rest : List Char) :
    ∃ more, takeExponent (mark :: rest) = mark :: more := by
  rcases sign_cases rest with ⟨sign, digits, rfl, hsign⟩ | hsign
  · exact ⟨_, takeExponent_signed hmark hsign digits⟩
  · exact ⟨_, takeExponent_unsigned hmark hsign⟩

theorem splitSign_of_ne {rest : List Char} (h : ∀ x ∈ rest.head?, ¬ (x = '+' ∨ x = '-')) :
    splitSign rest = (false, rest) := by
  unfold splitSign
  split <;> simp_all

theorem splitSign_snd {sign : Char} (h : sign = '+' ∨ sign = '-') (digits : List Char) :
    (splitSign (sign :: digits)).2 = digits := by
  rcases h with rfl | rfl <;> rfl

/-- An exponent is taken whole. -/
theorem takeExponent_of_exponent? {text : List Char} (h : (exponent? text).isSome) :
    takeExponent text = text := by
  cases text with
  | nil => rfl
  | cons c rest =>
    by_cases hmark : c = 'e' ∨ c = 'E'
    · rw [exponent?_isSome hmark] at h
      rcases sign_cases rest with ⟨sign, digits, rfl, hsign⟩ | hsign
      · rw [splitSign_snd hsign, Bool.and_eq_true, List.all_eq_true] at h
        rw [takeExponent_signed hmark hsign, List.takeWhile_eq_self_iff.2 h.2]
      · rw [splitSign_of_ne hsign, Bool.and_eq_true, List.all_eq_true] at h
        rw [takeExponent_unsigned hmark hsign, List.takeWhile_eq_self_iff.2 h.2]
    · rw [exponent?, if_neg (by simpa using hmark)] at h
      exact absurd h Bool.false_ne_true

theorem takeExponent_isPrefix (text : List Char) : takeExponent text <+: text := by
  cases text with
  | nil => exact List.nil_prefix
  | cons c rest =>
    by_cases hmark : c = 'e' ∨ c = 'E'
    · rcases sign_cases rest with ⟨sign, digits, rfl, hsign⟩ | hsign
      · rw [takeExponent_signed hmark hsign, List.prefix_cons_inj, List.prefix_cons_inj]
        exact List.takeWhile_prefix isDigit
      · rw [takeExponent_unsigned hmark hsign, List.prefix_cons_inj]
        exact List.takeWhile_prefix isDigit
    · exact takeExponent_of_ne hmark rest ▸ List.nil_prefix

theorem takeExponent_prefix_append (text rest : List Char) :
    takeExponent text <+: takeExponent (text ++ rest) := by
  cases text with
  | nil => exact List.nil_prefix
  | cons c tail =>
    by_cases hmark : c = 'e' ∨ c = 'E'
    · rcases sign_cases tail with ⟨sign, digits, rfl, hsign⟩ | hsign
      · rw [List.cons_append, List.cons_append, takeExponent_signed hmark hsign,
          takeExponent_signed hmark hsign, List.prefix_cons_inj, List.prefix_cons_inj]
        exact takeWhile_prefix_append _ _ _
      · rw [takeExponent_unsigned hmark hsign]
        cases tail with
        | nil =>
          rcases sign_cases rest with ⟨sign, digits, rfl, hsign'⟩ | hsign'
          · exact takeExponent_signed hmark hsign' digits ▸ ⟨_, rfl⟩
          · exact takeExponent_unsigned hmark hsign' ▸ ⟨_, rfl⟩
        | cons x tail =>
          rw [List.cons_append, takeExponent_unsigned hmark (by exact hsign), List.prefix_cons_inj]
          exact takeWhile_prefix_append _ _ _
    · rw [takeExponent_of_ne hmark]
      exact List.nil_prefix

theorem splitSign_digits {digits : List Char} (h : ∀ c ∈ digits, isDigit c = true) :
    splitSign digits = (false, digits) := by
  refine splitSign_of_ne fun x hx => ?_
  have hdigit := h x (List.mem_of_mem_head? hx)
  rintro (rfl | rfl)
  · exact absurd hdigit (by decide)
  · exact absurd hdigit (by decide)

theorem taken_isSome {start digits : List Char} (h : start <+: digits.takeWhile isDigit)
    (hne : (!start.isEmpty) = true) :
    (!(digits.takeWhile isDigit).isEmpty && (digits.takeWhile isDigit).all isDigit) = true := by
  rw [Bool.and_eq_true, List.all_eq_true]
  refine ⟨?_, fun c hc => List.mem_takeWhile_imp hc⟩
  obtain ⟨rest, hrest⟩ := h
  rw [← hrest]
  cases start with
  | nil => exact nomatch hne
  | cons c start => rfl

/-- If an exponent is broken off before its digits, so is every beginning of it. -/
theorem takeExponent_malformed {text : List Char} (h : ¬ (exponent? (takeExponent text)).isSome) :
    ∃ mark rest, text = mark :: rest ∧ (mark = 'e' ∨ mark = 'E') ∧
      ∀ start, start <+: takeExponent text → start ≠ [] → ¬ (exponent? start).isSome := by
  cases text with
  | nil => exact absurd rfl h
  | cons c rest =>
    by_cases hmark : c = 'e' ∨ c = 'E'
    · refine ⟨c, rest, rfl, hmark, fun start hstart hne hsome => h ?_⟩
      obtain ⟨c', start, rfl⟩ := List.exists_cons_of_ne_nil hne
      rcases sign_cases rest with ⟨sign, digits, rfl, hsign⟩ | hsign
      · rw [takeExponent_signed hmark hsign] at hstart ⊢
        obtain ⟨rfl, htail⟩ := List.cons_prefix_cons.1 hstart
        rw [exponent?_isSome hmark] at hsome ⊢
        rw [splitSign_snd hsign]
        cases start with
        | nil => exact nomatch hsome
        | cons sign' start =>
          obtain ⟨hsame, hdigits⟩ := List.cons_prefix_cons.1 htail
          rw [hsame, splitSign_snd hsign, Bool.and_eq_true] at hsome
          exact taken_isSome hdigits hsome.1
      · rw [takeExponent_unsigned hmark hsign] at hstart ⊢
        obtain ⟨rfl, htail⟩ := List.cons_prefix_cons.1 hstart
        have hdigits : ∀ c ∈ start, isDigit c = true :=
          fun c hc => List.mem_takeWhile_imp (htail.subset hc)
        rw [exponent?_isSome hmark] at hsome ⊢
        rw [splitSign_digits hdigits, Bool.and_eq_true] at hsome
        rw [splitSign_digits fun c hc => List.mem_takeWhile_imp hc]
        exact taken_isSome htail hsome.1
    · rw [takeExponent_of_ne hmark] at h
      exact absurd rfl h

/-! ## Mantissas -/

/-- What satisfies the predicate is taken up to what does not. -/
theorem span_append {p : Char → Bool} {front rest : List Char} (hfront : ∀ c ∈ front, p c = true)
    (hrest : ∀ c ∈ rest.head?, p c = false) :
    (front ++ rest).takeWhile p = front ∧ (front ++ rest).dropWhile p = rest := by
  rw [List.takeWhile_append_of_pos hfront, List.dropWhile_append_of_pos hfront]
  cases rest with
  | nil => exact ⟨List.append_nil _, rfl⟩
  | cons c rest =>
    have hc : ¬ p c = true := by simp [hrest c rfl]
    rw [List.takeWhile_cons_of_neg hc, List.dropWhile_cons_of_neg hc]
    exact ⟨List.append_nil _, rfl⟩

/-- Where the characters of a class end, in one way only. -/
theorem append_mark_inj {p : Char → Bool} {front front' rest rest' : List Char} {mark mark' : Char}
    (hfront : ∀ c ∈ front, p c = true) (hfront' : ∀ c ∈ front', p c = true) (hmark : p mark = false)
    (hmark' : p mark' = false) (h : front ++ mark :: rest = front' ++ mark' :: rest') :
    front = front' ∧ mark :: rest = mark' :: rest' := by
  have hhead {c : Char} (hc : p c = false) (rest : List Char) : ∀ d ∈ (c :: rest).head?, p d = false := by
    rintro d hd
    exact Option.some.inj hd ▸ hc
  obtain ⟨htake, hdrop⟩ := span_append hfront (hhead hmark rest)
  obtain ⟨htake', hdrop'⟩ := span_append hfront' (hhead hmark' rest')
  rw [h] at htake hdrop
  exact ⟨htake.symm.trans htake', hdrop.symm.trans hdrop'⟩

/-- A text starts with digits, with a point and digits if the text goes on so, and then goes on
differently. -/
inductive Parts : List Char → List Char → List Char → Prop where
  | integer {whole rest : List Char} (hwhole : ∀ c ∈ whole, isDigit c = true)
    (hrest : ∀ c ∈ rest.head?, isDigit c = false ∧ c ≠ '.') : Parts whole [] rest
  | decimal {whole fraction rest : List Char} (hwhole : ∀ c ∈ whole, isDigit c = true)
    (hfraction : ∀ c ∈ fraction, isDigit c = true) (hrest : ∀ c ∈ rest.head?, isDigit c = false) :
    Parts whole ('.' :: fraction) rest

theorem head?_dropWhile {p : Char → Bool} {text : List Char} {c : Char}
    (h : c ∈ (text.dropWhile p).head?) : p c = false := by
  have := List.head?_dropWhile_not p text
  rw [Option.mem_def.1 h] at this
  simpa using this

theorem exists_parts (text : List Char) :
    ∃ whole point rest, text = whole ++ (point ++ rest) ∧ Parts whole point rest := by
  have hwhole : ∀ c ∈ text.takeWhile isDigit, isDigit c = true := fun c hc => List.mem_takeWhile_imp hc
  have htext := List.takeWhile_append_dropWhile (p := isDigit) (l := text)
  by_cases hpoint : ∃ rest, text.dropWhile isDigit = '.' :: rest
  · obtain ⟨rest, hrest⟩ := hpoint
    refine ⟨_, '.' :: rest.takeWhile isDigit, rest.dropWhile isDigit, ?_, .decimal hwhole ?_ ?_⟩
    · rw [List.cons_append, List.takeWhile_append_dropWhile, ← hrest, htext]
    · exact fun c hc => List.mem_takeWhile_imp hc
    · exact fun c hc => head?_dropWhile hc
  · refine ⟨_, [], text.dropWhile isDigit, htext.symm, .integer hwhole fun c hc => ?_⟩
    refine ⟨head?_dropWhile hc, ?_⟩
    rintro rfl
    obtain ⟨rest, hrest⟩ := List.head?_eq_some_iff.1 hc
    exact hpoint ⟨rest, hrest⟩

namespace Parts

variable {whole point rest : List Char} (h : Parts whole point rest)

include h

theorem span_eq : (whole ++ (point ++ rest)).takeWhile isDigit = whole ∧
    (whole ++ (point ++ rest)).dropWhile isDigit = point ++ rest := by
  cases h with
  | integer hwhole hrest => exact span_append hwhole fun c hc => (hrest c hc).1
  | decimal hwhole hfraction hrest =>
    exact span_append hwhole fun c hc => Option.some.inj hc ▸ by decide

theorem spanPoint_eq : spanPoint (point ++ rest) = (point, rest) := by
  cases h with
  | integer hwhole hrest =>
    rw [List.nil_append]
    unfold spanPoint
    split
    · exact absurd rfl (hrest '.' rfl).2
    · rfl
  | decimal hwhole hfraction hrest =>
    obtain ⟨htake, hdrop⟩ := span_append hfraction hrest
    rw [List.cons_append, spanPoint, htake, hdrop]

theorem numberChars_eq :
    numberChars (whole ++ (point ++ rest)) = whole ++ (point ++ takeExponent rest) := by
  simp only [numberChars, h.span_eq, h.spanPoint_eq, List.append_assoc]

theorem splitFraction_eq : splitFraction (point ++ rest) = (point.tail, rest) := by
  cases h with
  | integer hwhole hrest =>
    rw [List.nil_append]
    unfold splitFraction
    split
    · exact absurd rfl (hrest '.' rfl).2
    · rfl
  | decimal hwhole hfraction hrest =>
    obtain ⟨htake, hdrop⟩ := span_append hfraction hrest
    rw [List.cons_append, splitFraction, List.span_eq_takeWhile_dropWhile, htake, hdrop, List.tail_cons]

/-- A text is a decimal if behind the sign it has a digit and its rest is an exponent. -/
theorem isSome_ofDecimal?_splitSign {text : List Char}
    (hunsigned : (splitSign text).2 = whole ++ (point ++ rest)) :
    (Number.ofDecimal? text).isSome ↔ (whole ≠ [] ∨ point.tail ≠ []) ∧ (exponent? rest).isSome := by
  rw [Number.ofDecimal?, Option.isSome_map, ofChars?]
  simp only [hunsigned, List.span_eq_takeWhile_dropWhile, h.span_eq, h.splitFraction_eq]
  split
  · next hempty =>
    simp only [Bool.and_eq_true, List.isEmpty_iff] at hempty
    simp [hempty]
  · next hempty =>
    simp only [Bool.and_eq_true, List.isEmpty_iff, not_and_or] at hempty
    simp [hempty]

theorem isSome_ofDecimal? (hsign : ∀ c ∈ (whole ++ (point ++ rest)).head?, c ≠ '+' ∧ c ≠ '-') :
    (Number.ofDecimal? (whole ++ (point ++ rest))).isSome ↔
      (whole ≠ [] ∨ point.tail ≠ []) ∧ (exponent? rest).isSome := by
  refine h.isSome_ofDecimal?_splitSign ?_
  rw [splitSign_of_ne fun c hc hor => hor.elim (hsign c hc).1 (hsign c hc).2]

/-- The parts depend on the rest by its first character only. -/
theorem congr_rest {rest' : List Char} (hrest : rest'.head? = rest.head?) : Parts whole point rest' := by
  cases h with
  | integer hwhole hstop => exact .integer hwhole (hrest ▸ hstop)
  | decimal hwhole hfraction hstop => exact .decimal hwhole hfraction (hrest ▸ hstop)

theorem of_mark {mark : Char} {rest' : List Char} (hmark : mark = 'e' ∨ mark = 'E') :
    Parts whole point (mark :: rest') := by
  have hne : isDigit mark = false ∧ mark ≠ '.' := by rcases hmark with rfl | rfl <;> decide
  cases h with
  | integer hwhole => exact .integer hwhole fun c hc => Option.some.inj hc ▸ hne
  | decimal hwhole hfraction => exact .decimal hwhole hfraction fun c hc => Option.some.inj hc ▸ hne.1

/-- More digits in front. -/
theorem append {front : List Char} (hfront : ∀ c ∈ front, isDigit c = true) :
    Parts (front ++ whole) point rest := by
  cases h with
  | integer hwhole hrest =>
    exact .integer (fun c hc => (List.mem_append.1 hc).elim (hfront c) (hwhole c)) hrest
  | decimal hwhole hfraction hrest =>
    exact .decimal (fun c hc => (List.mem_append.1 hc).elim (hfront c) (hwhole c)) hfraction hrest

theorem nil_rest : Parts whole point [] := by
  cases h with
  | integer hwhole => exact .integer hwhole fun c hc => nomatch hc
  | decimal hwhole hfraction => exact .decimal hwhole hfraction fun c hc => nomatch hc

theorem takeExponent : Parts whole point (takeExponent rest) := by
  cases rest with
  | nil => exact h
  | cons c rest =>
    by_cases hmark : c = 'e' ∨ c = 'E'
    · obtain ⟨more, hmore⟩ := takeExponent_mark hmark rest
      exact hmore ▸ h.of_mark hmark
    · exact takeExponent_of_ne hmark rest ▸ h.nil_rest

end Parts

/-! ## Numerals at the front of a text -/

theorem numberChars_isPrefix (text : List Char) : numberChars text <+: text := by
  obtain ⟨whole, point, rest, rfl, hparts⟩ := exists_parts text
  rw [hparts.numberChars_eq, List.prefix_append_right_inj, List.prefix_append_right_inj]
  exact takeExponent_isPrefix rest

/-- The text starts with a digit, or with a point and a digit. -/
def StartsNumeral (text : List Char) : Prop :=
  ∃ c rest, text = c :: rest ∧ (isDigit c = true ∨ c = '.' ∧ rest.head?.any isDigit = true)

theorem StartsNumeral.unsigned {text : List Char} (h : StartsNumeral text) :
    ∀ c ∈ text.head?, c ≠ '+' ∧ c ≠ '-' := by
  obtain ⟨c, rest, rfl, hc⟩ := h
  intro x hx
  obtain rfl := Option.some.inj hx
  rcases hc with hc | ⟨rfl, -⟩
  · constructor <;> (rintro rfl; exact absurd hc (by decide))
  · decide

theorem StartsNumeral.isNumeral {text : List Char} {n : Number} (h : StartsNumeral text)
    (hn : Number.ofDecimal? (numberChars text) = some n) : IsNumeral (numberChars text) n := by
  refine ⟨fun c hc => h.unsigned c ?_, hn⟩
  obtain ⟨rest, hrest⟩ := numberChars_isPrefix text
  rw [← hrest, List.head?_append, Option.mem_def.1 hc]
  rfl

theorem Parts.has_digit {whole point rest : List Char} (h : Parts whole point rest)
    (hstart : StartsNumeral (whole ++ (point ++ rest))) : whole ≠ [] ∨ point.tail ≠ [] := by
  cases whole with
  | cons c whole => exact .inl (List.cons_ne_nil c whole)
  | nil =>
    obtain ⟨c, tail, htext, hc⟩ := hstart
    cases h with
    | integer hwhole hrest =>
      obtain rfl : rest = c :: tail := htext
      obtain ⟨hdigit, hpoint⟩ := hrest c rfl
      rcases hc with hc | ⟨hc, -⟩
      · rw [hdigit] at hc
        exact nomatch hc
      · exact absurd hc hpoint
    | @decimal fraction _ hwhole hfraction hrest =>
      obtain ⟨rfl, rfl⟩ : '.' = c ∧ fraction ++ rest = tail := List.cons.inj htext
      refine .inr fun hnil => ?_
      obtain rfl : fraction = [] := hnil
      rcases hc with hc | ⟨-, hc⟩
      · exact absurd hc (by decide)
      · cases rest with
        | nil => exact nomatch hc
        | cons x rest =>
          have hx : isDigit x = true := hc
          rw [hrest x rfl] at hx
          exact nomatch hx

namespace IsNumeral

variable {text : List Char} {n : Number} (h : IsNumeral text n)

include h

theorem exists_parts : ∃ whole point rest, text = whole ++ (point ++ rest) ∧ Parts whole point rest ∧
    (whole ≠ [] ∨ point.tail ≠ []) ∧ (exponent? rest).isSome := by
  obtain ⟨whole, point, rest, rfl, hparts⟩ := Token.exists_parts text
  exact ⟨whole, point, rest, rfl, hparts, (hparts.isSome_ofDecimal? h.1).1 (h.2 ▸ rfl)⟩

theorem starts (tail : List Char) : StartsNumeral (text ++ tail) := by
  obtain ⟨whole, point, rest, rfl, hparts, hdigit, -⟩ := h.exists_parts
  have hwhole : ∀ c ∈ whole, isDigit c = true := by cases hparts <;> assumption
  cases whole with
  | cons c whole =>
    exact ⟨c, _, rfl, .inl (hwhole c List.mem_cons_self)⟩
  | nil =>
    cases hparts with
    | integer => simp at hdigit
    | @decimal fraction rest _ hfraction hrest =>
      cases fraction with
      | nil => simp at hdigit
      | cons c fraction =>
        exact ⟨'.', _, rfl, .inr ⟨rfl, hfraction c List.mem_cons_self⟩⟩

theorem numberChars_eq : numberChars text = text := by
  obtain ⟨whole, point, rest, rfl, hparts, -, hexponent⟩ := h.exists_parts
  rw [hparts.numberChars_eq, takeExponent_of_exponent? hexponent]

theorem ne_nil : text ≠ [] := by
  obtain ⟨c, rest, htext, -⟩ := h.starts []
  rw [List.append_nil] at htext
  exact htext ▸ List.cons_ne_nil c rest

/-- What is cut from a text that starts with a numeral starts with it. -/
theorem prefix_numberChars (tail : List Char) : text <+: numberChars (text ++ tail) := by
  obtain ⟨whole, point, rest, rfl, hparts, -, hexponent⟩ := h.exists_parts
  cases rest with
  | cons c rest =>
    have hmore : Parts whole point (c :: rest ++ tail) := hparts.congr_rest rfl
    rw [List.append_assoc, List.append_assoc, hmore.numberChars_eq, List.prefix_append_right_inj,
      List.prefix_append_right_inj]
    have htaken := takeExponent_prefix_append (c :: rest) tail
    rwa [takeExponent_of_exponent? hexponent] at htaken
  | nil =>
    rw [List.append_nil, List.append_assoc]
    cases hparts with
    | integer hwhole =>
      obtain ⟨more, point, rest, rfl, hmore⟩ := Token.exists_parts tail
      rw [List.append_nil, List.nil_append, ← List.append_assoc, (hmore.append hwhole).numberChars_eq,
        List.append_assoc]
      exact List.prefix_append _ _
    | @decimal fraction _ hwhole hfraction hrest =>
      have hmore : Parts whole ('.' :: (fraction ++ tail.takeWhile isDigit)) (tail.dropWhile isDigit) := by
        refine .decimal hwhole (fun c hc => ?_) fun c hc => head?_dropWhile hc
        exact (List.mem_append.1 hc).elim (hfraction c) fun hc => List.mem_takeWhile_imp hc
      have htext : '.' :: fraction ++ tail =
          '.' :: (fraction ++ tail.takeWhile isDigit) ++ tail.dropWhile isDigit := by
        rw [List.cons_append, List.cons_append, List.append_assoc, List.takeWhile_append_dropWhile]
      rw [htext, hmore.numberChars_eq, List.prefix_append_right_inj, List.cons_append,
        List.prefix_cons_inj, List.append_assoc]
      exact List.prefix_append _ _

end IsNumeral

/-- If what is cut is no decimal, it breaks off in an exponent, and what stands before the exponent is the
longest numeral. -/
theorem numberChars_malformed {text : List Char} (hstart : StartsNumeral text)
    (h : Number.ofDecimal? (numberChars text) = none) :
    ∃ front mark rest n, text = front ++ mark :: rest ∧ (mark = 'e' ∨ mark = 'E') ∧
      IsNumeral front n ∧
      ∀ start n, start <+: text → IsNumeral start n → start.length ≤ front.length := by
  obtain ⟨whole, point, tail, rfl, hparts⟩ := exists_parts text
  have hdigit := hparts.has_digit hstart
  have hsign : ∀ tail', ∀ c ∈ (whole ++ (point ++ tail')).head?, c ≠ '+' ∧ c ≠ '-' := by
    have hne : whole ++ point ≠ [] := by
      intro hnil
      obtain ⟨rfl, rfl⟩ := List.append_eq_nil_iff.1 hnil
      exact hdigit.elim (· rfl) (· rfl)
    obtain ⟨x, front, hfront⟩ := List.exists_cons_of_ne_nil hne
    have hhead := hstart.unsigned
    intro tail'
    rw [← List.append_assoc, hfront] at hhead ⊢
    exact hhead
  have hdecimal : ∀ {tail'}, Parts whole point tail' →
      ((Number.ofDecimal? (whole ++ (point ++ tail'))).isSome ↔ (exponent? tail').isSome) :=
    fun hparts' => (hparts'.isSome_ofDecimal? (hsign _)).trans (and_iff_right hdigit)
  have hmalformed : ¬ (exponent? (takeExponent tail)).isSome := by
    rw [← hdecimal hparts.takeExponent, ← hparts.numberChars_eq, h]
    exact Bool.false_ne_true
  obtain ⟨mark, rest, rfl, hmark, hbroken⟩ := takeExponent_malformed hmalformed
  obtain ⟨n, hn⟩ := Option.isSome_iff_exists.1 ((hdecimal hparts.nil_rest).2 rfl)
  refine ⟨whole ++ point, mark, rest, n, ?_, hmark, ⟨?_, ?_⟩, fun start m hfront hnumeral => ?_⟩
  · rw [List.append_assoc]
  · have := hsign []
    rwa [List.append_nil] at this
  · rwa [List.append_nil] at hn
  · obtain ⟨after, hafter⟩ := hfront
    have hcut := hnumeral.prefix_numberChars after
    rw [hafter, hparts.numberChars_eq, ← List.append_assoc] at hcut
    -- a longer numeral would go on with the mark, and have an exponent where none is whole
    by_contra hlong
    obtain ⟨broken, rfl⟩ := List.prefix_of_prefix_length_le (List.prefix_append _ _) hcut (by omega)
    rw [List.prefix_append_right_inj] at hcut
    cases broken with
    | nil => exact hlong (by simp)
    | cons c broken =>
      refine hbroken _ hcut (List.cons_ne_nil c broken) ?_
      obtain ⟨more, hmore⟩ := takeExponent_mark hmark rest
      rw [hmore] at hcut
      obtain ⟨rfl, -⟩ := List.cons_prefix_cons.1 hcut
      rw [← hdecimal (hparts.of_mark hmark), ← List.append_assoc, hnumeral.2]
      rfl

end Token

end Formulary
