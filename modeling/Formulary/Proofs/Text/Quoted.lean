import Formulary.Proofs.Number.Grammar
import Formulary.Text.Quoted

/-!
# Quoted texts

No two texts are the same in quotes (`quotedText_inj`). What stands for a character says where it ends: it is
the character itself, which is then neither a backslash nor a quote, or a backslash with a letter, or the number of the
character between braces. So the first character and the rest can be told from what follows them
(`Quoting.append_inj`).
-/

namespace Formulary

/-! ## Hexadecimal digits -/

theorem hexValue?_concat {digits : List Char} {high value digit : Nat} {c : Char}
    (h : hexValue? high digits = some value) (hc : hexDigit? c = some digit) :
    hexValue? high (digits ++ [c]) = some (16 * value + digit) := by
  induction digits generalizing high with
  | nil =>
    obtain rfl := Option.some.inj h
    rw [List.nil_append, hexValue?, hc]
    rfl
  | cons d digits ih =>
    obtain ⟨weight, hd, hrest⟩ := Option.bind_eq_some_iff.1 h
    rw [List.cons_append, hexValue?, hd]
    exact ih hrest

theorem hexDigit?_digitChar {n : Nat} (h : n < 16) : hexDigit? n.digitChar = some n := by
  have hall : ∀ n : Fin 16, hexDigit? (n : Nat).digitChar = some (n : Nat) := by decide
  exact hall ⟨n, h⟩

/-- The hexadecimal digits of a number denote it. -/
theorem hexValue?_toDigits (n : Nat) : hexValue? 0 (Nat.toDigits 16 n) = some n := by
  induction n using Nat.strongRecOn with
  | ind n ih =>
    rw [Nat.toDigits_eq_if (by decide)]
    split
    · next hsmall => exact (@hexValue?_concat [] 0 0 n _ rfl (hexDigit?_digitChar hsmall)).trans (by simp)
    · next hlarge =>
      have hhigh := ih (n / 16) (by omega)
      rw [hexValue?_concat hhigh (hexDigit?_digitChar (Nat.mod_lt n (by decide))), Nat.div_add_mod]

theorem isHexDigit_of_mem_toDigits {n : Nat} {c : Char} (h : c ∈ Nat.toDigits 16 n) : Number.IsHexDigit c :=
  Number.isHexDigit_of_hexValue? (hexValue?_toDigits n) c h

/-- Hexadecimal digits up to a brace. -/
theorem toDigits_brace_inj {n n' : Nat} {rest rest' : List Char}
    (h : Nat.toDigits 16 n ++ '\x7d' :: rest = Nat.toDigits 16 n' ++ '\x7d' :: rest') : n = n' ∧ rest = rest' := by
  have hdigits (n : Nat) : ∀ c ∈ Nat.toDigits 16 n, decide (Number.IsHexDigit c) = true := fun c hc =>
    decide_eq_true (isHexDigit_of_mem_toDigits hc)
  obtain ⟨hfront, hrest⟩ := Token.append_mark_inj (hdigits n) (hdigits n') (by decide) (by decide) h
  have hvalue := hexValue?_toDigits n
  rw [hfront, hexValue?_toDigits n'] at hvalue
  exact ⟨(Option.some.inj hvalue).symm, (List.cons.inj hrest).2⟩

/-! ## Characters in quotes -/

/-- The characters that have a short escape, each with its letter. -/
def shortEscapes : List (Char × Char) :=
  [('"', '"'), ('\\', '\\'), ('\n', 'n'), ('\r', 'r'), ('\t', 't'), ('\x00', '0')]

theorem mem_shortEscapes {c letter : Char} (h : shortEscape? c = some letter) : (c, letter) ∈ shortEscapes := by
  unfold shortEscape? at h
  split at h <;> cases h <;> decide

/-- The three ways in which a character stands in quotes. -/
inductive Quoting (c : Char) : List Char → Prop where
  | letter {letter : Char} (h : (c, letter) ∈ shortEscapes) : Quoting c ['\\', letter]
  | plain (hslash : c ≠ '\\') (hquote : c ≠ '"') : Quoting c [c]
  | number : Quoting c ('\\' :: 'u' :: '\x7b' :: (Nat.toDigits 16 c.toNat ++ ['\x7d']))

theorem quoting_quotedChar (c : Char) : Quoting c (quotedChar c) := by
  unfold quotedChar
  split
  · next letter h => exact .letter (mem_shortEscapes h)
  · next h =>
    split
    · exact .plain (fun hc => nomatch hc ▸ h) fun hc => nomatch hc ▸ h
    · exact .number

theorem Quoting.append_inj {c c' : Char} {chars chars' rest rest' : List Char} (h : Quoting c chars)
    (h' : Quoting c' chars') (heq : chars ++ rest = chars' ++ rest') : c = c' ∧ rest = rest' := by
  have hletter : ∀ e ∈ shortEscapes, e.2 ≠ 'u' := by decide
  have hinj : ∀ e ∈ shortEscapes, ∀ e' ∈ shortEscapes, e.2 = e'.2 → e.1 = e'.1 := by decide
  cases h with
  | letter hc =>
    cases h' with
    | letter hc' =>
      obtain ⟨-, htail⟩ := List.cons.inj heq
      obtain ⟨rfl, hrest⟩ := List.cons.inj htail
      exact ⟨hinj _ hc _ hc' rfl, hrest⟩
    | plain hne _ => exact absurd (List.cons.inj heq).1.symm hne
    | number => exact absurd (List.cons.inj (List.cons.inj heq).2).1 (hletter _ hc)
  | plain hne _ =>
    cases h' with
    | letter _ => exact absurd (List.cons.inj heq).1 hne
    | plain _ _ => exact List.cons.inj heq
    | number => exact absurd (List.cons.inj heq).1 hne
  | number =>
    cases h' with
    | letter hc' => exact absurd (List.cons.inj (List.cons.inj heq).2).1.symm (hletter _ hc')
    | plain hne _ => exact absurd (List.cons.inj heq).1.symm hne
    | number =>
      simp only [List.cons_append, List.append_assoc, List.cons.injEq, List.nil_append, true_and] at heq
      obtain ⟨hnat, hrest⟩ := toDigits_brace_inj heq
      exact ⟨Char.toNat_inj.1 hnat, hrest⟩

/-- A character in quotes does not look like the closing quote. -/
theorem Quoting.ne_quote {c : Char} {chars : List Char} (h : Quoting c chars) (rest rest' : List Char) :
    chars ++ rest ≠ '"' :: rest' := by
  intro heq
  cases h with
  | letter _ => exact absurd (List.cons.inj heq).1 (by decide)
  | plain _ hne => exact hne (List.cons.inj heq).1
  | number => exact absurd (List.cons.inj heq).1 (by decide)

theorem flatMap_quotedChar_inj {chars chars' : List Char}
    (h : chars.flatMap quotedChar ++ ['"'] = chars'.flatMap quotedChar ++ ['"']) : chars = chars' := by
  induction chars generalizing chars' with
  | nil =>
    cases chars' with
    | nil => rfl
    | cons c' chars' =>
      rw [List.flatMap_cons, List.append_assoc] at h
      exact absurd h.symm ((quoting_quotedChar c').ne_quote _ _)
  | cons c chars ih =>
    cases chars' with
    | nil =>
      rw [List.flatMap_cons, List.append_assoc] at h
      exact absurd h ((quoting_quotedChar c).ne_quote _ _)
    | cons c' chars' =>
      rw [List.flatMap_cons, List.flatMap_cons, List.append_assoc, List.append_assoc] at h
      obtain ⟨rfl, hrest⟩ := (quoting_quotedChar c).append_inj (quoting_quotedChar c') h
      rw [ih hrest]

/-- **Quotes.** Texts that are the same in quotes are the same. -/
theorem quotedText_inj {s s' : String} (h : quotedText s = quotedText s') : s = s' := by
  have hchars := String.ofList_injective h
  exact String.toList_injective (flatMap_quotedChar_inj (List.cons.inj hchars).2)

end Formulary
