import Formulary.Number.Spelling
import Formulary.Proofs.Number.Shortest
import Formulary.Proofs.Text.Classes
import Formulary.Value.Basic

/-!
# The text of a number

The text of every number but not-a-number and negative zero denotes the number again
(`Number.ofText?_format`). No text denotes not-a-number.
-/

namespace Formulary

/-- A character that decides nothing before a text is read as a decimal: no blank at an end, and no letter of a
word or mark of a hexadecimal number. -/
def IsDecimalChar (c : Char) : Prop := isBlank c = false ∧ isWordLetter c = false

instance : DecidablePred IsDecimalChar := fun c => by unfold IsDecimalChar; infer_instance

theorem isWordLetter_of_isDigit {c : Char} (h : isDigit c = true) : isWordLetter c = false := by
  rw [isWordLetter, isAlpha_of_isDigit h, Bool.false_and, Bool.false_and]

theorem isDecimalChar_of_isDigit {c : Char} (h : isDigit c = true) : IsDecimalChar c :=
  ⟨isBlank_of_isDigit h, isWordLetter_of_isDigit h⟩

namespace Number

theorem afterHexMark?_of_isDecimalChar {chars : List Char} (h : ∀ c ∈ chars, IsDecimalChar c) :
    afterHexMark? chars = none := by
  unfold afterHexMark?
  split
  · exact absurd (h 'x' (by simp)).2 (by decide)
  · exact absurd (h 'X' (by simp)).2 (by decide)
  · rfl

theorem toLower_ne_n {c : Char} (h : isWordLetter c = false) : c.toLower ≠ 'n' := by
  intro heq
  unfold Char.toLower at heq
  split at heq
  · next hupper =>
    have hval := congrArg (fun c : Char => c.val.toNat) heq
    simp only [ge_iff_le, UInt32.le_iff_toNat_le] at hupper hval
    obtain rfl : c = 'N' := by
      refine Char.ext (UInt32.toNat_inj.1 ?_)
      simp at hupper hval ⊢
      omega
    exact absurd h (by decide)
  · rw [heq] at h
    exact absurd h (by decide)

theorem subset_of_splitSign (chars : List Char) : (DecimalText.splitSign chars).2 ⊆ chars := by
  unfold DecimalText.splitSign
  split
  · exact List.subset_cons_self _ _
  · exact List.subset_cons_self _ _
  · exact List.Subset.refl _

/-- Every word for a number has an `n`. -/
theorem ofWord?_eq_none {chars : List Char} (h : ∀ c ∈ chars, isWordLetter c = false) : ofWord? chars = none := by
  have hword : ∀ word : List Char, 'n' ∈ word → (DecimalText.splitSign chars).2.map Char.toLower ≠ word := by
    rintro word hn rfl
    obtain ⟨c, hc, heq⟩ := List.mem_map.1 hn
    exact toLower_ne_n (h c (subset_of_splitSign chars hc)) heq
  rw [ofWord?]
  dsimp only
  rw [if_neg (not_or.2 ⟨hword _ (by decide), hword _ (by decide)⟩), if_neg (hword _ (by decide))]

theorem ofLiteral?_eq_ofDecimal? {chars : List Char} (h : ∀ c ∈ chars, isWordLetter c = false) :
    ofLiteral? chars = ofDecimal? chars := by
  rw [ofLiteral?, ofWord?_eq_none h]
  cases ofDecimal? chars <;> rfl

theorem ofText?_eq_ofDecimal? {text : String} (h : ∀ c ∈ text.toList, IsDecimalChar c) :
    ofText? text = ofDecimal? text.toList := by
  have hword : ∀ word : String, 'I' ∈ word.toList → text.toList ≠ word.toList := fun word hI heq =>
    absurd (h 'I' (heq ▸ hI)).2 (by decide)
  have hscreen : text.toList.any isWordLetter = false := List.any_eq_false.2 fun c hc => by simp [(h c hc).2]
  rw [ofText?, trimChars_of_not_blank fun c hc => (h c hc).1]
  simp only [afterHexMark?_of_isDecimalChar h, hscreen, ofLiteral?_eq_ofDecimal? fun c hc => (h c hc).2]
  rw [if_neg (not_or.2 ⟨hword _ (by decide), hword _ (by decide)⟩), if_neg (hword _ (by decide)),
    if_neg Bool.false_ne_true]
  cases text.toList with
  | nil => rfl
  | cons c chars => rfl

@[simp] theorem isNaN_infinity (negative : Bool) : (infinity negative).isNaN = false := rfl

@[simp] theorem isNaN_ofNat (n : Nat) : (ofNat n).isNaN = false := by rw [ofNat, isNaN_ofRatio]

@[simp] theorem isNaN_ofInt (i : Int) : (ofInt i).isNaN = false := by rw [ofInt, isNaN_ofRatio]

theorem isNaN_value (text : DecimalText) : text.value.isNaN = false := by
  simp only [DecimalText.value, zero]
  split_ifs <;> simp

/-- No text denotes not-a-number. -/
theorem isNaN_of_ofText? {text : String} {n : Number} (h : ofText? text = some n) : n.isNaN = false := by
  have hdecimal {chars : List Char} (h : ofDecimal? chars = some n) : n.isNaN = false := by
    obtain ⟨decimal, -, rfl⟩ := Option.map_eq_some_iff.1 h
    exact isNaN_value decimal
  have hword {digits : List Char} (h : (word64? digits).map ofNat = some n) : n.isNaN = false := by
    obtain ⟨word, -, rfl⟩ := Option.map_eq_some_iff.1 h
    exact isNaN_ofNat word
  simp only [ofText?] at h
  split_ifs at h with _ _ _ hscreen
  · obtain rfl := Option.some.inj h
    rfl
  · obtain rfl := Option.some.inj h
    rfl
  · split at h
    · exact hword h
    · exact nomatch h
  · split at h
    · exact hword h
    · rw [ofLiteral?_eq_ofDecimal? (by simpa using hscreen)] at h
      exact hdecimal h

/-- A text that denotes a number is not blank. -/
theorem not_blank_of_ofText? {text : String} {n : Number} (h : ofText? text = some n) :
    isBlankText text = false := by
  cases hblank : isBlankText text with
  | false => rfl
  | true =>
    rw [ofText?, trimChars_of_blank (List.all_eq_true.1 hblank)] at h
    exact nomatch h

theorem neg_ofRatio (num den : Nat) : (ofRatio false num den).neg = ofRatio true num den := by
  simp only [ofRatio]
  split <;> rfl

end Number

namespace DecimalText

theorem value_negative (whole fraction : List Char) (exponent : Int) :
    value ⟨true, whole, fraction, exponent⟩ = (value ⟨false, whole, fraction, exponent⟩).neg := by
  simp only [value, Number.zero, ← Number.neg_ofRatio]
  split_ifs <;> rfl

theorem ofChars?_minus {c : Char} (h : isDigit c = true) (rest : List Char) :
    ofChars? ('-' :: c :: rest) = (ofChars? (c :: rest)).map fun text => { text with negative := true } := by
  have hminus : splitSign ('-' :: c :: rest) = (true, c :: rest) := rfl
  simp only [ofChars?, hminus, splitSign_of_isDigit h]
  split
  · rfl
  · rw [Option.map_map]
    rfl

end DecimalText

namespace Decimal

theorem mem_positional {d : Decimal} {c : Char} (h : c ∈ d.positional) : isDigit c = true ∨ c = '.' := by
  obtain ⟨whole, fraction, -, hshape, hdigits, -⟩ := d.exists_positional_eq
  rcases hshape with heq | ⟨heq, -⟩
  · rw [heq, List.mem_append, List.mem_cons] at h
    rcases h with h | rfl | h
    · exact .inl (hdigits c (List.mem_append_left _ h))
    · exact .inr rfl
    · exact .inl (hdigits c (List.mem_append_right _ h))
  · exact .inl (hdigits c (List.mem_append_left _ (heq ▸ h)))

theorem isDecimalChar_of_mem_positional {d : Decimal} {c : Char} (h : c ∈ d.positional) : IsDecimalChar c := by
  rcases mem_positional h with hdigit | rfl
  · exact isDecimalChar_of_isDigit hdigit
  · decide

theorem exists_positional_of_digit (d : Decimal) :
    ∃ c rest, d.positional = c :: rest ∧ isDigit c = true := by
  obtain ⟨whole, fraction, hne, hshape, hdigits, -⟩ := d.exists_positional_eq
  obtain ⟨c, rest, rfl⟩ := List.exists_cons_of_ne_nil hne
  have hc := hdigits c (List.mem_append_left _ List.mem_cons_self)
  rcases hshape with heq | ⟨heq, -⟩
  · exact ⟨c, rest ++ '.' :: fraction, heq, hc⟩
  · exact ⟨c, rest, heq, hc⟩

end Decimal

namespace Number

theorem ofDecimal?_minus_positional (m : Magnitude) :
    ofDecimal? ('-' :: m.shortest.positional) = some (.finite true m) := by
  obtain ⟨whole, fraction, hread, -⟩ := m.shortest.ofChars?_positional
  obtain ⟨c, rest, hchars, hc⟩ := m.shortest.exists_positional_of_digit
  have hvalue := ofDecimal?_positional m
  rw [ofDecimal?, hread, Option.map_some] at hvalue
  rw [ofDecimal?, hchars, DecimalText.ofChars?_minus hc, ← hchars, hread, Option.map_some, Option.map_some,
    DecimalText.value_negative, Option.some.inj hvalue]
  rfl

theorem toList_format_positive (m : Magnitude) :
    ((finite false m).format Value.numberStyle).toList = m.shortest.positional := by
  simp [format, formatMagnitude, Value.numberStyle]

theorem toList_format_negative {m : Magnitude} (h : m.steps ≠ 0) :
    ((finite true m).format Value.numberStyle).toList = '-' :: m.shortest.positional := by
  simp [format, formatMagnitude, Value.numberStyle, h]

/-- **Round trip.** The text of a number denotes it. -/
theorem ofText?_format {n : Number} (hnan : n ≠ .nan) (hzero : n ≠ .zero true) :
    ofText? (n.format Value.numberStyle) = some n := by
  cases n with
  | nan => exact absurd rfl hnan
  | infinity negative => cases negative <;> rfl
  | finite negative m =>
    have hplain : ∀ c ∈ m.shortest.positional, IsDecimalChar c := fun c =>
      Decimal.isDecimalChar_of_mem_positional
    cases negative with
    | false =>
      have hchars := toList_format_positive m
      rw [ofText?_eq_ofDecimal? (hchars ▸ hplain), hchars, ofDecimal?_positional]
    | true =>
      have hchars := toList_format_negative fun h => hzero (Magnitude.zero_eq true h).symm
      have hminus : ∀ c ∈ '-' :: m.shortest.positional, IsDecimalChar c := by
        rintro c hc
        rcases List.mem_cons.1 hc with rfl | hc
        · decide
        · exact hplain c hc
      rw [ofText?_eq_ofDecimal? (hchars ▸ hminus), hchars, ofDecimal?_minus_positional]

end Number

end Formulary
