import Formulary.Number.Reading
import Formulary.Text.Blank
import Formulary.Text.Numeric
import Mathlib.Data.List.TakeWhile

/-!
# Classes of characters

Digits, letters and blanks exclude each other. A text in which nothing is blank has no blanks at its ends.
-/

namespace Formulary

theorem isDigit_bounds {c : Char} (h : isDigit c = true) : 48 ≤ c.toNat ∧ c.toNat ≤ 57 := by
  simp only [isDigit, Bool.and_eq_true, decide_eq_true_eq, Char.le_def,
    UInt32.le_iff_toNat_le] at h
  exact h

theorem isBlank_of_lt {c : Char} (h : 32 < c.toNat) (h' : c.toNat < 133) : isBlank c = false := by
  simp only [isBlank, inRanges, blankRanges, List.any_cons, List.any_nil]
  simp
  omega

theorem isAlpha_of_isDigit {c : Char} (h : isDigit c = true) : c.isAlpha = false := by
  obtain ⟨hlow, hhigh⟩ := isDigit_bounds h
  have hc : c.toNat = c.val.toNat := rfl
  have hA : 'A'.val.toNat = 65 := rfl
  have ha : 'a'.val.toNat = 97 := rfl
  delta Char.isAlpha Char.isUpper Char.isLower
  simp only [Bool.or_eq_false_iff, Bool.and_eq_false_iff, decide_eq_false_iff_not, ge_iff_le,
    UInt32.le_iff_toNat_le]
  omega

theorem isAlphabetic_of_isDigit {c : Char} (h : isDigit c = true) : isAlphabetic c = false := by
  obtain ⟨hlow, hhigh⟩ := isDigit_bounds h
  rw [isAlphabetic, isAlpha_of_isDigit h, decide_eq_false (by omega)]
  rfl

theorem isBlank_of_isDigit {c : Char} (h : isDigit c = true) : isBlank c = false := by
  obtain ⟨hlow, hhigh⟩ := isDigit_bounds h
  exact isBlank_of_lt (by omega) (by omega)

/-- What holds of the characters in the blank ranges holds of every blank. -/
theorem of_isBlank {p : Char → Bool}
    (hall : ∀ range ∈ blankRanges, ∀ k < range.2 - range.1 + 1, p (Char.ofNat (range.1 + k)) = false)
    {c : Char} (h : isBlank c = true) : p c = false := by
  obtain ⟨range, hrange, hc⟩ := List.any_eq_true.1 h
  simp only [Bool.and_eq_true, decide_eq_true_eq] at hc
  have := hall range hrange (c.toNat - range.1) (by omega)
  rwa [Nat.add_sub_cancel' hc.1, Char.ofNat_toNat] at this

theorem isAlphabetic_of_isBlank {c : Char} (h : isBlank c = true) : isAlphabetic c = false :=
  of_isBlank (by decide +kernel) h

theorem trimChars_of_not_blank {chars : List Char} (h : ∀ c ∈ chars, isBlank c = false) :
    trimChars chars = chars := by
  have hdrop : ∀ {chars : List Char}, (∀ c ∈ chars, isBlank c = false) → chars.dropWhile isBlank = chars := by
    rintro (_ | ⟨c, chars⟩) h
    · rfl
    · exact List.dropWhile_cons_of_neg (by simp [h c List.mem_cons_self])
  rw [trimChars, hdrop h, hdrop fun c hc => h c (List.mem_reverse.1 hc), List.reverse_reverse]

theorem trimChars_of_blank {chars : List Char} (h : ∀ c ∈ chars, isBlank c = true) : trimChars chars = [] := by
  rw [trimChars, List.dropWhile_eq_nil_iff.2 h]
  rfl

theorem isAlphanumeric_of_isBlank {c : Char} (h : isBlank c = true) : isAlphanumeric c = false :=
  of_isBlank (by decide +kernel) h

end Formulary
