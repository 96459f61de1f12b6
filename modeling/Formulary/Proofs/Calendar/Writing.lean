import Formulary.Proofs.Calendar.Date

/-!
# Written dates

No two dates have the same text, whatever their years (`Date.toText_inj`). The year is told by its sign and its
digits, which end at a dash, and all that follows are digits up to a mark as well.
-/

namespace Formulary

namespace Date

/-- A number with zeros in front is told by its digits up to a mark. -/
theorem paddedDigits_mark_inj {width n n' : Nat} {mark : Char} (hmark : isDigit mark = false)
    {rest rest' : List Char} (h : paddedDigits width n ++ mark :: rest = paddedDigits width n' ++ mark :: rest') :
    n = n' ∧ rest = rest' := by
  obtain ⟨hdigits, hrest⟩ := Token.append_mark_inj (fun _ => isDigit_of_mem_paddedDigits)
    (fun _ => isDigit_of_mem_paddedDigits) hmark hmark h
  have hvalue := ofDigitChars_paddedDigits width n
  rw [hdigits, ofDigitChars_paddedDigits] at hvalue
  exact ⟨hvalue.symm, (List.cons.inj hrest).2⟩

/-- A year is written as a sign, if it has one, and its digits. -/
def yearSign (year : Int) : List Char := if year < 0 then ['-'] else if 9999 < year then ['+'] else []

theorem yearChars_eq (year : Int) : yearChars year = yearSign year ++ paddedDigits 4 year.natAbs := by
  rw [yearChars, yearSign]
  split_ifs <;> rfl

theorem yearSign_eq_minus_iff {year : Int} : yearSign year = ['-'] ↔ year < 0 := by
  unfold yearSign
  split_ifs with hneg hlarge
  · exact iff_of_true rfl hneg
  · exact iff_of_false (by decide) hneg
  · exact iff_of_false (by decide) hneg

theorem not_isDigit_of_mem_yearSign {year : Int} {c : Char} (h : c ∈ yearSign year) : isDigit c = false := by
  unfold yearSign at h
  split_ifs at h
  · exact List.mem_singleton.1 h ▸ by decide
  · exact List.mem_singleton.1 h ▸ by decide
  · exact absurd h List.not_mem_nil

theorem exists_paddedDigits_cons (width n : Nat) :
    ∃ c rest, paddedDigits width n = c :: rest ∧ isDigit c = true := by
  have hne : paddedDigits width n ≠ [] := List.append_ne_nil_of_right_ne_nil _ Nat.toDigits_ne_nil
  obtain ⟨c, rest, heq⟩ := List.exists_cons_of_ne_nil hne
  exact ⟨c, rest, heq, isDigit_of_mem_paddedDigits (heq ▸ List.mem_cons_self)⟩

/-- A year is told by its text up to a dash: first the sign up to a digit, then the digits up to the dash. -/
theorem yearChars_dash_inj {year year' : Int} {rest rest' : List Char}
    (h : yearChars year ++ '-' :: rest = yearChars year' ++ '-' :: rest') : year = year' ∧ rest = rest' := by
  obtain ⟨c, tail, hc, hdigit⟩ := exists_paddedDigits_cons 4 year.natAbs
  obtain ⟨c', tail', hc', hdigit'⟩ := exists_paddedDigits_cons 4 year'.natAbs
  rw [yearChars_eq, yearChars_eq, List.append_assoc, List.append_assoc] at h
  rw [hc, hc', List.cons_append, List.cons_append] at h
  have hmark {year : Int} : ∀ c ∈ yearSign year, (!isDigit c) = true := fun c hc => by
    rw [not_isDigit_of_mem_yearSign hc]
    rfl
  obtain ⟨hsign, hdigits⟩ := Token.append_mark_inj (p := fun c => !isDigit c) hmark hmark
    (by rw [hdigit]; rfl) (by rw [hdigit']; rfl) h
  rw [← List.cons_append, ← List.cons_append, ← hc, ← hc'] at hdigits
  obtain ⟨habs, hrest⟩ := paddedDigits_mark_inj (by decide) hdigits
  have hneg : year < 0 ↔ year' < 0 := by rw [← yearSign_eq_minus_iff, hsign, yearSign_eq_minus_iff]
  exact ⟨by omega, hrest⟩

theorem Fields.eq_of_parts {f g : Fields} (hyear : f.day.year = g.day.year) (hmonth : f.day.month = g.day.month)
    (hday : f.day.day = g.day.day) (hhour : f.hour = g.hour) (hminute : f.minute = g.minute)
    (hsecond : f.second = g.second) (hmilli : f.milli = g.milli) : f = g := by
  obtain ⟨⟨year, month, day⟩, hour, minute, second, milli⟩ := f
  obtain ⟨⟨year', month', day'⟩, hour', minute', second', milli'⟩ := g
  dsimp only at hyear hmonth hday hhour hminute hsecond hmilli
  rw [hyear, hmonth, hday, hhour, hminute, hsecond, hmilli]

/-- **Dates.** Dates with the same text are the same. -/
theorem toText_inj {d e : Date} (h : d.toText = e.toText) : d = e := by
  have hchars := String.ofList_injective h
  simp only [List.append_assoc, List.cons_append] at hchars
  have hdash : isDigit '-' = false := by decide
  have hcolon : isDigit ':' = false := by decide
  obtain ⟨hyear, hchars⟩ := yearChars_dash_inj hchars
  obtain ⟨hmonth, hchars⟩ := paddedDigits_mark_inj hdash hchars
  obtain ⟨hday, hchars⟩ := paddedDigits_mark_inj (by decide) hchars
  obtain ⟨hhour, hchars⟩ := paddedDigits_mark_inj hcolon hchars
  obtain ⟨hminute, hchars⟩ := paddedDigits_mark_inj hcolon hchars
  obtain ⟨hsecond, hchars⟩ := paddedDigits_mark_inj (by decide) hchars
  obtain ⟨hmilli, -⟩ := paddedDigits_mark_inj (by decide) hchars
  have hfields := Fields.eq_of_parts hyear hmonth hday hhour hminute hsecond hmilli
  have hread := ofFields?_toFields d
  rw [hfields, ofFields?_toFields] at hread
  exact (Option.some.inj hread).symm

end Date

end Formulary
