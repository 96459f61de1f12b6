import Formulary.Proofs.Source.Viability

/-!
# Diagnoses point at what is wrong

The byte offset of an error is that of a place between two characters of the text. What was found is written
there, and the text before is the beginning of a text that the grammar accepts (`errors_point_at_faults`).

The tokens before the place are a viable prefix (`reported_of_ofText?`), so they go on with tokens to be
written. These are written behind blanks, since a blank ends every token but a quoted one, which ends where it
ends (`Cut.append`).
-/

namespace Formulary

namespace Token

/-! ## Tokens before a blank -/

/-- A character that starts a quoted text or name. -/
def isQuote (c : Char) : Bool := c == '"' || c == '\'' || c == nameQuote

theorem eq_of_isQuote {c : Char} (h : isQuote c = true) : (c = '"' ∨ c = '\'') ∨ c = nameQuote := by
  simpa [isQuote] using h

/-- Behind its first character, only a quoted token has a blank. -/
theorem Spelling.isQuote_of_blank {token : Token} {c x : Char} {further : List Char}
    (h : Spelling token (c :: further)) (hx : x ∈ further) (hblank : isBlank x = true) : isQuote c = true := by
  generalize hchars : c :: further = chars at h
  cases h with
  | mark h =>
    have hplain := mark_not_blank h x (hchars ▸ List.mem_cons_of_mem c hx)
    rw [hblank] at hplain
    exact nomatch hplain
  | number h =>
    have hplain := h.not_blank x (hchars ▸ List.mem_cons_of_mem c hx)
    rw [hblank] at hplain
    exact nomatch hplain
  | @text quote _ _ hquote _ =>
    obtain ⟨rfl, -⟩ := List.cons.inj hchars
    rcases hquote with rfl | rfl <;> rfl
  | word hc hword =>
    obtain ⟨rfl, rfl⟩ := List.cons.inj hchars
    have hname := hword x hx
    rw [isNameChar, isAlphanumeric_of_isBlank hblank, Bool.false_or, beq_iff_eq] at hname
    obtain rfl := hname
    exact absurd hblank (by decide)
  | quotedName =>
    obtain ⟨rfl, -⟩ := List.cons.inj hchars
    rfl

/-- A quoted token is scanned whatever stands behind it. -/
theorem Spelling.scan_quoted {token : Token} {c : Char} {further : List Char}
    (h : Spelling token (c :: further)) (hc : isQuote c = true) (tail : List Char) :
    scan c (further ++ tail) = .token token further.length := by
  generalize hchars : c :: further = chars at h
  cases h with
  | mark h =>
    have hmarks : (marks.all fun mark => mark.1.all fun c => !isQuote c) = true := by decide
    have hplain := List.all_eq_true.1 (List.all_eq_true.1 hmarks _ h) c (hchars ▸ List.mem_cons_self)
    rw [hc] at hplain
    exact nomatch hplain
  | number h =>
    obtain ⟨x, rest, hstart, hx⟩ := h.starts []
    rw [← hchars, List.append_nil] at hstart
    obtain ⟨rfl, -⟩ := List.cons.inj hstart
    rcases eq_of_isQuote hc with (rfl | rfl) | rfl <;>
      exact absurd hx (not_or.2 ⟨by decide, fun h => absurd h.1 (by decide)⟩)
  | text hquote h =>
    obtain ⟨rfl, rfl⟩ := List.cons.inj hchars
    exact h.scan hquote tail
  | word hword =>
    obtain ⟨rfl, -⟩ := List.cons.inj hchars
    rcases eq_of_isQuote hc with (rfl | rfl) | rfl <;> exact absurd hword (by decide)
  | quotedName h =>
    obtain ⟨rfl, rfl⟩ := List.cons.inj hchars
    exact scan_closedName h tail

/-! ## Lexical faults -/

theorem StartsNumeral.numberChars_ne_nil {text : List Char} (h : StartsNumeral text) : numberChars text ≠ [] := by
  obtain ⟨whole, point, rest, rfl, hparts⟩ := exists_parts text
  rw [hparts.numberChars_eq]
  rw [Ne, List.append_eq_nil_iff, List.append_eq_nil_iff]
  rintro ⟨rfl, rfl, -⟩
  exact (hparts.has_digit h).elim (· rfl) (· rfl)

/-- The character that starts no token is found, or a number that breaks off. -/
theorem scan_fault {c : Char} {rest : List Char} {fault : ParseFault} (h : scan c rest = .fault fault) :
    ∃ found expected, fault = .unexpectedToken found expected ∧ found ≠ "" ∧ found.toList <+: c :: rest := by
  have hsingle : ∀ expected, fault = .unexpectedToken (String.ofList [c]) expected →
      ∃ found expected, fault = .unexpectedToken found expected ∧ found ≠ "" ∧ found.toList <+: c :: rest := by
    rintro expected rfl
    exact ⟨String.ofList [c], expected, rfl, by simp, by simp⟩
  unfold scan at h
  split at h
  case h_25 =>
    split at h
    · exact hsingle _ (Scan.fault.inj h).symm
    split at h
    · split at h <;> cases h
    split at h
    · rw [scanQuotedName] at h
      split at h <;> cases h
    split at h
    · next hstart =>
      rw [scanNumber] at h
      split at h
      · cases h
      · have hstarts : StartsNumeral (c :: rest) := ⟨c, rest, rfl, hstart⟩
        refine ⟨_, _, (Scan.fault.inj h).symm, fun hempty => hstarts.numberChars_ne_nil ?_, ?_⟩
        · exact String.ofList_eq_empty_iff.1 hempty
        · rw [String.toList_ofList]
          exact numberChars_isPrefix _
    split at h
    · cases h
    · exact hsingle _ (Scan.fault.inj h).symm
  all_goals cases h

end Token

namespace Lexemes

open Token

/-- A token stays the longest at its place where a blank follows what stands behind it. -/
theorem longest_append {token : Token} {chars rest tail : List Char} (h : Spelling token chars)
    (hlongest : ∀ longer token', longer <+: chars ++ rest → Spelling token' longer →
      longer.length ≤ chars.length) (hblank : ∀ c ∈ tail.head?, isBlank c = true) :
    ∀ longer token', longer <+: chars ++ (rest ++ tail) → Spelling token' longer →
      longer.length ≤ chars.length := by
  intro longer token' hfront hlonger
  obtain ⟨c, further, rfl, -⟩ := h.scan_self
  rcases List.prefix_or_prefix_of_prefix (List.append_assoc _ rest tail ▸ hfront)
    (List.prefix_append ((c :: further) ++ rest) tail) with hshort | ⟨beyond, rfl⟩
  · exact hlongest longer token' hshort hlonger
  · cases beyond with
    | nil => exact hlongest _ token' (by simp) hlonger
    | cons x beyond =>
      -- the longer token goes on into the tail, so it takes the blank
      have hbeyond := hfront
      rw [List.append_assoc, List.prefix_append_right_inj, List.prefix_append_right_inj] at hbeyond
      obtain ⟨beyond', rfl⟩ := hbeyond
      have hquote : isQuote c = true := hlonger.isQuote_of_blank (by simp) (hblank x rfl)
      exact length_le_of_scan (h.scan_quoted hquote _) hfront hlonger

theorem Cut.append {text tail : List Char} {tokens more : List Token} (h : Cut text tokens)
    (hblank : ∀ c ∈ tail.head?, isBlank c = true) (htail : Cut tail more) :
    Cut (text ++ tail) (tokens ++ more) := by
  induction h with
  | nil => exact htail
  | blank hblank' hrest ih => exact .blank hblank' ih
  | token hspelling hlongest hrest ih =>
    rw [List.append_assoc]
    exact .token hspelling (longest_append hspelling hlongest hblank) ih

/-- Tokens that can be written can be written behind a blank each. -/
theorem exists_cut {tokens : List Token} (h : ∀ token ∈ tokens, token.Writable) :
    ∃ text, (∀ c ∈ text.head?, isBlank c = true) ∧ Cut text tokens := by
  induction tokens with
  | nil => exact ⟨[], nofun, .nil⟩
  | cons token tokens ih =>
    obtain ⟨text, hblank, hcut⟩ := ih fun token htoken => h token (List.mem_cons_of_mem _ htoken)
    have hspace : isBlank ' ' = true := by decide
    have hlayout : Layout [token] ([' '] ++ (token.written ++ [])) :=
      .cons (List.forall_mem_singleton.2 hspace) (.nil (by simp))
    have hwritable : ∀ token' ∈ [token], token'.Writable :=
      List.forall_mem_singleton.2 (h token List.mem_cons_self)
    refine ⟨[' '] ++ (token.written ++ []) ++ text, fun c hc => ?_, ?_⟩
    · obtain rfl : ' ' = c := Option.some.inj hc
      exact hspace
    · exact (hlayout.cut (.singleton token) hwritable).append hblank hcut

/-! ## Places in a text -/

/-- What is read at a place of a text: these lexemes, before this ending. -/
inductive Stands (place : Nat) (after : List Char) : List Lexeme → Ending → Prop where
  | token {lexeme : Lexeme} {rest : List Lexeme} {ending : Ending} (hoffset : lexeme.offset = place)
    (hne : lexeme.written ≠ "") (hwritten : lexeme.written.toList <+: after) :
    Stands place after (lexeme :: rest) ending
  | finish (hafter : after = []) : Stands place after [] (.finish place)
  | fault {found : String} (expected : Expected) (hne : found ≠ "") (hfound : found.toList <+: after) :
    Stands place after [] (.fault ⟨.unexpectedToken found expected, place⟩)
  | unclosed (expected : Expected) :
    Stands place after [] (.fault ⟨.unexpectedEnd expected, place + byteLength after⟩)

theorem byteLength_cons (c : Char) (chars : List Char) :
    byteLength (c :: chars) = c.utf8Size + byteLength chars := by
  rw [byteLength, byteLength, List.map_cons, List.sum_cons]

/-- Offsets count the bytes of a text. -/
theorem utf8ByteSize_ofList (chars : List Char) : (String.ofList chars).utf8ByteSize = byteLength chars := by
  induction chars with
  | nil => rfl
  | cons c chars ih =>
    have hsingle : (String.ofList [c]).utf8ByteSize = c.utf8Size := by
      rw [← String.size_toByteArray, String.toByteArray_ofList, List.utf8Encode_singleton,
        List.size_toByteArray, String.length_utf8EncodeChar]
    rw [← List.singleton_append, String.ofList_append, String.utf8ByteSize_append, hsingle, ih,
      List.singleton_append, byteLength_cons]

/-- After the front of its lexemes there is a place in the text, up to which it is cut into their tokens. -/
theorem exists_place {offset skip : Nat} {text : List Char} {front rest : List Lexeme}
    (hskip : skip ≤ text.length) (h : (cutFrom offset skip text).list = front ++ rest) :
    ∃ before after, text = before ++ after ∧ skip ≤ before.length ∧
      Cut (before.drop skip) (front.map Lexeme.token) ∧
      Stands (offset + byteLength before) after rest (cutFrom offset skip text).ending := by
  fun_induction cutFrom offset skip text generalizing front with
  | case1 offset skip =>
    obtain ⟨rfl, rfl⟩ := List.append_eq_nil_iff.1 h.symm
    exact ⟨[], [], rfl, hskip, by rw [List.drop_nil]; exact .nil, .finish rfl⟩
  | case2 offset skip c text ih =>
    obtain ⟨before, after, rfl, hle, hcut, hstands⟩ := ih (Nat.le_of_succ_le_succ hskip) h
    refine ⟨c :: before, after, rfl, Nat.succ_le_succ hle, hcut, ?_⟩
    rwa [byteLength_cons, ← Nat.add_assoc]
  | case3 offset c text hblank ih =>
    obtain ⟨before, after, rfl, -, hcut, hstands⟩ := ih (Nat.zero_le _) h
    refine ⟨c :: before, after, rfl, Nat.zero_le _, .blank hblank hcut, ?_⟩
    rwa [byteLength_cons, ← Nat.add_assoc]
  | case4 offset c text hblank token further hscan more =>
    rename_i ih
    obtain ⟨hle, hspelling⟩ := scan_sound hscan
    cases front with
    | nil =>
      obtain rfl := h
      have hwritten : (Lexeme.mk token offset (c :: text) (further + 1)).written.toList = c :: text.take further := by
        rw [Lexeme.written, String.toList_ofList, List.take_succ_cons]
      -- the first lexeme that is left is this one, so the place is before it
      refine ⟨[], c :: text, rfl, Nat.zero_le _, .nil, .token rfl (fun hempty => ?_) ?_⟩
      · rw [hempty] at hwritten
        cases hwritten
      · rw [hwritten]
        exact (List.prefix_cons_inj c).2 (List.take_prefix further text)
    | cons lexeme front =>
      obtain ⟨rfl, hmore⟩ := List.cons.inj h
      obtain ⟨before, after, rfl, hle, hcut, hstands⟩ := ih hle hmore
      refine ⟨c :: before, after, rfl, Nat.zero_le _, .scanned hscan hle hcut, ?_⟩
      rwa [byteLength_cons, ← Nat.add_assoc]
  | case5 offset c text hblank fault hscan =>
    obtain ⟨rfl, rfl⟩ := List.append_eq_nil_iff.1 h.symm
    obtain ⟨found, expected, rfl, hne, hfound⟩ := scan_fault hscan
    exact ⟨[], c :: text, rfl, Nat.zero_le _, .nil, .fault expected hne hfound⟩
  | case6 offset c text hblank quote hscan =>
    obtain ⟨rfl, rfl⟩ := List.append_eq_nil_iff.1 h.symm
    exact ⟨[], c :: text, rfl, Nat.zero_le _, .nil, .unclosed _⟩

end Lexemes

namespace Parser

/-! ## Diagnoses -/

/-- What an error says of a text is true of it. -/
inductive Diagnoses (source : String) : ParseError → Prop where
  | unexpectedEnd (expected : Expected) : Diagnoses source ⟨.unexpectedEnd expected, source.utf8ByteSize⟩
  /-- What was found is written at the offset, and the grammar accepts a text that goes on from before it. -/
  | unexpectedToken (before found after more : String) (expected : Expected)
    (hsource : source = before ++ found ++ after) (hfound : found ≠ "") (d : Derivation .conditional)
    (hcut : Lexemes.Cut (before ++ more).toList d.yield) :
    Diagnoses source ⟨.unexpectedToken found expected, before.utf8ByteSize⟩
  | tooDeep (before after : String) (hsource : source = before ++ after) :
    Diagnoses source ⟨.tooDeep, before.utf8ByteSize⟩

theorem not_arrived_fault (error : ParseError) : ¬ Arrived (.fault error) [] := by
  intro harrived
  obtain ⟨offset, hending⟩ := harrived rfl
  cases hending

/-- What is reported where these lexemes are left is true of the text around the place where they stand. -/
theorem diagnoses_of_place {source : String} {before after : List Char} {rest : List Lexeme} {ending : Ending}
    {error : ParseError} (hsource : source.toList = before ++ after)
    (hstands : Lexemes.Stands (Lexemes.byteLength before) after rest ending)
    (hviable : ∃ more, ∃ d : Derivation .conditional, Lexemes.Cut (before ++ more) d.yield)
    (h : Reported ending rest error) : Diagnoses source error := by
  have hsplit : source = String.ofList before ++ String.ofList after := by
    rw [← String.ofList_append, ← hsource, String.ofList_toList]
  have hfinish : source.utf8ByteSize = Lexemes.byteLength before + Lexemes.byteLength after := by
    rw [hsplit, String.utf8ByteSize_append, Lexemes.utf8ByteSize_ofList, Lexemes.utf8ByteSize_ofList]
  -- what stands before the place has a derivation that goes on otherwise
  have hfound : ∀ {found expected}, found ≠ "" → found.toList <+: after →
      Diagnoses source ⟨.unexpectedToken found expected, Lexemes.byteLength before⟩ := by
    rintro found expected hne ⟨after', rfl⟩
    obtain ⟨more, d, hcut⟩ := hviable
    rw [← Lexemes.utf8ByteSize_ofList]
    refine .unexpectedToken _ found (String.ofList after') (String.ofList more) expected ?_ hne d ?_
    · rw [hsplit, String.ofList_append, String.ofList_toList, String.append_assoc]
    · rwa [String.toList_append, String.toList_ofList, String.toList_ofList]
  have hdeep : Diagnoses source ⟨.tooDeep, Lexemes.byteLength before⟩ := by
    rw [← Lexemes.utf8ByteSize_ofList]
    exact .tooDeep _ _ hsplit
  cases hstands with
  | token hoffset hne hwritten =>
    cases h with
    | token => exact hoffset ▸ hfound hne hwritten
    | tooDeep =>
      rw [offset, hoffset]
      exact hdeep
  | finish hafter =>
    obtain rfl := hafter
    cases h with
    | finish expected hending =>
      obtain rfl := Ending.finish.inj hending
      have hend : source.utf8ByteSize = Lexemes.byteLength before := hfinish
      exact hend ▸ .unexpectedEnd expected
    | fault hending => cases hending
    | tooDeep => exact hdeep
  | fault expected hne hfound' =>
    cases h with
    | finish _ hending => cases hending
    | fault hending => exact Ending.fault.inj hending ▸ hfound hne hfound'
    | tooDeep harrived => exact absurd harrived (not_arrived_fault _)
  | unclosed expected =>
    cases h with
    | finish _ hending => cases hending
    | fault hending => exact Ending.fault.inj hending ▸ hfinish ▸ .unexpectedEnd expected
    | tooDeep harrived => exact absurd harrived (not_arrived_fault _)

/-- **Diagnoses.** What the error of a text that is not read says is true of the text. -/
theorem errors_point_at_faults {source : String} {error : ParseError} (h : Expr.ofText? source = .error error) :
    Diagnoses source error := by
  rcases reported_of_ofText? h with rfl | ⟨front, rest, hlist, ⟨more, hwritable, d, hyield⟩, hreported⟩
  · exact .tooDeep "" source String.empty_append.symm
  · obtain ⟨before, after, htext, -, hcut, hstands⟩ := Lexemes.exists_place (Nat.zero_le _) hlist
    rw [Nat.zero_add] at hstands
    obtain ⟨text, hblank, hmore⟩ := Lexemes.exists_cut hwritable
    refine diagnoses_of_place htext hstands ⟨text, d, ?_⟩ hreported
    rw [hyield]
    exact hcut.append hblank hmore

/-- A single ampersand behind a text of four bytes. -/
theorem errors_point_at_faults_ampersand :
    Expr.ofText? "'é' & 1" = .error ⟨.unexpectedToken "&" (.doubled '&'), 5⟩ ∧
      Diagnoses "'é' & 1" ⟨.unexpectedToken "&" (.doubled '&'), 5⟩ := by
  have h : Expr.ofText? "'é' & 1" = .error ⟨.unexpectedToken "&" (.doubled '&'), 5⟩ := by rfl
  exact ⟨h, errors_point_at_faults h⟩

end Parser

end Formulary
