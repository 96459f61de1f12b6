import Formulary.Proofs.Script.Grammar
import Formulary.Proofs.Script.Spelling

/-!
# Fragments of code and their derivations

`Spelled phrase code meaning nesting`: the code spells the tokens of a derivation of the phrase, which
means `meaning` and nests at most so deep. There is one lemma for each way in which code is put together
from smaller code, so the code of a tree is spelled by induction on the tree.
-/

namespace Formulary

namespace Script

/-- The code spells a derivation; it may stand after an exclamation mark. -/
def Spelled (phrase : Phrase) (code : String) (meaning : phrase.Meaning) (nesting : Nat) : Prop :=
  (∃ d : Derivation phrase, Lexes code.toList d.yield ∧ d.meaning = meaning ∧ d.nesting ≤ nesting) ∧
    code.toList.head? ≠ some '='

/-- **Loading.** Code that spells an expression and does not nest too deep is read as what it means. -/
theorem Spelled.ofCode {code : String} {script : Script} {nesting : Nat}
    (h : Spelled .expression code script nesting) (hnesting : nesting ≤ maxNesting) :
    Script.ofCode code = .ok script := by
  obtain ⟨⟨d, hlexes, rfl, hd⟩, -⟩ := h
  obtain ⟨tokens, hcut, htokens⟩ := hlexes.spells.cutFrom 0
  have hread := ofLexemes_derivation (hd.trans hnesting) htokens
  have hcode : (lexemes code).bind (ofLexemes maxNesting) = .ok d.meaning := by
    rw [lexemes, hcut]
    exact hread
  rw [Script.ofCode, hcode]

/-! ## Indices -/

/-- The numbers that denote aggregate indices are the natural ones, cut off at 64 bits. -/
theorem index?_eq_some_iff {n : Number} {value : Nat} : index? n = some value ↔
    ∃ negative m k, n = .finite negative m ∧ m.steps = k * stepsPerOne ∧ (negative = true → k = 0) ∧
      value = min k (2 ^ 64 - 1) := by
  constructor
  · intro h
    unfold index? at h
    split at h
    · next i hi =>
      split at h
      · next hcond =>
        obtain ⟨hwhole, hpositive⟩ := hcond
        cases n with
        | nan | infinity => cases hi
        | finite negative m =>
          obtain ⟨k, hk⟩ := Number.trunc_equals_iff.1 hwhole
          rw [Nat.mul_comm] at hk
          have hzero : negative = true → k = 0 := by
            intro hnegative
            have hsteps := Number.zero_lessOrEqual_iff.1 hpositive hnegative
            rw [hk, Nat.mul_eq_zero] at hsteps
            exact hsteps.resolve_right stepsPerOne_pos.ne'
          rw [Number.toInt?_of_steps hk hzero] at hi
          obtain rfl := Option.some.inj hi
          exact ⟨negative, m, k, rfl, hk, hzero, (Option.some.inj h).symm⟩
      · cases h
    · cases h
  · rintro ⟨negative, m, k, rfl, hk, hzero, rfl⟩
    have hwhole : (Number.finite negative m).trunc.equals (.finite negative m) = true :=
      Number.trunc_equals_iff.2 (hk ▸ Nat.dvd_mul_left stepsPerOne k)
    have hpositive : (Number.zero false).lessOrEqual (.finite negative m) = true :=
      Number.zero_lessOrEqual_iff.2 fun h => by rw [hk, hzero h, Nat.zero_mul]
    unfold index?
    rw [Number.toInt?_of_steps hk hzero]
    exact if_pos ⟨hwhole, hpositive⟩

namespace Spelled

variable {code code' code'' : String} {script script' script'' : Script} {n k k' k'' : Nat}

theorem mono {phrase : Phrase} {meaning : phrase.Meaning} (h : Spelled phrase code meaning k)
    (hle : k ≤ n) : Spelled phrase code meaning n := by
  obtain ⟨⟨d, hlexes, hmeaning, hd⟩, hhead⟩ := h
  exact ⟨⟨d, hlexes, hmeaning, hd.trans hle⟩, hhead⟩

/-! ## Levels -/

theorem tighter (h : Spelled (.level n) code script k) : Spelled (.level (n + 1)) code script k := by
  obtain ⟨⟨d, hlexes, hmeaning, hd⟩, hhead⟩ := h
  exact ⟨⟨.tighter n d, hlexes, hmeaning, hd⟩, hhead⟩

theorem level {n' : Nat} (h : Spelled (.level n) code script k) (hle : n ≤ n') :
    Spelled (.level n') code script k := by
  induction hle with
  | refl => exact h
  | step hle ih => exact ih.tighter

theorem tight (h : Spelled .primary code script k) : Spelled (.level 0) code script k := by
  obtain ⟨⟨d, hlexes, hmeaning, hd⟩, hhead⟩ := h
  exact ⟨⟨.tight d, hlexes, hmeaning, hd⟩, hhead⟩

theorem plain (h : Spelled (.level 3) code script k) : Spelled .expression code script (k + 1) := by
  obtain ⟨⟨d, hlexes, hmeaning, hd⟩, hhead⟩ := h
  exact ⟨⟨.plain d, hlexes, hmeaning, by rw [Derivation.nesting]; omega⟩, hhead⟩

theorem not (h : Spelled (.level 0) code script k) :
    Spelled (.level 0) ("!" ++ code) (.unary .not script) (k + 1) := by
  obtain ⟨⟨d, hlexes, rfl, hd⟩, hhead⟩ := h
  have hcode : ("!" ++ code).toList = '!' :: code.toList := by simp
  refine ⟨⟨.not d, ?_, rfl, by rw [Derivation.nesting]; omega⟩, by rw [hcode]; simp⟩
  rw [hcode]
  exact hlexes.bang hhead

theorem binary {op : BinaryOperator} {token : Token} (htoken : infixToken? op = some token)
    (hop : operator? n token = some op) (hleft : Spelled (.level (n + 1)) code script k)
    (hright : Spelled (.level n) code' script' k') :
    Spelled (.level (n + 1)) (code ++ " " ++ op.symbol ++ " " ++ code') (.binary op script script')
      (max k k') := by
  obtain ⟨⟨d, hlexes, rfl, hd⟩, hhead⟩ := hleft
  obtain ⟨⟨d', hlexes', rfl, hd'⟩, -⟩ := hright
  have hcode : (code ++ " " ++ op.symbol ++ " " ++ code').toList =
      code.toList ++ ' ' :: (op.symbol.toList ++ ' ' :: code'.toList) := by simp
  refine ⟨⟨.binary n token op hop d d', ?_, rfl, by rw [Derivation.nesting]; omega⟩, ?_⟩
  · rw [hcode]
    exact hlexes.append (hlexes'.symbol htoken).blank fun _ _ => rfl
  · rw [hcode]
    cases hchars : code.toList with
    | nil => simp
    | cons c chars => rwa [hchars] at hhead

/-! ## Expressions in parentheses -/

theorem parenthesized (h : Spelled .expression code script k) :
    Spelled .primary ("(" ++ code ++ ")") script k := by
  obtain ⟨⟨d, hlexes, rfl, hd⟩, -⟩ := h
  have hcode : ("(" ++ code ++ ")").toList = '(' :: (code.toList ++ [')']) := by simp
  refine ⟨⟨.parenthesized d, ?_, rfl, hd⟩, by rw [hcode]; simp⟩
  rw [hcode]
  exact (hlexes.append Lexes.nil.close fun _ _ => rfl).open

theorem conditional (hcondition : Spelled (.level 3) code script k)
    (htrue : Spelled .expression code' script' k') (hfalse : Spelled .expression code'' script'' k'') :
    Spelled .primary ("(" ++ code ++ " ? " ++ code' ++ " : " ++ code'' ++ ")")
      (.conditional script script' script'') (1 + max k (max k' k'')) := by
  obtain ⟨⟨d, hlexes, rfl, hd⟩, -⟩ := hcondition
  obtain ⟨⟨d', hlexes', rfl, hd'⟩, -⟩ := htrue
  obtain ⟨⟨d'', hlexes'', rfl, hd''⟩, -⟩ := hfalse
  have hcode : ("(" ++ code ++ " ? " ++ code' ++ " : " ++ code'' ++ ")").toList =
      '(' :: ((code.toList ++ ' ' :: '?' :: ' ' :: (code'.toList ++ ' ' :: ':' :: ' ' ::
        code''.toList)) ++ [')']) := by simp
  refine ⟨⟨.parenthesized (.conditional d d' d''), ?_, rfl, ?_⟩, by rw [hcode]; simp⟩
  · rw [hcode]
    have hfalse' := hlexes''.blank.colon.blank
    have htrue' := (hlexes'.append hfalse' fun _ _ => rfl).blank.question.blank
    exact ((hlexes.append htrue' fun _ _ => rfl).append Lexes.nil.close fun _ _ => rfl).open
  · rw [Derivation.nesting, Derivation.nesting]
    omega

/-! ## Literals -/

theorem word {name : String} {value : Value} (hword : isWord name.toList = true)
    (hname : Reader.constant? name = some value) : Spelled .primary name (.literal value) 0 := by
  refine ⟨⟨.constant name value hname, ?_, rfl, Nat.le_refl 0⟩, ?_⟩
  · have h := Lexes.nil.word hword fun _ h => h
    rwa [List.append_nil] at h
  · intro h
    cases hchars : name.toList with
    | nil => rw [hchars] at h; exact nomatch h
    | cons c chars =>
      rw [hchars] at h hword
      obtain rfl := Option.some.inj h
      exact nomatch hword

theorem text (s : String) : Spelled .primary (textCode s) (.literal (.text s)) 0 := by
  refine ⟨⟨.text s, ?_, rfl, Nat.le_refl 0⟩, by simp [textCode]⟩
  have h := Lexes.nil.text s
  rwa [List.append_nil] at h

theorem magnitude (negative : Bool) (m : Magnitude) :
    Spelled .primary (numberCode (.finite negative m)) (.literal (.number (.finite negative m))) 0 := by
  have h := Lexes.nil.magnitude m fun _ h => h
  rw [List.append_nil] at h
  cases negative with
  | false =>
    have hcode : (numberCode (.finite false m)).toList = m.shortest.positional := by
      simp [numberCode, Number.format, Number.formatMagnitude, numberStyle]
    refine ⟨⟨.number (.finite false m), hcode ▸ h, rfl, Nat.le_refl 0⟩, ?_⟩
    obtain ⟨c, further, hchars, hc, -⟩ := exists_positional_cons m.shortest
    rw [hcode, hchars]
    rintro h
    obtain rfl := Option.some.inj h
    exact nomatch hc
  | true =>
    have hcode : (numberCode (.finite true m)).toList = '-' :: m.shortest.positional := by
      simp [numberCode, Number.format, Number.formatMagnitude, numberStyle]
    exact ⟨⟨.negative (.finite false m), hcode ▸ h.minus, rfl, Nat.le_refl 0⟩, by rw [hcode]; simp⟩

/-- A number is read back, whatever its sign, and also if it is not finite. -/
theorem number (n : Number) : Spelled .primary (numberCode n) (.literal (.number n)) 0 := by
  cases n with
  | nan => exact word (by decide) rfl
  | infinity negative =>
    cases negative with
    | false => exact word (by decide) rfl
    | true =>
      refine ⟨⟨.negativeInfinity, ?_, rfl, Nat.le_refl 0⟩, by decide⟩
      have h : Lexes ("Infinity".toList ++ []) [.word "Infinity"] :=
        Lexes.nil.word (by decide) fun _ h => h
      exact h.minus
  | finite negative m => exact magnitude negative m

/-! ## Calls -/

/-- The head of a call is a word, which does not start with an equals sign. -/
theorem head?_ne_of_isWord {name : String} (hword : isWord name.toList = true) (chars : List Char) :
    (name.toList ++ chars).head? ≠ some '=' := by
  cases hchars : name.toList with
  | nil => rw [hchars] at hword; exact nomatch hword
  | cons c rest =>
    rw [hchars] at hword
    rintro h
    obtain rfl := Option.some.inj h
    exact nomatch hword

theorem noArguments : Spelled .arguments "" [] 0 :=
  ⟨⟨.none, Lexes.nil, rfl, Nat.le_refl 0⟩, by decide⟩

theorem argument {scripts : List Script} (h : Spelled .arguments code scripts k)
    (hlast : Spelled .expression code' script' k') :
    Spelled .arguments (code ++ (", " ++ code')) (scripts ++ [script']) (max k k') := by
  obtain ⟨⟨d, hlexes, rfl, hd⟩, hhead⟩ := h
  obtain ⟨⟨d', hlexes', rfl, hd'⟩, -⟩ := hlast
  have hcode : (code ++ (", " ++ code')).toList = code.toList ++ ',' :: ' ' :: code'.toList := by simp
  refine ⟨⟨.argument d d', ?_, rfl, by rw [Derivation.nesting]; omega⟩, ?_⟩
  · rw [hcode]
    exact hlexes.append hlexes'.blank.comma fun _ _ => rfl
  · rw [hcode]
    cases hchars : code.toList with
    | nil => simp
    | cons c chars => rwa [hchars] at hhead

/-- Arguments after those before them. -/
theorem arguments {α : Type} {args : List α} {codeOf : α → String} {scriptOf : α → Script}
    (hargs : ∀ arg ∈ args, Spelled .expression (codeOf arg) (scriptOf arg) k)
    {scripts : List Script} (h : Spelled .arguments code scripts k) :
    Spelled .arguments (code ++ commaParts (args.map codeOf)) (scripts ++ args.map scriptOf) k := by
  induction args generalizing code scripts with
  | nil =>
    have hcode : code ++ commaParts ([].map codeOf) = code := by simp [commaParts]
    rw [hcode, List.map_nil, List.append_nil]
    exact h
  | cons arg args ih =>
    have hcode : code ++ commaParts ((arg :: args).map codeOf) =
        code ++ (", " ++ codeOf arg) ++ commaParts (args.map codeOf) := by
      simp [commaParts, String.append_assoc]
    have hlast := h.argument (hargs arg List.mem_cons_self)
    rw [Nat.max_self] at hlast
    have hrest := ih (fun arg' harg => hargs arg' (List.mem_cons_of_mem _ harg)) hlast
    rw [hcode]
    rwa [List.append_assoc] at hrest

theorem call (name : String) {scripts : List Script} (h : Spelled .arguments code scripts k) :
    Spelled .primary ("call(" ++ textCode name ++ code ++ ")") (.call name scripts) k := by
  obtain ⟨⟨d, hlexes, rfl, hd⟩, -⟩ := h
  have hcode : ("call(" ++ textCode name ++ code ++ ")").toList =
      "call".toList ++ '(' :: ((textCode name).toList ++ (code.toList ++ [')'])) := by simp
  refine ⟨⟨.call name d, ?_, rfl, hd⟩, by rw [hcode]; exact head?_ne_of_isWord (by decide) _⟩
  rw [hcode]
  have hargs := hlexes.append Lexes.nil.close fun _ _ => rfl
  exact (hargs.text name).open.word (by decide) fun _ _ => rfl

/-- The aggregate index that the code of `i` is read as. -/
def readIndex (i : Nat) : Nat := (index? (.ofNat i)).getD 0

theorem index?_ofNat {i : Nat} (h : i < 2 ^ 64) : index? (.ofNat i) = some (readIndex i) := by
  obtain ⟨m, hm, k, hk⟩ := Number.exists_ofNat_whole h
  have hsteps : m.steps = k * stepsPerOne := hk.trans (Nat.mul_comm _ _)
  have hindex := index?_eq_some_iff.2
    ⟨false, m, k, hm, hsteps, fun h => absurd h Bool.false_ne_true, rfl⟩
  rw [readIndex, hindex, Option.getD_some]

/-- Indices of 53 bits are read as they are written. -/
theorem readIndex_eq {i : Nat} (h : i < 2 ^ 53) : readIndex i = i := by
  obtain ⟨m, hm, hsteps⟩ := Number.exists_ofNat_exact h
  have hindex := index?_eq_some_iff.2
    ⟨false, m, i, hm, hsteps, fun h => absurd h Bool.false_ne_true, rfl⟩
  rw [readIndex, hindex, Option.getD_some]
  omega

theorem map_readIndex {indices : List Nat} (h : ∀ i ∈ indices, i < 2 ^ 53) :
    indices.map readIndex = indices := by
  rw [List.map_congr_left fun i hi => readIndex_eq (h i hi), List.map_id']

theorem exists_indices {indices : List Nat} (hindices : ∀ i ∈ indices, i < 2 ^ 64) :
    ∃ values : List Index, values.map Index.number = indices.map Number.ofNat ∧
      values.map Index.value = indices.map readIndex := by
  induction indices with
  | nil => exact ⟨[], rfl, rfl⟩
  | cons i indices ih =>
    obtain ⟨values, hnumbers, hvalues⟩ := ih fun j hj => hindices j (List.mem_cons_of_mem _ hj)
    refine ⟨⟨.ofNat i, readIndex i, index?_ofNat (hindices i List.mem_cons_self)⟩ :: values, ?_, ?_⟩
    · rw [List.map_cons, hnumbers, List.map_cons]
    · rw [List.map_cons, hvalues, List.map_cons]

theorem lexes_indices (indices : List Nat) :
    Lexes ((commaParts (indices.map toString)).toList ++ [')'])
      ((indices.map Number.ofNat).flatMap (fun n => [.comma, .number n]) ++ [.close]) := by
  induction indices with
  | nil => exact Lexes.nil.close
  | cons i indices ih =>
    have hcode : (commaParts ((i :: indices).map toString)).toList ++ [')'] =
        ',' :: ' ' :: ((toString i).toList ++ ((commaParts (indices.map toString)).toList ++ [')'])) := by
      simp [commaParts]
    rw [hcode]
    -- an index is followed by a comma or by the parenthesis, at which its digits end
    refine (ih.nat i fun rest hrest => ?_).blank.comma
    cases indices with
    | nil => rfl
    | cons j indices => simp [commaParts, Ends, isSeparator]

theorem «variable» (name : String) {indices : List Nat} (hindices : ∀ i ∈ indices, i < 2 ^ 64) :
    Spelled .primary (variableCode name indices) (.variable name (indices.map readIndex)) 0 := by
  obtain ⟨values, hnumbers, hvalues⟩ := exists_indices hindices
  have hcode : (variableCode name indices).toList = "var".toList ++ '(' ::
      ((textCode name).toList ++ ((commaParts (indices.map toString)).toList ++ [')'])) := by
    simp [variableCode]
  refine ⟨⟨.variable name values, ?_, by rw [Derivation.meaning, hvalues], Nat.le_refl 0⟩,
    by rw [hcode]; exact head?_ne_of_isWord (by decide) _⟩
  have hlexes := lexes_indices indices
  rw [← hnumbers, List.flatMap_map] at hlexes
  rw [hcode, Derivation.yield]
  exact (hlexes.text name).open.word (by decide) fun _ _ => rfl

theorem operation {name : String} {op : BinaryOperator} (hword : isWord name.toList = true)
    (hname : Reader.operation? name = some op) (hleft : Spelled .expression code script k)
    (hright : Spelled .expression code' script' k') :
    Spelled .primary (name ++ "(" ++ code ++ ", " ++ code' ++ ")") (.binary op script script')
      (max k k') := by
  obtain ⟨⟨d, hlexes, rfl, hd⟩, -⟩ := hleft
  obtain ⟨⟨d', hlexes', rfl, hd'⟩, -⟩ := hright
  have hcode : (name ++ "(" ++ code ++ ", " ++ code' ++ ")").toList =
      name.toList ++ '(' :: (code.toList ++ ',' :: ' ' :: (code'.toList ++ [')'])) := by simp
  refine ⟨⟨.operation name op hname d d', ?_, rfl, by rw [Derivation.nesting]; omega⟩,
    by rw [hcode]; exact head?_ne_of_isWord hword _⟩
  rw [hcode]
  have hright' := (hlexes'.append Lexes.nil.close fun _ _ => rfl).blank.comma
  exact (hlexes.append hright' fun _ _ => rfl).open.word hword fun _ _ => rfl

theorem conversion {name : String} {op : UnaryOperator} (hword : isWord name.toList = true)
    (hname : Reader.conversion? name = some op) (h : Spelled .expression code script k) :
    Spelled .primary (name ++ "(" ++ code ++ ")") (.unary op script) k := by
  obtain ⟨⟨d, hlexes, rfl, hd⟩, -⟩ := h
  have hcode : (name ++ "(" ++ code ++ ")").toList =
      name.toList ++ '(' :: (code.toList ++ [')']) := by simp
  refine ⟨⟨.conversion name op hname d, ?_, rfl, hd⟩,
    by rw [hcode]; exact head?_ne_of_isWord hword _⟩
  rw [hcode]
  exact (hlexes.append Lexes.nil.close fun _ _ => rfl).open.word hword fun _ _ => rfl

theorem scale (symbol : String) (hleft : Spelled .expression code script k)
    (hright : Spelled .expression code' script' k') :
    Spelled .primary ("binary_operator(" ++ textCode symbol ++ ", " ++ code ++ ", " ++ code' ++ ")")
      (.scale symbol script script') (max k k') := by
  obtain ⟨⟨d, hlexes, rfl, hd⟩, -⟩ := hleft
  obtain ⟨⟨d', hlexes', rfl, hd'⟩, -⟩ := hright
  have hcode : ("binary_operator(" ++ textCode symbol ++ ", " ++ code ++ ", " ++ code' ++ ")").toList =
      "binary_operator".toList ++ '(' :: ((textCode symbol).toList ++ ',' :: ' ' ::
        (code.toList ++ ',' :: ' ' :: (code'.toList ++ [')']))) := by simp
  refine ⟨⟨.scale symbol d d', ?_, rfl, by rw [Derivation.nesting]; omega⟩,
    by rw [hcode]; exact head?_ne_of_isWord (by decide) _⟩
  rw [hcode]
  have hright' := (hlexes'.append Lexes.nil.close fun _ _ => rfl).blank.comma
  have hleft' := (hlexes.append hright' fun _ _ => rfl).blank.comma
  exact (hleft'.text symbol).open.word (by decide) fun _ _ => rfl

end Spelled

end Script

end Formulary
