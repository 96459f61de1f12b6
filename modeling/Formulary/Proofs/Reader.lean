/-!
# Readers and what they read

The steps of readers that succeed or fail, the answers of readers that have less at their disposal (`Abates`), and
the parts of chains and lists: what parts yield behind separators is yielded by no other parts (`Parts.unique`) if
every part can be told from the others by its tokens.
-/

namespace Formulary

/-! ## Steps that succeed or fail -/

section Steps

variable {ε α β : Type}

theorem exists_of_bind_ok {x : Except ε α} {f : α → Except ε β} {b : β} (h : (x >>= f) = .ok b) :
    ∃ a, x = .ok a ∧ f a = .ok b := by
  cases x with
  | error error => exact nomatch h
  | ok a => exact ⟨a, rfl, h⟩

theorem eq_error_or_exists_of_bind_error {x : Except ε α} {f : α → Except ε β} {error : ε}
    (h : (x >>= f) = .error error) : x = .error error ∨ ∃ a, x = .ok a ∧ f a = .error error := by
  cases x with
  | error error' => exact .inl (congrArg Except.error (Except.error.inj h))
  | ok a => exact .inr ⟨a, rfl, h⟩

theorem exists_of_map_ok {x : Except ε α} {f : α → β} {b : β} (h : x.map f = .ok b) :
    ∃ a, x = .ok a ∧ f a = b := by
  cases x with
  | error error => exact nomatch h
  | ok a => exact ⟨a, rfl, Except.ok.inj h⟩

end Steps

/-! ## Answers that are given up -/

/-- The first answer is the second one, unless it is given up with an error of this kind. -/
def Abates {ε α : Type} (GivenUp : ε → Prop) (x y : Except ε α) : Prop :=
  x = y ∨ ∃ error, GivenUp error ∧ x = .error error

namespace Abates

variable {ε α β : Type} {GivenUp : ε → Prop} {x y z : Except ε α}

@[refl]
theorem refl (x : Except ε α) : Abates GivenUp x x := .inl rfl

theorem trans (h : Abates GivenUp x y) (h' : Abates GivenUp y z) : Abates GivenUp x z := by
  rcases h with rfl | h
  · exact h'
  · exact .inr h

theorem bind (h : Abates GivenUp x y) {f g : α → Except ε β} (hrest : ∀ a, Abates GivenUp (f a) (g a)) :
    Abates GivenUp (x >>= f) (y >>= g) := by
  rcases h with rfl | ⟨error, hgiven, rfl⟩
  · cases x with
    | ok a => exact hrest a
    | error error => exact .inl rfl
  · exact .inr ⟨error, hgiven, rfl⟩

theorem ite {p : Prop} [Decidable p] {x' y' : Except ε α} (h : Abates GivenUp x y)
    (h' : Abates GivenUp x' y') : Abates GivenUp (if p then x else x') (if p then y else y') := by
  split
  · exact h
  · exact h'

end Abates

/-! ## Parts behind separators -/

namespace Parts

variable {Token Part : Type} (yield : Part → List Token) (Ends : Option Token → Prop)

/-- The tokens of parts with their separators in front. -/
def separated (parts : List (Token × Part)) : List Token :=
  parts.flatMap fun part => part.1 :: yield part.2

/-- Any tokens that start with what the part yields, and end there, start with what no other part yields. -/
def Alone (part : Part) : Prop :=
  ∀ (part' : Part) (rest rest' : List Token), yield part ++ rest = yield part' ++ rest' →
    Ends rest.head? → Ends rest'.head? → part = part' ∧ rest = rest'

variable {yield Ends} {Separator : Token → Prop} (hends : ∀ token, Separator token → Ends (some token))

theorem separated_append (parts : List (Token × Part)) (part : Token × Part) :
    separated yield (parts ++ [part]) = separated yield parts ++ part.1 :: yield part.2 := by
  simp [separated]

include hends

theorem ends_separated {parts : List (Token × Part)} (hparts : ∀ part ∈ parts, Separator part.1)
    {rest : List Token} (hrest : Ends rest.head?) : Ends (separated yield parts ++ rest).head? := by
  cases parts with
  | nil => exact hrest
  | cons part parts => exact hends _ (hparts part List.mem_cons_self)

theorem unique {parts parts' : List (Token × Part)} (hparts : ∀ part ∈ parts, Separator part.1)
    (hparts' : ∀ part ∈ parts', Separator part.1) (halone : ∀ part ∈ parts, Alone yield Ends part.2)
    {rest rest' : List Token} (h : separated yield parts ++ rest = separated yield parts' ++ rest')
    (hrest : Ends rest.head?) (hrest' : Ends rest'.head?)
    (hstop : ∀ token ∈ rest.head?, ¬ Separator token)
    (hstop' : ∀ token ∈ rest'.head?, ¬ Separator token) : parts = parts' ∧ rest = rest' := by
  induction parts generalizing parts' with
  | nil =>
    cases parts' with
    | nil => exact ⟨rfl, h⟩
    | cons part parts' =>
      refine absurd (hparts' part List.mem_cons_self) (hstop _ ?_)
      rw [show rest = _ from h]
      rfl
  | cons part parts ih =>
    cases parts' with
    | nil =>
      refine absurd (hparts part List.mem_cons_self) (hstop' _ ?_)
      rw [show rest' = _ from h.symm]
      rfl
    | cons part' parts' =>
      obtain ⟨token, d⟩ := part
      obtain ⟨token', d'⟩ := part'
      simp only [separated, List.flatMap_cons, List.cons_append, List.append_assoc,
        List.cons.injEq] at h
      obtain ⟨rfl, h⟩ := h
      have hmore := fun part hpart => hparts part (List.mem_cons_of_mem _ hpart)
      have hmore' := fun part hpart => hparts' part (List.mem_cons_of_mem _ hpart)
      obtain ⟨rfl, htail⟩ := halone _ List.mem_cons_self d' _ _ h
        (ends_separated hends hmore hrest) (ends_separated hends hmore' hrest')
      obtain ⟨rfl, hsame⟩ :=
        ih hmore hmore' (fun part hpart => halone part (List.mem_cons_of_mem _ hpart)) htail
      exact ⟨rfl, hsame⟩

/-- The same for parts of which the first has no separator. -/
theorem unique_first {first first' : Part} {parts parts' : List (Token × Part)}
    (hparts : ∀ part ∈ parts, Separator part.1) (hparts' : ∀ part ∈ parts', Separator part.1)
    (hfirst : Alone yield Ends first) (halone : ∀ part ∈ parts, Alone yield Ends part.2)
    {rest rest' : List Token}
    (h : yield first ++ separated yield parts ++ rest = yield first' ++ separated yield parts' ++ rest')
    (hrest : Ends rest.head?) (hrest' : Ends rest'.head?)
    (hstop : ∀ token ∈ rest.head?, ¬ Separator token)
    (hstop' : ∀ token ∈ rest'.head?, ¬ Separator token) :
    (first, parts) = (first', parts') ∧ rest = rest' := by
  rw [List.append_assoc, List.append_assoc] at h
  obtain ⟨rfl, htail⟩ := hfirst _ _ _ h (ends_separated hends hparts hrest)
    (ends_separated hends hparts' hrest')
  obtain ⟨rfl, hsame⟩ := unique hends hparts hparts' halone htail hrest hrest' hstop hstop'
  exact ⟨rfl, hsame⟩

end Parts

end Formulary
