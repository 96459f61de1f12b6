import Formulary.Function.Builtin
import Formulary.Proofs.Number.Sum

/-!
# Reductions

The sum, the mean, the least and the greatest of some arguments see their readings only, and the first marker
among them (`reductions_see_readings`).

1. Two loops go over the arguments, one that collects the readings and one that keeps the best of them. Without a
   marker both see the list of all readings, and with one both end in the first (`readings_eq`, `extreme_eq`).
2. The best of some numbers, taken two at a time, is one of them and as good as every other (`IsBest`), whatever
   order "better" is taken from (`Chooses`). Not-a-number is never the better one.
-/

namespace Formulary

/-! ## Readings -/

namespace Value

/-- The kinds of arguments that reductions pass over: no data, truth values, dates, and texts that spell no
number. -/
inductive PassedOver : Value → Prop where
  | empty : PassedOver empty
  | boolean (b : Bool) : PassedOver (boolean b)
  | date (d : Date) : PassedOver (date d)
  | text {s : String} (h : Number.ofText? s = none) : PassedOver (text s)

theorem passedOver_iff {v : Value} : v.PassedOver ↔ v.marker? = none ∧ v.reading? = none := by
  constructor
  · rintro (_ | _ | _ | h)
    · exact ⟨rfl, rfl⟩
    · exact ⟨rfl, rfl⟩
    · exact ⟨rfl, rfl⟩
    · exact ⟨rfl, h⟩
  · rintro ⟨hmarker, hreading⟩
    cases v with
    | empty => exact .empty
    | boolean b => exact .boolean b
    | number n => exact nomatch hreading
    | text s => exact .text hreading
    | date d => exact .date d
    | error marker => exact nomatch hmarker

theorem marker?_eq_some {v : Value} {marker : ErrorMarker} (h : v.marker? = some marker) : v = error marker := by
  cases v with
  | error _ => exact congrArg error (Option.some.inj h)
  | empty | boolean | number | text | date => exact nomatch h

end Value

namespace Builtin

/-- The two loops, if no marker is among the arguments before the rest. -/
theorem readings_cons {arg : Value} (h : arg.marker? = none) (rest : List Value) :
    readings (arg :: rest) = (readings rest).map (arg.reading?.toList ++ ·) := by
  cases arg with
  | error marker => exact nomatch h
  | empty | boolean | number | text | date => rfl

theorem extreme_cons (better : Number → Number → Number) (best : Option Number) {arg : Value}
    (h : arg.marker? = none) (rest : List Value) : extreme better best (arg :: rest) =
      extreme better ((arg.reading?.map fun n => best.elim n (better · n)) <|> best) rest := by
  cases arg with
  | error marker => exact nomatch h
  | empty | boolean | number | text | date => rfl

/-- What the arguments are to a reduction: the first marker or all readings. -/
def seen (args : List Value) : Except ErrorMarker (List Number) :=
  match args.findSome? Value.marker? with
  | some marker => .error marker
  | none => .ok (args.filterMap Value.reading?)

theorem seen_cons {arg : Value} (h : arg.marker? = none) (rest : List Value) :
    seen (arg :: rest) = (seen rest).map (arg.reading?.toList ++ ·) := by
  have hreadings : (arg :: rest).filterMap Value.reading? =
      arg.reading?.toList ++ rest.filterMap Value.reading? := by
    cases hr : arg.reading? with
    | none => rw [List.filterMap_cons_none hr]; rfl
    | some n => rw [List.filterMap_cons_some hr]; rfl
  rw [seen, seen, List.findSome?_cons, h, hreadings]
  cases rest.findSome? Value.marker? <;> rfl

theorem readings_eq (args : List Value) : readings args = seen args := by
  induction args with
  | nil => rfl
  | cons arg rest ih =>
    cases h : arg.marker? with
    | none => rw [readings_cons h, seen_cons h, ih]
    | some marker =>
      obtain rfl := Value.marker?_eq_some h
      rfl

/-- The best of some numbers and of one from before, if there was one. -/
def bestOf (better : Number → Number → Number) (best : Option Number) (numbers : List Number) : Option Number :=
  numbers.foldl (fun best n => some (best.elim n (better · n))) best

theorem extreme_eq (better : Number → Number → Number) (best : Option Number) (args : List Value) :
    extreme better best args = match seen args with
      | .error marker => .error marker
      | .ok numbers => (bestOf better best numbers).elim .empty .number := by
  induction args generalizing best with
  | nil => rfl
  | cons arg rest ih =>
    cases h : arg.marker? with
    | some marker =>
      obtain rfl := Value.marker?_eq_some h
      rfl
    | none =>
      rw [extreme_cons better best h, seen_cons h, ih]
      cases seen rest with
      | error marker => rfl
      | ok numbers => cases arg.reading? <;> rfl

/-! ## What reductions see -/

/-- The functions that reduce the readings of their arguments. -/
def reductions : List (List Value → Value) := [sum, mean, min, max]

/-- A reduction is a function of what its arguments are to it. -/
theorem exists_reduction {f : List Value → Value} (hf : f ∈ reductions) : ∃ reduce : List Number → Value,
    ∀ args, f args = match seen args with
      | .error marker => .error marker
      | .ok numbers => reduce numbers := by
  have hreduced (reduce : List Number → Value) (args : List Value) : reduced reduce args =
      match seen args with
        | .error marker => .error marker
        | .ok numbers => reduce numbers := by
    rw [reduced, readings_eq]
    cases seen args <;> rfl
  simp only [reductions, List.mem_cons, List.not_mem_nil, or_false] at hf
  rcases hf with rfl | rfl | rfl | rfl
  · exact ⟨_, hreduced _⟩
  · exact ⟨_, hreduced _⟩
  · exact ⟨_, extreme_eq Number.min none⟩
  · exact ⟨_, extreme_eq Number.max none⟩

theorem reduction_congr {f : List Value → Value} (hf : f ∈ reductions) {args args' : List Value}
    (h : seen args = seen args') : f args = f args' := by
  obtain ⟨reduce, hreduce⟩ := exists_reduction hf
  rw [hreduce, hreduce, h]

theorem seen_of_marker {before : List Value} (h : ∀ v ∈ before, v.isError = false) (marker : ErrorMarker)
    (after : List Value) : seen (before ++ .error marker :: after) = .error marker := by
  have hnone : before.findSome? Value.marker? = none := by
    rw [List.findSome?_eq_none_iff]
    exact fun v hv => Option.isNone_iff_eq_none.1 (by simpa [Value.isError] using h v hv)
  rw [seen, List.findSome?_append, hnone]
  rfl

theorem seen_of_passedOver {v : Value} (h : v.PassedOver) (before after : List Value) :
    seen (before ++ v :: after) = seen (before ++ after) := by
  obtain ⟨hmarker, hreading⟩ := Value.passedOver_iff.1 h
  simp only [seen, List.findSome?_append, List.findSome?_cons, List.filterMap_append, hmarker,
    List.filterMap_cons_none hreading]

theorem seen_of_no_marker {args : List Value} (h : ∀ v ∈ args, v.isError = false) :
    seen args = .ok (args.filterMap Value.reading?) := by
  have hnone : args.findSome? Value.marker? = none := by
    rw [List.findSome?_eq_none_iff]
    exact fun v hv => Option.isNone_iff_eq_none.1 (by simpa [Value.isError] using h v hv)
  rw [seen, hnone]

/-- The arguments with a reading alone have the same readings. -/
theorem filterMap_filter_reading (args : List Value) :
    (args.filter (·.reading?.isSome)).filterMap Value.reading? = args.filterMap Value.reading? := by
  rw [List.filterMap_filter]
  congr 1
  funext v
  cases v.reading? <;> rfl

/-! ## The best of some numbers -/

/-- The better one of two is one of them, is as good as either of them that is a number, and is not-a-number
only if both are. -/
structure Chooses (better : Number → Number → Number) (atLeast : Number → Number → Prop) : Prop where
  choice (x y : Number) : better x y = x ∨ better x y = y
  first {x y : Number} (hx : x.isNaN = false) : atLeast (better x y) x
  second {x y : Number} (hy : y.isNaN = false) : atLeast (better x y) y
  isNaN {x y : Number} (h : (better x y).isNaN = true) : x.isNaN = true ∧ y.isNaN = true
  trans {x y z : Number} (hxy : atLeast x y) (hyz : atLeast y z) : atLeast x z

/-- The number is one of them and as good as every other one. -/
structure IsBest (atLeast : Number → Number → Prop) (numbers : List Number) (best : Number) : Prop where
  mem : best ∈ numbers
  atLeast {n : Number} (hn : n ∈ numbers) (hnumber : n.isNaN = false) : atLeast best n
  isNaN (h : best.isNaN = true) {n : Number} (hn : n ∈ numbers) : n.isNaN = true

theorem lessOrEqual_iff {x y : Number} :
    x.lessOrEqual y = true ↔ x.isNaN = false ∧ y.isNaN = false ∧ x.rank ≤ y.rank := by
  simp [Number.lessOrEqual, and_assoc]

/-- A number that is not at most another is at least it, if both are numbers. -/
theorem lessOrEqual_of_not {x y : Number} (hx : x.isNaN = false) (hy : y.isNaN = false)
    (h : ¬ x.lessOrEqual y = true) : y.lessOrEqual x = true := by
  rw [lessOrEqual_iff] at h ⊢
  refine ⟨hy, hx, ?_⟩
  by_contra hlt
  exact h ⟨hx, hy, by omega⟩

theorem lessOrEqual_self {x : Number} (hx : x.isNaN = false) : x.lessOrEqual x = true :=
  lessOrEqual_iff.2 ⟨hx, hx, Int.le_refl _⟩

theorem lessOrEqual_trans {x y z : Number} (hxy : x.lessOrEqual y = true) (hyz : y.lessOrEqual z = true) :
    x.lessOrEqual z = true := by
  rw [lessOrEqual_iff] at hxy hyz ⊢
  exact ⟨hxy.1, hyz.2.1, hxy.2.2.trans hyz.2.2⟩

/-- A choice that drops the first of two if it is not-a-number or no better than the second. -/
theorem chooses_of_drops {better : Number → Number → Number} {atLeast : Number → Number → Bool}
    (hbetter : ∀ x y, better x y = if x.isNaN || atLeast y x then y else x)
    (hnumber : ∀ x y, atLeast x y = true → x.isNaN = false)
    (hself : ∀ x, x.isNaN = false → atLeast x x = true)
    (htotal : ∀ x y, x.isNaN = false → y.isNaN = false → ¬ atLeast x y = true → atLeast y x = true)
    (htrans : ∀ x y z, atLeast x y = true → atLeast y z = true → atLeast x z = true) :
    Chooses better fun x y => atLeast x y = true where
  choice x y := by
    rw [hbetter]
    split
    · exact .inr rfl
    · exact .inl rfl
  first {x y} hx := by
    rw [hbetter, hx, Bool.false_or]
    split
    · next h => exact h
    · exact hself x hx
  second {x y} hy := by
    rw [hbetter]
    split
    · exact hself y hy
    · next h =>
      rw [Bool.or_eq_true, not_or, Bool.not_eq_true] at h
      exact htotal y x hy h.1 h.2
  isNaN {x y} h := by
    rw [hbetter] at h
    split at h
    · next hdrop =>
      rcases Bool.or_eq_true _ _ ▸ hdrop with hx | hle
      · exact ⟨hx, h⟩
      · exact absurd h (by rw [hnumber y x hle]; decide)
    · next hkeep => exact absurd (Bool.or_eq_true _ _ ▸ .inl h) hkeep
  trans {x y z} := htrans x y z

theorem chooses_min : Chooses Number.min fun x y => x.lessOrEqual y = true :=
  chooses_of_drops (fun _ _ => rfl) (fun _ _ h => (lessOrEqual_iff.1 h).1) (fun _ => lessOrEqual_self)
    (fun _ _ => lessOrEqual_of_not) fun _ _ _ => lessOrEqual_trans

theorem chooses_max : Chooses Number.max fun x y => y.lessOrEqual x = true :=
  @chooses_of_drops Number.max (fun x y => y.lessOrEqual x) (fun _ _ => rfl)
    (fun _ _ h => (lessOrEqual_iff.1 h).2.1) (fun _ => lessOrEqual_self)
    (fun _ _ hx hy => lessOrEqual_of_not hy hx) fun _ _ _ hxy hyz => lessOrEqual_trans hyz hxy

section Best

variable {better : Number → Number → Number} {atLeast : Number → Number → Prop} (h : Chooses better atLeast)

include h

/-- One more number. -/
theorem isBest_concat {numbers : List Number} {best : Number} (hbest : IsBest atLeast numbers best) (n : Number) :
    IsBest atLeast (numbers ++ [n]) (better best n) where
  mem := by
    rcases h.choice best n with heq | heq
    · rw [heq]
      exact List.mem_append_left _ hbest.mem
    · rw [heq]
      exact List.mem_append_right _ List.mem_cons_self
  atLeast {k} hk hnumber := by
    rcases List.mem_append.1 hk with hk | hk
    · cases hnan : best.isNaN with
      | false => exact h.trans (h.first hnan) (hbest.atLeast hk hnumber)
      | true => exact absurd (hbest.isNaN hnan hk) (by rw [hnumber]; decide)
    · obtain rfl := List.mem_singleton.1 hk
      exact h.second hnumber
  isNaN hnan {k} hk := by
    obtain ⟨hfirst, hsecond⟩ := h.isNaN hnan
    rcases List.mem_append.1 hk with hk | hk
    · exact hbest.isNaN hfirst hk
    · exact List.mem_singleton.1 hk ▸ hsecond

theorem exists_bestOf_some {before : List Number} {best : Number} (hbest : IsBest atLeast before best)
    (numbers : List Number) :
    ∃ n, bestOf better (some best) numbers = some n ∧ IsBest atLeast (before ++ numbers) n := by
  induction numbers generalizing before best with
  | nil => exact ⟨best, rfl, by rwa [List.append_nil]⟩
  | cons k numbers ih =>
    obtain ⟨n, hn, hbest'⟩ := ih (isBest_concat h hbest k)
    exact ⟨n, hn, by rwa [List.append_assoc] at hbest'⟩

theorem isBest_singleton (n : Number) : IsBest atLeast [n] n where
  mem := List.mem_cons_self
  atLeast {k} hk hnumber := by
    obtain rfl := List.mem_singleton.1 hk
    have hself : better k k = k := (h.choice k k).elim id id
    simpa only [hself] using h.first (y := k) hnumber
  isNaN hnan _ hk := List.mem_singleton.1 hk ▸ hnan

theorem exists_bestOf {numbers : List Number} (hne : numbers ≠ []) :
    ∃ n, bestOf better none numbers = some n ∧ IsBest atLeast numbers n := by
  obtain ⟨first, rest, rfl⟩ := List.exists_cons_of_ne_nil hne
  exact exists_bestOf_some h (isBest_singleton h first) rest

theorem exists_extreme_eq {args : List Value} (hargs : ∀ v ∈ args, v.isError = false)
    (hne : args.filterMap Value.reading? ≠ []) :
    ∃ n, extreme better none args = .number n ∧ IsBest atLeast (args.filterMap Value.reading?) n := by
  obtain ⟨n, hn, hbest⟩ := exists_bestOf h hne
  refine ⟨n, ?_, hbest⟩
  rw [extreme_eq, seen_of_no_marker hargs]
  exact congrArg (Option.elim · Value.empty Value.number) hn

end Best

/-! ## The reductions -/

/-- A number of readings is no zero to divide by. -/
theorem isZero_ofNat {n : Nat} (hn : n ≠ 0) : (Number.ofNat n).isZero = false := by
  have hpos : 0 < n * stepsPerOne := Nat.mul_pos (Nat.pos_of_ne_zero hn) stepsPerOne_pos
  have hround : 1 ≤ roundCount (n * stepsPerOne) 1 := two_pow_le_roundCount (k := 0) hpos
  rw [Number.ofNat, Number.ofRatio]
  split
  · exact beq_eq_false_iff_ne.2 (Nat.ne_of_gt hround)
  · rfl

theorem mean_eq {args : List Value} (hargs : ∀ v ∈ args, v.isError = false)
    (hne : args.filterMap Value.reading? ≠ []) :
    mean args = .number ((Number.sum (args.filterMap Value.reading?)).div
      (.ofNat (args.filterMap Value.reading?).length)) := by
  rw [mean, reduced, readings_eq, seen_of_no_marker hargs]
  exact if_neg (by simpa using hne)

/-- Without readings there is nothing to reduce, except to a sum. -/
theorem eq_empty_of_no_readings {f : List Value → Value} (hf : f ∈ [mean, min, max]) {args : List Value}
    (hargs : ∀ v ∈ args, v.isError = false) (hnone : args.filterMap Value.reading? = []) : f args = .empty := by
  have hseen : seen args = seen [] := by
    rw [seen_of_no_marker hargs, hnone]
    rfl
  rw [reduction_congr (List.mem_cons_of_mem _ hf) hseen]
  simp only [List.mem_cons, List.not_mem_nil, or_false] at hf
  rcases hf with rfl | rfl | rfl
  all_goals rfl

theorem filter_reading_eq_nil {args : List Value} :
    args.filter (·.reading?.isSome) = [] ↔ args.filterMap Value.reading? = [] := by
  rw [List.filter_eq_nil_iff, List.filterMap_eq_nil_iff]
  exact forall₂_congr fun v _ => by simp

/-- **Reductions.** A marker that none stands before is the result. Arguments of the kinds that are passed over
change nothing, wherever they stand. Without a marker a reduction is that of the arguments with a reading. The
mean, the least and the greatest are no data if and only if there are none of these; else the mean is a quotient
by their number, which is not zero, and the least and the greatest are one of the readings and as good as all
others, of which not-a-number is none unless there is nothing else. -/
theorem reductions_see_readings (args : List Value) :
    (∀ f ∈ reductions, ∀ before marker after, args = before ++ .error marker :: after →
      (∀ v ∈ before, v.isError = false) → f args = .error marker) ∧
    (∀ f ∈ reductions, ∀ before v after, args = before ++ v :: after → v.PassedOver →
      f args = f (before ++ after)) ∧
    ((∀ v ∈ args, v.isError = false) →
      let readable := args.filter (·.reading?.isSome)
      let numbers := args.filterMap Value.reading?
      (∀ f ∈ reductions, f args = f readable) ∧
      (∀ f ∈ [mean, min, max], f args = .empty ↔ readable = []) ∧
      (readable ≠ [] →
        mean args = .number ((Number.sum numbers).div (.ofNat numbers.length)) ∧
        (Number.ofNat numbers.length).isZero = false ∧
        (∃ n, min args = .number n ∧ IsBest (fun x y => x.lessOrEqual y = true) numbers n) ∧
        ∃ n, max args = .number n ∧ IsBest (fun x y => y.lessOrEqual x = true) numbers n)) := by
  refine ⟨fun f hf before marker after heq hbefore => ?_, fun f hf before v after heq hv => ?_,
    fun hargs => ⟨fun f hf => ?_, fun f hf => ⟨fun hempty => ?_, fun hnone => ?_⟩, fun hne => ?_⟩⟩
  · obtain ⟨reduce, hreduce⟩ := exists_reduction hf
    rw [heq, hreduce, seen_of_marker hbefore]
  · rw [heq, reduction_congr hf (seen_of_passedOver hv before after)]
  · refine reduction_congr hf ?_
    rw [seen_of_no_marker hargs, seen_of_no_marker fun v hv => hargs v (List.mem_filter.1 hv).1,
      filterMap_filter_reading]
  · by_contra hne
    rw [filter_reading_eq_nil] at hne
    obtain ⟨n, hmin, -⟩ := exists_extreme_eq chooses_min hargs hne
    obtain ⟨k, hmax, -⟩ := exists_extreme_eq chooses_max hargs hne
    have hmean := mean_eq hargs hne
    simp only [List.mem_cons, List.not_mem_nil, or_false] at hf
    rcases hf with rfl | rfl | rfl
    · exact nomatch hmean.symm.trans hempty
    · exact nomatch hmin.symm.trans hempty
    · exact nomatch hmax.symm.trans hempty
  · exact eq_empty_of_no_readings hf hargs (filter_reading_eq_nil.1 hnone)
  · rw [ne_eq, filter_reading_eq_nil] at hne
    exact ⟨mean_eq hargs hne, isZero_ofNat (mt List.length_eq_zero_iff.1 hne),
      exists_extreme_eq chooses_min hargs hne, exists_extreme_eq chooses_max hargs hne⟩

/-- A text that spells no number, a truth value, and not-a-number among the readings. -/
example : Builtin.min [.text "x", .number .nan, .boolean true, .text "7", .number (.ofNat 8)] =
    .number (.ofNat 7) := by decide +kernel

end Builtin

end Formulary
