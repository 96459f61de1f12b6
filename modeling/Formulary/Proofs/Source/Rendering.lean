import Formulary.Proofs.Source.Nesting
import Formulary.Proofs.Source.Writing

/-!
# Rendering with the parentheses that are needed

`Expr.rendering` writes a tree with parentheses only around what binds more loosely than its place needs.
No writing of the tree nests less (`Written.rendering_le`). Every tree of known operators can be written so,
and each of its writings is read back as the tree within the limits (`writings_read_back`).

Parentheses, prefixes and branches nest, but not each makes the tree deeper: three levels of nesting may
stand for two levels of the tree, and not more (`two_mul_nesting_le`). So a rendering may nest too deep
although its tree is not too deep (`rendering_accepted_iff`).
-/

namespace Formulary

open Formulary.Parser

namespace Expr

/-- How tightly the root binds. -/
def strength : Expr → Nat
  | .binary symbol _ _ => ((BinaryOperator.ofSymbol? symbol).map BinaryOperator.strength).getD 10
  | .unary _ _ => 8
  | .conditional _ _ _ => 1
  | _ => 10

theorem strength_binary {symbol : String} {op : BinaryOperator}
    (hop : BinaryOperator.ofSymbol? symbol = some op) (left right : Expr) :
    (Expr.binary symbol left right).strength = op.strength := by
  rw [strength, hop]
  rfl

theorem one_le_strength (expr : Expr) : 1 ≤ expr.strength := by
  cases expr with
  | binary symbol left right =>
    cases hop : BinaryOperator.ofSymbol? symbol with
    | none => simp [strength, hop]
    | some op =>
      rw [strength_binary hop]
      cases op <;> decide
  | boolean | number | text | «variable» | call | unary | conditional => simp [strength]

end Expr

/-- A writing where the strength is needed: in parentheses if its tree binds more loosely. -/
def Writing.within (needed : Nat) (w : Writing) : Writing :=
  if needed ≤ w.expr.strength then w else ⟨w.expr, 1 + w.nesting, .open :: (w.tokens ++ [.close])⟩

namespace Expr

mutual

/-- The tree with the parentheses that are needed. A symbol that names no operator is not rendered. -/
def rendering : Expr → Writing
  | .boolean b => ⟨.boolean b, 0, [.boolean b]⟩
  | .number n => ⟨.number n, 0, [.number n]⟩
  | .text s => ⟨.text s, 0, [.text s]⟩
  | .variable name => ⟨.variable name, 0, [.name name]⟩
  | .call name args =>
    ⟨.call name args, Writing.argumentNesting (renderings args),
      .name name :: .open :: (Writing.argumentTokens (renderings args) ++ [.close])⟩
  | .unary symbol operand =>
    match UnaryOperator.ofSymbol? symbol with
    | some op =>
      let inner := operand.rendering.within 8
      ⟨.unary symbol operand, 1 + inner.nesting, prefixToken op :: inner.tokens⟩
    | none => ⟨.unary symbol operand, 0, []⟩
  | .binary symbol left right =>
    match BinaryOperator.ofSymbol? symbol with
    | some op =>
      let first := left.rendering.within op.leftStrength
      let second := right.rendering.within op.rightStrength
      ⟨.binary symbol left right, max first.nesting (op.rightNesting + second.nesting),
        first.tokens ++ .operator op :: second.tokens⟩
    | none => ⟨.binary symbol left right, 0, []⟩
  | .conditional condition whenTrue whenFalse =>
    let first := condition.rendering.within 2
    ⟨.conditional condition whenTrue whenFalse,
      max first.nesting (max (1 + whenTrue.rendering.nesting) (1 + whenFalse.rendering.nesting)),
      first.tokens ++ .question :: (whenTrue.rendering.tokens ++ .colon :: whenFalse.rendering.tokens)⟩

def renderings : List Expr → List Writing
  | [] => []
  | expr :: rest => expr.rendering :: renderings rest

end

theorem renderings_eq_map (exprs : List Expr) : renderings exprs = exprs.map rendering := by
  induction exprs with
  | nil => rfl
  | cons expr rest ih => rw [renderings, ih, List.map_cons]

@[simp]
theorem rendering_expr (expr : Expr) : expr.rendering.expr = expr := by
  cases expr with
  | unary symbol operand => rw [rendering]; split <;> rfl
  | binary symbol left right => rw [rendering]; split <;> rfl
  | boolean | number | text | «variable» | call | conditional => rfl

theorem map_expr_renderings (exprs : List Expr) : (renderings exprs).map Writing.expr = exprs := by
  have hid : Writing.expr ∘ rendering = id := funext rendering_expr
  rw [renderings_eq_map, List.map_map, hid, List.map_id]

end Expr

/-! ## Renderings are writings -/

namespace Written

variable {strength nesting : Nat} {expr : Expr} {tokens : List Token}

theorem mono {needed : Nat} (h : Written strength expr nesting tokens) (hle : needed ≤ strength) :
    Written needed expr nesting tokens := by
  cases h with
  | boolean => exact .boolean needed _
  | number => exact .number needed _
  | text => exact .text needed _
  | «variable» => exact .variable needed _
  | call _ name hargs => exact .call needed name hargs
  | unary hstrength hop h => exact .unary (hle.trans hstrength) hop h
  | binary hstrength hop hleft hright => exact .binary (hle.trans hstrength) hop hleft hright
  | conditional hstrength hcondition htrue hfalse =>
    exact .conditional (hle.trans hstrength) hcondition htrue hfalse
  | parenthesized _ h => exact .parenthesized needed h

theorem within (h : Written expr.strength expr expr.rendering.nesting expr.rendering.tokens)
    (needed : Nat) : Written needed expr (expr.rendering.within needed).nesting
      (expr.rendering.within needed).tokens := by
  unfold Writing.within
  rw [Expr.rendering_expr]
  split
  · next hle => exact h.mono hle
  · exact .parenthesized needed (h.mono expr.one_le_strength)

end Written

/-- Every tree of known operators is written by its rendering. -/
theorem Expr.written_rendering (expr : Expr) (h : expr.Recognized) :
    Written expr.strength expr expr.rendering.nesting expr.rendering.tokens := by
  induction expr using Expr.induct with
  | boolean b => exact .boolean _ b
  | number n => exact .number _ n
  | text s => exact .text _ s
  | «variable» name => exact .variable _ name
  | call name args ih =>
    have hargs := recognizedAll_iff.1 h
    have hwritten : ∀ arg ∈ renderings args, Written 1 arg.expr arg.nesting arg.tokens := by
      intro arg harg
      rw [renderings_eq_map] at harg
      obtain ⟨expr, hexpr, rfl⟩ := List.mem_map.1 harg
      rw [rendering_expr]
      exact (ih expr hexpr (hargs expr hexpr)).mono expr.one_le_strength
    have hcall := Written.call 10 name hwritten
    rwa [map_expr_renderings] at hcall
  | unary symbol operand ih =>
    obtain ⟨hknown, hoperand⟩ := h
    obtain ⟨op, hop⟩ := Option.isSome_iff_exists.1 hknown
    simp only [rendering, hop]
    exact .unary (Nat.le_refl 8) hop ((ih hoperand).within 8)
  | binary symbol left right ihl ihr =>
    obtain ⟨hknown, hleft, hright⟩ := h
    obtain ⟨op, hop⟩ := Option.isSome_iff_exists.1 hknown
    simp only [strength_binary hop, rendering, hop]
    exact .binary (Nat.le_refl _) hop ((ihl hleft).within _) ((ihr hright).within _)
  | conditional condition whenTrue whenFalse ihc iht ihf =>
    obtain ⟨hcondition, htrue, hfalse⟩ := h
    exact .conditional (Nat.le_refl 1) ((ihc hcondition).within 2)
      ((iht htrue).mono whenTrue.one_le_strength) ((ihf hfalse).mono whenFalse.one_le_strength)

/-! ## Renderings nest least -/

theorem Writing.within_le (w : Writing) (needed : Nat) : (w.within needed).nesting ≤ 1 + w.nesting := by
  unfold within
  split
  · omega
  · exact Nat.le_refl _

theorem Writing.within_of_le {w : Writing} {needed : Nat} (h : needed ≤ w.expr.strength) :
    w.within needed = w := by
  rw [within, if_pos h]

theorem Expr.within_one (expr : Expr) : expr.rendering.within 1 = expr.rendering :=
  Writing.within_of_le (by rw [Expr.rendering_expr]; exact expr.one_le_strength)

theorem Writing.argumentNesting_le {args : List Writing}
    (h : ∀ arg ∈ args, arg.expr.rendering.nesting ≤ arg.nesting) :
    argumentNesting (Expr.renderings (args.map Writing.expr)) ≤ argumentNesting args := by
  induction args with
  | nil => exact Nat.le_refl 0
  | cons arg args ih =>
    have hfirst := h arg List.mem_cons_self
    have hrest := ih fun x hx => h x (List.mem_cons_of_mem _ hx)
    rw [List.map_cons, Expr.renderings, argumentNesting, argumentNesting]
    omega

theorem Writing.within_rendering_le {expr : Expr} {needed k : Nat} (hle : needed ≤ expr.strength)
    (h : expr.rendering.nesting ≤ k) : (expr.rendering.within needed).nesting ≤ k := by
  rwa [within_of_le (by rwa [Expr.rendering_expr])]

/-- No writing nests less than the rendering. -/
theorem Written.rendering_le {strength nesting : Nat} {expr : Expr} {tokens : List Token}
    (h : Written strength expr nesting tokens) (hstrength : strength ≤ 10) :
    (expr.rendering.within strength).nesting ≤ nesting := by
  induction h with
  | boolean | number | text | «variable» => exact Writing.within_rendering_le hstrength (Nat.le_refl 0)
  | call strength name hargs ih =>
    refine Writing.within_rendering_le hstrength (Writing.argumentNesting_le fun arg harg => ?_)
    rw [← Expr.within_one]
    exact ih arg harg (by decide)
  | unary hle hop h ih =>
    refine Writing.within_rendering_le hle ?_
    have := ih (by decide)
    simp only [Expr.rendering, hop]
    omega
  | @binary _ _ op _ _ _ _ _ _ hle hop hleft hright ihl ihr =>
    refine Writing.within_rendering_le (by rwa [Expr.strength_binary hop]) ?_
    have := ihl (by cases op <;> decide)
    have := ihr (by cases op <;> decide)
    simp only [Expr.rendering, hop]
    omega
  | conditional hle hcondition htrue hfalse ihc iht ihf =>
    refine Writing.within_rendering_le hle ?_
    have := ihc (by decide)
    have htrue := iht (by decide)
    have hfalse := ihf (by decide)
    rw [Expr.within_one] at htrue hfalse
    simp only [Expr.rendering]
    omega
  | @parenthesized strength expr _ _ h ih =>
    have hinner := ih (by decide)
    have := expr.rendering.within_le strength
    rw [Expr.within_one] at hinner
    omega

/-! ## Nesting and depth -/

namespace Expr

/-- What a tree leaves of three times its depth at least, for twice its nesting. -/
def spare (expr : Expr) : Nat := if expr.strength < 8 then 4 else 3

theorem three_le_spare (expr : Expr) : 3 ≤ expr.spare := by
  unfold spare
  split <;> omega

theorem within_nesting_le {expr : Expr} (h : 2 * expr.rendering.nesting + expr.spare ≤ 3 * expr.depth)
    (needed : Nat) : 2 * (expr.rendering.within needed).nesting + 1 ≤ 3 * expr.depth ∧
      (needed ≤ 8 → 2 * (expr.rendering.within needed).nesting + 2 ≤ 3 * expr.depth) := by
  unfold spare at h
  unfold Writing.within
  rw [rendering_expr]
  split
  · split at h <;> omega
  · dsimp only
    split at h <;> omega

theorem two_mul_argumentNesting_le {args : List Expr}
    (h : ∀ arg ∈ args, 2 * arg.rendering.nesting + arg.spare ≤ 3 * arg.depth) :
    2 * Writing.argumentNesting (renderings args) ≤ 3 * depthAll args := by
  induction args with
  | nil => exact Nat.le_refl 0
  | cons arg args ih =>
    have hfirst := h arg List.mem_cons_self
    have hrest := ih fun x hx => h x (List.mem_cons_of_mem _ hx)
    have hspare := arg.three_le_spare
    rw [renderings, Writing.argumentNesting, depthAll]
    omega

theorem two_mul_nesting_add_spare_le (expr : Expr) :
    2 * expr.rendering.nesting + expr.spare ≤ 3 * expr.depth := by
  induction expr using Expr.induct with
  | boolean | number | text | «variable» => exact Nat.le_refl 3
  | call name args ih =>
    have hargs := two_mul_argumentNesting_le ih
    have hspare : (call name args).spare = 3 := rfl
    rw [hspare, rendering, depth]
    dsimp only
    omega
  | unary symbol operand ih =>
    have hwithin := (within_nesting_le ih 8).2 (by decide)
    have hspare : (unary symbol operand).spare = 3 := rfl
    rw [hspare, rendering, depth]
    split
    · dsimp only
      omega
    · dsimp only
      omega
  | binary symbol left right ihl ihr =>
    cases hop : BinaryOperator.ofSymbol? symbol with
    | none =>
      have hspare : (binary symbol left right).spare = 3 := by simp [spare, strength, hop]
      simp only [rendering, hop, depth, hspare]
      omega
    | some op =>
      obtain ⟨hleft, hleft'⟩ := within_nesting_le ihl op.leftStrength
      have hright := (within_nesting_le ihr op.rightStrength).2 (by cases op <;> decide)
      simp only [rendering, hop, depth, spare, strength_binary hop]
      by_cases hpower : op = .power
      · obtain rfl := hpower
        have hexponent : 2 * (right.rendering.within 8).nesting + 2 ≤ 3 * right.depth := hright
        have htight : ¬ BinaryOperator.power.strength < 8 := by decide
        rw [if_neg htight]
        show 2 * max (left.rendering.within 10).nesting (1 + (right.rendering.within 8).nesting) + 3 ≤ _
        have hbase : 2 * (left.rendering.within 10).nesting + 1 ≤ 3 * left.depth := hleft
        omega
      · -- no other operator needs more than 8 on its left, or nests
        have hloose : op.strength < 8 ∧ op.leftStrength ≤ 8 ∧ op.rightNesting = 0 := by
          cases op <;> first | exact absurd rfl hpower | decide
        obtain ⟨hstrength, hneeded, hnesting⟩ := hloose
        have := hleft' hneeded
        rw [if_pos hstrength, hnesting]
        omega
  | conditional condition whenTrue whenFalse ihc iht ihf =>
    have hcondition := (within_nesting_le ihc 2).2 (by decide)
    have hspare : (conditional condition whenTrue whenFalse).spare = 4 := rfl
    have htrue := whenTrue.three_le_spare
    have hfalse := whenFalse.three_le_spare
    simp only [hspare, rendering, depth]
    omega

/-- Two levels of a tree nest three times at most. -/
theorem two_mul_nesting_le (expr : Expr) : 2 * expr.rendering.nesting + 3 ≤ 3 * expr.depth := by
  have h := expr.two_mul_nesting_add_spare_le
  have hspare := expr.three_le_spare
  omega

/-- Negated conditionals inside each other, which nest three times on every two levels. -/
def ladder : Nat → Expr
  | 0 => .unary "-" (.variable "a")
  | n + 1 => .unary "-" (.conditional (.variable "a") (ladder n) (.variable "a"))

theorem ladder_depth (n : Nat) : (ladder n).depth = 2 * n + 2 := by
  induction n with
  | zero => rfl
  | succ n ih =>
    simp only [ladder, depth, ih]
    omega

theorem ladder_nesting (n : Nat) : (ladder n).rendering.nesting = 3 * n + 1 := by
  induction n with
  | zero => rfl
  | succ n ih =>
    have hop : UnaryOperator.ofSymbol? "-" = some .negate := by decide
    have hinner : ((Expr.conditional (.variable "a") (ladder n) (.variable "a")).rendering.within 8).nesting =
        1 + max 0 (max (1 + (3 * n + 1)) 1) := by
      rw [← ih]
      rfl
    rw [ladder, rendering]
    simp only [hop, hinner]
    omega

theorem ladder_recognized (n : Nat) : (ladder n).Recognized := by
  induction n with
  | zero => exact ⟨by decide, trivial⟩
  | succ n ih => exact ⟨by decide, trivial, ih, trivial⟩

theorem ladder_writable (n : Nat) : (ladder n).Writable := by
  have hname : ∀ c ∈ "a".toList, c ≠ Token.nameQuote := by simp [Token.nameQuote]
  induction n with
  | zero => exact hname
  | succ n ih => exact ⟨hname, ih, hname⟩

end Expr

/-! ## Reading back -/

open Token

/-- The written tokens one after the other. -/
def Token.joined (tokens : List Token) : String := String.ofList (tokens.flatMap Token.written)

theorem Token.Layout.joined (tokens : List Token) : Layout tokens (joined tokens).toList := by
  rw [Token.joined, String.toList_ofList]
  induction tokens with
  | nil => exact .nil nofun
  | cons token tokens ih => exact @Layout.cons [] _ _ _ nofun ih

/-- **Round trip.** A tree of known operators can be written, and however it is written and spaced, with any
further parentheses, it is read back as the same tree if and only if neither the writing nests nor the tree is
too deep. -/
theorem writings_read_back {expr : Expr} (hrecognized : expr.Recognized) (hwritable : expr.Writable) :
    (∃ (nesting : Nat) (tokens : List Token) (source : String),
      Written 1 expr nesting tokens ∧ Layout tokens source.toList) ∧
      ∀ (nesting : Nat) (tokens : List Token) (source : String), Written 1 expr nesting tokens →
        Layout tokens source.toList → (Expr.ofText? source = .ok expr ↔
          1 + nesting ≤ Expr.maxDepth ∧ expr.depth ≤ Expr.maxDepth) :=
  ⟨⟨_, _, _, (expr.written_rendering hrecognized).mono expr.one_le_strength, .joined _⟩,
    fun _ _ _ h hlayout => h.ofText?_eq_ok_iff hwritable hlayout⟩

/-- Parentheses and blanks that are not needed, a minus before a not, and a quote in a text. -/
theorem writings_read_back_spaced :
    Expr.ofText? "(`x y`)- !\"\\\"\" " =
      .ok (.binary "-" (.variable "x y") (.unary "!" (.text "\""))) := by
  have hrecognized : Expr.Recognized (.binary "-" (.variable "x y") (.unary "!" (.text "\""))) :=
    ⟨by decide, trivial, by decide, trivial⟩
  have hname : ∀ c ∈ "x y".toList, c ≠ nameQuote := by simp [nameQuote]
  have hsubtract : BinaryOperator.ofSymbol? "-" = some .subtract := by decide
  have hnot : UnaryOperator.ofSymbol? "!" = some .not := by decide
  have hwritten : Written 1 (.binary "-" (.variable "x y") (.unary "!" (.text "\""))) 1
      [.open, .name "x y", .close, .operator .subtract, .bang, .text "\""] :=
    .binary (by decide) hsubtract (.parenthesized _ (.variable _ _))
      (.unary (by decide) hnot (.text _ _))
  have hblank : ∀ c ∈ [' '], isBlank c = true := List.all_eq_true.1 (by decide)
  have hlayout : Layout [.open, .name "x y", .close, .operator .subtract, .bang, .text "\""]
      "(`x y`)- !\"\\\"\" ".toList :=
    @Layout.cons [] _ _ _ nofun <| @Layout.cons [] _ _ _ nofun <| @Layout.cons [] _ _ _ nofun <|
      @Layout.cons [] _ _ _ nofun <| @Layout.cons [' '] _ _ _ hblank <|
      @Layout.cons [] _ _ _ nofun <| @Layout.nil [' '] hblank
  have hdepth : 1 + 1 ≤ Expr.maxDepth ∧
      (Expr.binary "-" (.variable "x y") (.unary "!" (.text "\""))).depth ≤ Expr.maxDepth := by decide
  exact ((writings_read_back hrecognized ⟨hname, trivial⟩).2 _ _ _ hwritten hlayout).2 hdepth

/-- **The limit of renderings.** A tree that is not too deep is read back from its rendering if and only if that
does not nest too deep, and otherwise found too deep. Renderings of 67 levels or fewer never nest too deep. -/
theorem rendering_accepted_iff {expr : Expr} (hrecognized : expr.Recognized)
    (hwritable : expr.Writable) (hdepth : expr.depth ≤ Expr.maxDepth) {source : String}
    (hlayout : Layout expr.rendering.tokens source.toList) :
    (Expr.ofText? source = .ok expr ↔ 1 + expr.rendering.nesting ≤ Expr.maxDepth) ∧
      (Expr.maxDepth < 1 + expr.rendering.nesting →
        ∃ offset, Expr.ofText? source = .error ⟨.tooDeep, offset⟩) ∧
      (expr.depth ≤ 67 → Expr.ofText? source = .ok expr) ∧
      ∀ nesting tokens, Written 1 expr nesting tokens → expr.rendering.nesting ≤ nesting := by
  have hwritten := (expr.written_rendering hrecognized).mono expr.one_le_strength
  have haccepted : Expr.ofText? source = .ok expr ↔ 1 + expr.rendering.nesting ≤ Expr.maxDepth := by
    rw [hwritten.ofText?_eq_ok_iff hwritable hlayout]
    exact and_iff_left hdepth
  refine ⟨haccepted, fun hnesting => ?_, fun hshallow => haccepted.2 ?_, fun nesting tokens h => ?_⟩
  · obtain ⟨d, hcut, rfl, -⟩ := hwritten.exists_derivation hwritable hlayout
    rcases ofText?_outcome hcut with hok | herror
    · exact absurd (haccepted.1 hok) (Nat.not_le_of_lt hnesting)
    · exact herror
  · have hbound := expr.two_mul_nesting_le
    have hmax : Expr.maxDepth = 100 := rfl
    omega
  · rw [← Expr.within_one]
    exact h.rendering_le (by decide)

/-- A ladder of 66 levels, which nests 98 times, is read back. -/
theorem rendering_accepted_ladder :
    Expr.ofText? (joined (Expr.ladder 32).rendering.tokens) = .ok (Expr.ladder 32) := by
  have hdepth : (Expr.ladder 32).depth ≤ 67 := by rw [Expr.ladder_depth]; decide
  exact (rendering_accepted_iff (Expr.ladder_recognized 32) (Expr.ladder_writable 32)
    (hdepth.trans (by decide)) (.joined _)).2.2.1 hdepth

/-- A ladder of 68 levels is too deep for the reader, although its tree is not. -/
theorem rendering_too_deep_ladder :
    (Expr.ladder 33).Recognized ∧ (Expr.ladder 33).Writable ∧ (Expr.ladder 33).depth ≤ Expr.maxDepth ∧
      ∃ offset, Expr.ofText? (joined (Expr.ladder 33).rendering.tokens) = .error ⟨.tooDeep, offset⟩ := by
  have hrecognized := Expr.ladder_recognized 33
  have hwritable := Expr.ladder_writable 33
  have hwritten := ((Expr.ladder 33).written_rendering hrecognized).mono (Expr.one_le_strength _)
  have hlayout := Layout.joined (Expr.ladder 33).rendering.tokens
  refine ⟨hrecognized, hwritable, by rw [Expr.ladder_depth]; decide, ?_⟩
  obtain ⟨d, hcut, hmeaning, -⟩ := hwritten.exists_derivation hwritable hlayout
  rcases ofText?_outcome hcut with hok | herror
  · rw [hmeaning, hwritten.ofText?_eq_ok_iff hwritable hlayout, Expr.ladder_nesting] at hok
    exact absurd hok.1 (by decide)
  · exact herror

end Formulary
