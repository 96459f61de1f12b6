import Formulary.Compiled
import Formulary.Proofs.Audit
import Formulary.Proofs.Expr.Recognized

/-!
# The life of a compilation

What a context is asked while code is generated, whatever it answers and wherever it fails. The marks of a
tree are the ends of the frames of arguments and the codes of calls, as a walk from left to right meets them
(`Expr.marks`). A piece of the generation leaves its marks, or it fails, and then it leaves a beginning of them
and closes the frames that are open there (`Generates`). Pieces are put together in the order of their marks
(`Emits.bind`), so the whole tree leaves its own (`emits`), between the notices of the compilation's begin and
end (`compilation_bracketed`).
-/

namespace Formulary

/-! ## Marks -/

/-- The beginning or the end of an argument's frame, or the code of a call. -/
inductive Mark where
  | begin (name : String)
  | close (name : String)
  | callCode (name : String) (count : Nat)
deriving DecidableEq

namespace Mark

/-- The names of the frames that are open after marks, the innermost first, where some are open before. -/
def openNames : (before : List String) → List Mark → List String
  | before, [] => before
  | before, begin name :: rest => openNames (name :: before) rest
  | before, close _ :: rest => openNames before.tail rest
  | before, callCode _ _ :: rest => openNames before rest

theorem openNames_append (before : List String) (front rest : List Mark) :
    openNames before (front ++ rest) = openNames (openNames before front) rest := by
  induction front generalizing before with
  | nil => rfl
  | cons mark front ih => cases mark <;> exact ih _

/-- The ends of the frames that are open after marks, the innermost first. -/
def closings (marks : List Mark) : List Mark := (openNames [] marks).map close

/-- What marks come to where they break off: a beginning that closes only frames of its own, and the ends of
the frames that are open there. -/
def Breaks (marks left : List Mark) : Prop :=
  ∃ front, front <+: marks ∧ (∀ names, openNames names front = openNames [] front ++ names) ∧
    left = front ++ closings front

variable {marks left rest front : List Mark} {name : String}

theorem Breaks.nil : Breaks marks [] := ⟨[], List.nil_prefix, fun _ => rfl, rfl⟩

theorem Breaks.all (h : ∀ names, openNames names marks = names) : Breaks marks marks := by
  refine ⟨marks, List.prefix_rfl, fun names => by rw [h, h, List.nil_append], ?_⟩
  rw [closings, h, List.map_nil, List.append_nil]

theorem Breaks.append_right (h : Breaks marks left) (rest : List Mark) : Breaks (marks ++ rest) left := by
  obtain ⟨front, hfront, hopen, hleft⟩ := h
  exact ⟨front, hfront.trans (List.prefix_append marks rest), hopen, hleft⟩

theorem Breaks.append_left (hfront : ∀ names, openNames names front = names) (h : Breaks marks left) :
    Breaks (front ++ marks) (front ++ left) := by
  obtain ⟨front', hleading, hopen, rfl⟩ := h
  have hnames : ∀ names, openNames names (front ++ front') = openNames names front' := fun names => by
    rw [openNames_append, hfront]
  refine ⟨front ++ front', (List.prefix_append_right_inj front).2 hleading, fun names => ?_, ?_⟩
  · rw [hnames, hnames, hopen]
  · rw [closings, closings, hnames, List.append_assoc]

theorem Breaks.framed (h : Breaks marks left) :
    Breaks (begin name :: (marks ++ rest)) (begin name :: (left ++ [close name])) := by
  obtain ⟨front, hfront, hopen, rfl⟩ := h
  refine ⟨begin name :: front,
    (List.prefix_cons_inj _).2 (hfront.trans (List.prefix_append marks rest)), fun names => ?_, ?_⟩
  · rw [openNames, openNames, hopen, hopen [name], List.append_assoc, List.singleton_append]
  · rw [closings, closings, openNames, hopen [name], List.map_append, List.map_cons, List.map_nil,
      List.cons_append, List.append_assoc]

end Mark

namespace Expr

mutual

/-- The marks that the code of a tree leaves: each argument has its frame, and the code of a call comes after
the frames of its arguments. -/
def marks : Expr → List Mark
  | .boolean _ | .number _ | .text _ | .variable _ => []
  | .call name args => argMarks name args ++ [.callCode name args.length]
  | .unary _ operand => operand.marks
  | .binary _ left right => left.marks ++ right.marks
  | .conditional condition whenTrue whenFalse => condition.marks ++ (whenTrue.marks ++ whenFalse.marks)

def argMarks (name : String) : List Expr → List Mark
  | [] => []
  | arg :: rest => .begin name :: (arg.marks ++ .close name :: argMarks name rest)

end

example : (call "sum" [.variable "a", .call "day" []]).marks =
    [.begin "sum", .close "sum", .begin "sum", .callCode "day" 0, .close "sum", .callCode "sum" 2] := rfl

end Expr

/-! ## Queries -/

namespace Query

def mark? : Query → Option Mark
  | beginFrame frame => some (.begin frame.name)
  | endFrame name => some (.close name)
  | callCode name codes _ => some (.callCode name codes.length)
  | _ => none

/-- Asked for the code of a tree: no value is, and no compilation begins or ends. -/
def IsForCode : Query → Prop
  | variableCode .. | callCode .. | isAggregate _ | beginFrame _ | endFrame _ | openIndices => True
  | lookup .. | lookupScoped .. | call .. | beginCompile | endCompile | settleCompile | hasAggregates | load _ => False

/-- Every frame that begins ends under its own name, after all that begin in it. -/
inductive Balanced : List Query → Prop where
  | nil : Balanced []
  | other {query : Query} {rest : List Query} (hbegin : ∀ frame, query ≠ beginFrame frame)
    (hend : ∀ name, query ≠ endFrame name) (hrest : Balanced rest) : Balanced (query :: rest)
  | framed {frame : Frame} {inner rest : List Query} (hinner : Balanced inner) (hrest : Balanced rest) :
    Balanced (beginFrame frame :: (inner ++ endFrame frame.name :: rest))

theorem Balanced.append {front rest : List Query} (h : Balanced front) (h' : Balanced rest) :
    Balanced (front ++ rest) := by
  induction h with
  | nil => exact h'
  | other hbegin hend _ ih => exact .other hbegin hend ih
  | framed hinner _ _ ih =>
    rw [List.cons_append, List.append_assoc, List.cons_append]
    exact .framed hinner ih

theorem filterMap_framed (frame : Frame) (inner rest : List Query) :
    (beginFrame frame :: (inner ++ endFrame frame.name :: rest)).filterMap mark? =
      .begin frame.name :: (inner.filterMap mark? ++ .close frame.name :: rest.filterMap mark?) := by
  simp [mark?]

/-- Balanced queries open no frame for good and close none that was open. -/
theorem Balanced.openNames_eq {queries : List Query} (h : Balanced queries) (before : List String) :
    Mark.openNames before (queries.filterMap mark?) = before := by
  induction h generalizing before with
  | nil => rfl
  | @other query rest hbegin hend _ ih =>
    cases query with
    | beginFrame frame => exact absurd rfl (hbegin frame)
    | endFrame name => exact absurd rfl (hend name)
    | _ => exact ih before
  | @framed frame inner rest _ _ ihinner ihrest =>
    rw [filterMap_framed, Mark.openNames, Mark.openNames_append, ihinner, Mark.openNames]
    exact ihrest before

/-- So many frames of a name, one after the other and each with what is balanced inside. -/
inductive Pairs (name : String) : Nat → List Query → Prop where
  | nil : Pairs name 0 []
  | cons {count : Nat} (aggregate : Bool) {inner rest : List Query} (hinner : Balanced inner)
    (hrest : Pairs name count rest) :
    Pairs name (count + 1) (beginFrame ⟨name, aggregate⟩ :: (inner ++ endFrame name :: rest))

/-- Where the code of a call is asked for, the frames of its arguments have just ended. -/
def CallsClosed (queries : List Query) : Prop :=
  ∀ ⦃before : List Query⦄ ⦃name : String⦄ ⦃codes : List String⦄ ⦃indices : List Nat⦄ ⦃after : List Query⦄,
    queries = before ++ callCode name codes indices :: after →
    ∃ earlier pairs, before = earlier ++ (pairs ++ [openIndices]) ∧ Pairs name codes.length pairs

theorem callsClosed_of_ne {queries : List Query}
    (h : ∀ name codes indices, callCode name codes indices ∉ queries) : CallsClosed queries := by
  rintro before name codes indices after rfl
  exact absurd (List.mem_append_right before List.mem_cons_self) (h name codes indices)

theorem CallsClosed.append {front rest : List Query} (h : CallsClosed front) (h' : CallsClosed rest) :
    CallsClosed (front ++ rest) := by
  intro before name codes indices after heq
  rcases List.append_eq_append_iff.1 heq with ⟨more, rfl, hrest⟩ | ⟨more, hfront, hafter⟩
  · obtain ⟨earlier, pairs, rfl, hpairs⟩ := h' hrest
    exact ⟨front ++ earlier, pairs, by rw [List.append_assoc], hpairs⟩
  · cases more with
    | nil =>
      -- The rest cannot begin with the code of a call, which has the indices in front.
      obtain ⟨earlier, pairs, hnil, -⟩ := @h' [] _ _ _ _ hafter.symm
      simp at hnil
    | cons query more =>
      obtain ⟨rfl, rfl⟩ := List.cons.inj hafter
      exact h hfront

/-- The code of a call after the frames of its arguments. -/
theorem CallsClosed.call {name : String} {codes : List String} {pairs : List Query} (h : CallsClosed pairs)
    (hpairs : Pairs name codes.length pairs) (indices : List Nat) :
    CallsClosed (pairs ++ [openIndices, callCode name codes indices]) := by
  intro before name' codes' indices' after heq
  rcases List.append_eq_append_iff.1 heq with ⟨more, rfl, hrest⟩ | ⟨more, hfront, hafter⟩
  · match more with
    | [] => exact nomatch (List.cons.inj hrest).1
    | [query] =>
      obtain ⟨rfl, hlast⟩ := List.cons.inj hrest
      obtain ⟨hcall, -⟩ := List.cons.inj hlast
      cases hcall
      exact ⟨[], pairs, rfl, hpairs⟩
    | query :: query' :: more => simp at hrest
  · cases more with
    | nil => exact nomatch (List.cons.inj hafter).1
    | cons query more =>
      obtain ⟨rfl, rfl⟩ := List.cons.inj hafter
      exact h hfront

end Query

/-! ## Generation in pieces -/

variable {σ α β : Type}

/-- What a piece of the generation is asked, and the marks that it leaves. -/
structure Generates (marks : List Mark) (audit : Audit σ α) : Prop where
  forCode : ∀ query ∈ audit.queries, query.IsForCode
  balanced : Query.Balanced audit.queries
  callsClosed : Query.CallsClosed audit.queries
  left : match audit.result with
    | .ok _ => audit.queries.filterMap Query.mark? = marks
    | .error _ => Mark.Breaks marks (audit.queries.filterMap Query.mark?)

namespace Generates

variable {marks marks' : List Mark} {queries : List Query} {state : σ}

theorem nothing (result : Except FormulaError α) (state : σ) (h : ∀ value, result = .ok value → marks = []) :
    Generates marks ⟨result, [], state⟩ where
  forCode _ h := absurd h List.not_mem_nil
  balanced := .nil
  callsClosed := Query.callsClosed_of_ne fun _ _ _ => List.not_mem_nil
  left := by
    cases result with
    | ok value => exact (h value rfl).symm
    | error error => exact .nil

/-- A question that is not about frames or calls. -/
theorem single {query : Query} (hquery : query.IsForCode) (hmark : query.mark? = none)
    (result : Except FormulaError α) (state : σ) : Generates [] ⟨result, [query], state⟩ where
  forCode query' h := by rwa [List.mem_singleton.1 h]
  balanced := by
    refine .other ?_ ?_ .nil
    · rintro frame rfl
      exact nomatch hmark
    · rintro name rfl
      exact nomatch hmark
  callsClosed := by
    refine Query.callsClosed_of_ne fun name codes indices h => ?_
    rw [← List.mem_singleton.1 h] at hmark
    exact nomatch hmark
  left := by
    rw [List.filterMap_cons_none hmark, List.filterMap_nil]
    cases result with
    | ok value => rfl
    | error error => exact .nil

theorem append {value : α} {state' : σ} {rest : Audit σ β}
    (h : Generates marks ⟨.ok value, queries, state'⟩) (h' : Generates marks' rest) :
    Generates (marks ++ marks') ⟨rest.result, queries ++ rest.queries, rest.state⟩ where
  forCode query hquery := (List.mem_append.1 hquery).elim (h.forCode query) (h'.forCode query)
  balanced := h.balanced.append h'.balanced
  callsClosed := h.callsClosed.append h'.callsClosed
  left := by
    have hmarks : queries.filterMap Query.mark? = marks := h.left
    have hleft := h'.left
    rw [List.filterMap_append, hmarks]
    revert hleft
    cases rest.result with
    | ok value => exact fun hleft => congrArg (marks ++ ·) hleft
    | error error => exact .append_left (hmarks ▸ h.balanced.openNames_eq)

theorem fail {error : FormulaError} (h : Generates marks (⟨.error error, queries, state⟩ : Audit σ α))
    (marks' : List Mark) : Generates (marks ++ marks') (⟨.error error, queries, state⟩ : Audit σ β) where
  forCode := h.forCode
  balanced := h.balanced
  callsClosed := h.callsClosed
  left := Mark.Breaks.append_right h.left marks'

/-- A frame around a piece, which ends also if the piece fails. -/
theorem framed {audit : Audit σ α} (h : Generates marks audit) (frame : Frame) (state : σ) :
    Generates (.begin frame.name :: (marks ++ [.close frame.name]))
      ⟨audit.result, .beginFrame frame :: (audit.queries ++ [.endFrame frame.name]), state⟩ where
  forCode query hquery := by
    rcases List.mem_cons.1 hquery with rfl | hquery
    · trivial
    · rcases List.mem_append.1 hquery with hquery | hquery
      · exact h.forCode query hquery
      · rw [List.mem_singleton.1 hquery]
        trivial
  balanced := .framed h.balanced .nil
  callsClosed :=
    have hbegin : Query.CallsClosed [.beginFrame frame] := Query.callsClosed_of_ne fun _ _ _ h => by simp at h
    have hend : Query.CallsClosed [.endFrame frame.name] := Query.callsClosed_of_ne fun _ _ _ h => by simp at h
    hbegin.append (h.callsClosed.append hend)
  left := by
    have hleft := h.left
    rw [Query.filterMap_framed, List.filterMap_nil]
    revert hleft
    cases audit.result with
    | ok value => exact fun hleft => by rw [hleft]
    | error error => exact .framed

/-- The code of a call is asked for after the frames of its arguments. -/
theorem callCode {name : String} {codes : List String} {state' : σ}
    (h : Generates marks (⟨.ok codes, queries, state⟩ : Audit σ (List String)))
    (hpairs : Query.Pairs name codes.length queries) (indices : List Nat) (result : Except FormulaError α) :
    Generates (marks ++ [.callCode name codes.length])
      ⟨result, queries ++ [.openIndices, .callCode name codes indices], state'⟩ where
  forCode query hquery := by
    rcases List.mem_append.1 hquery with hquery | hquery
    · exact h.forCode query hquery
    · simp only [List.mem_cons, List.not_mem_nil, or_false] at hquery
      rcases hquery with rfl | rfl <;> trivial
  balanced := h.balanced.append (.other nofun nofun (.other nofun nofun .nil))
  callsClosed := h.callsClosed.call hpairs indices
  left := by
    have hmarks : (queries ++ [Query.openIndices, .callCode name codes indices]).filterMap Query.mark? =
        marks ++ [.callCode name codes.length] := by
      rw [List.filterMap_append]
      exact congrArg (· ++ _) h.left
    rw [hmarks]
    cases result with
    | ok value => rfl
    | error error =>
      refine .all fun names => ?_
      rw [← hmarks, List.filterMap_append, Mark.openNames_append, h.balanced.openNames_eq]
      rfl

end Generates

/-- A piece of the generation with these marks, in every state. -/
def Emits (plain : Answer (StateM σ) α) (audited : Answer (Audited (StateM σ)) α) (marks : List Mark) :
    Prop :=
  ∀ state, ∃ audit, Audits plain audited state audit ∧ Generates marks audit

namespace Emits

variable {plain : Answer (StateM σ) α} {audited : Answer (Audited (StateM σ)) α}
  {next : α → Answer (StateM σ) β} {audited' : α → Answer (Audited (StateM σ)) β} {marks marks' : List Mark}

theorem pure (value : α) : Emits (σ := σ) (Pure.pure value) (Pure.pure value) [] := fun state =>
  ⟨_, .pure value state, .nothing _ state fun _ _ => rfl⟩

theorem throw (error : FormulaError) (marks : List Mark) :
    Emits (σ := σ) (α := α) (throwThe FormulaError error) (throwThe FormulaError error) marks := fun state =>
  ⟨_, .throw error state, .nothing _ state fun _ h => nomatch h⟩

theorem noteAnswer {query : Query} (hquery : query.IsForCode) (hmark : query.mark? = none)
    (answer : Answer (StateM σ) α) : Emits answer (Audited.noteAnswer query answer) [] := fun state =>
  ⟨_, .noteAnswer query answer state, .single hquery hmark _ _⟩

theorem bind (h : Emits plain audited marks) (hnext : ∀ value, Emits (next value) (audited' value) marks') :
    Emits (plain >>= next) (audited >>= audited') (marks ++ marks') := by
  intro state
  obtain ⟨⟨result, queries, state'⟩, haudit, hmarks⟩ := h state
  cases result with
  | ok value =>
    obtain ⟨rest, hrest, hmarks'⟩ := hnext value state'
    exact ⟨_, haudit.bind_ok hrest, hmarks.append hmarks'⟩
  | error error => exact ⟨_, haudit.bind_error, hmarks.fail marks'⟩

theorem note_bind {query : Query} (hquery : query.IsForCode) (hmark : query.mark? = none)
    (action : StateM σ α) (hnext : ∀ value, Emits (next value) (audited' value) marks) :
    Emits (ExceptT.lift action >>= next) (ExceptT.lift (Audited.note query action) >>= audited') marks := by
  have hnote : Emits (ExceptT.lift action) (ExceptT.lift (Audited.note query action)) [] := fun state =>
    ⟨_, .note query action state, .single hquery hmark _ _⟩
  exact hnote.bind hnext

end Emits

/-! ## The generation of a tree -/

variable {ctx : Context (StateM σ)}

namespace Expr

/-- The pieces for the arguments of a call leave their marks, and the frames of all if none fails. -/
theorem emitArgs_generates {args : List Expr}
    (hargs : ∀ arg ∈ args, Emits (arg.emit ctx) (arg.emit ctx.audited) arg.marks) (frame : Frame)
    (state : σ) :
    ∃ audit, Audits (emitArgs ctx frame args) (emitArgs ctx.audited frame args) state audit ∧
      Generates (argMarks frame.name args) audit ∧
      ∀ codes, audit.result = .ok codes →
        codes.length = args.length ∧ Query.Pairs frame.name codes.length audit.queries := by
  induction args generalizing state with
  | nil =>
    refine ⟨_, .pure [] state, .nothing _ state fun _ _ => rfl, fun codes hcodes => ?_⟩
    obtain rfl := Except.ok.inj hcodes
    exact ⟨rfl, .nil⟩
  | cons arg args ih =>
    obtain ⟨audit, haudit, hmarks⟩ := hargs arg List.mem_cons_self ((ctx.beginFrame frame).run state).2
    have hframed := Audits.between (.beginFrame frame) [.endFrame frame.name] (ctx.beginFrame frame)
      (ctx.endFrame frame.name) (ctx.audited.endFrame frame.name) haudit fun _ _ => rfl
    -- the frame ends whether or not there is code
    have hmarks' := hmarks.framed frame ((ctx.endFrame frame.name).run audit.state).2
    obtain ⟨result, queries, state'⟩ := audit
    have hsplit : argMarks frame.name (arg :: args) =
        (.begin frame.name :: (arg.marks ++ [.close frame.name])) ++ argMarks frame.name args := by
      simp [argMarks]
    rw [hsplit]
    cases result with
    | error error => exact ⟨_, hframed.bind_error, hmarks'.fail _, fun _ h => nomatch h⟩
    | ok code =>
      obtain ⟨⟨result, queries', state''⟩, haudit', hrest, hpairs⟩ :=
        ih (fun arg' harg => hargs arg' (List.mem_cons_of_mem _ harg)) ((ctx.endFrame frame.name).run state').2
      cases result with
      | error error => exact ⟨_, hframed.bind_ok haudit'.bind_error, hmarks'.append hrest, fun _ h => nomatch h⟩
      | ok codes =>
        obtain ⟨hlength, hpairs⟩ := hpairs codes rfl
        refine ⟨_, hframed.bind_ok (haudit'.bind_ok (.pure (code :: codes) state'')), ?_, fun codes' hcodes => ?_⟩
        · rw [← List.append_nil (argMarks frame.name args)]
          exact hmarks'.append (hrest.append (.nothing _ state'' fun _ _ => rfl))
        · obtain rfl := Except.ok.inj hcodes
          refine ⟨congrArg (· + 1) hlength, ?_⟩
          simpa using Query.Pairs.cons frame.aggregate hmarks.balanced hpairs

theorem call_emits (name : String) {args : List Expr}
    (hargs : ∀ arg ∈ args, Emits (arg.emit ctx) (arg.emit ctx.audited) arg.marks) :
    Emits ((call name args).emit ctx) ((call name args).emit ctx.audited) (call name args).marks := by
  rw [emit, emit, marks]
  have hquery : (Query.isAggregate name).IsForCode := trivial
  refine .note_bind hquery rfl (ctx.isAggregate name) fun aggregate state => ?_
  obtain ⟨⟨result, queries, state'⟩, haudit, hmarks, hpairs⟩ := emitArgs_generates hargs ⟨name, aggregate⟩ state
  cases result with
  | error error => exact ⟨_, haudit.bind_error, hmarks.fail _⟩
  | ok codes =>
    obtain ⟨hlength, hpairs⟩ := hpairs codes rfl
    refine ⟨_, haudit.bind_ok (.bind_ok (.note .openIndices ctx.openIndices state')
      (.noteAnswer _ (ctx.callCode name codes (ctx.openIndices.run state').1) _)), ?_⟩
    rw [← hlength]
    exact hmarks.callCode hpairs _ _

theorem emits (expr : Expr) : Emits (expr.emit ctx) (expr.emit ctx.audited) expr.marks := by
  induction expr using Expr.induct with
  | boolean b => exact .pure _
  | number x => exact .pure _
  | text s => exact .pure _
  | «variable» name =>
    rw [emit, emit]
    have hindices : Query.openIndices.IsForCode := trivial
    have hcode (indices : List Nat) : (Query.variableCode name indices).IsForCode := trivial
    exact .note_bind hindices rfl _ fun indices => .noteAnswer (hcode indices) rfl _
  | call name args ih => exact call_emits name ih
  | unary symbol operand ih =>
    rw [emit, emit, marks]
    cases UnaryOperator.ofSymbol? symbol with
    | none => exact .throw _ _
    | some op => exact (List.append_nil operand.marks) ▸ ih.bind fun code => .pure _
  | binary symbol left right ihl ihr =>
    rw [emit, emit, marks]
    cases BinaryOperator.ofSymbol? symbol with
    | none => exact .throw _ _
    | some op =>
      refine ihl.bind fun leftCode => ?_
      exact (List.append_nil right.marks) ▸ ihr.bind fun rightCode => .pure _
  | conditional condition whenTrue whenFalse ihc iht ihf =>
    rw [emit, emit, marks]
    refine ihc.bind fun conditionCode => iht.bind fun trueCode => ?_
    exact (List.append_nil whenFalse.marks) ▸ ihf.bind fun falseCode => .pure _

end Expr

/-- **Lifecycle.** Whatever a context answers, a compilation asks it for the code of the tree between one
begin and one end, with nothing before and after: no value is asked for, frames are balanced, and the code
of a call follows the frames of its arguments. Without a failure the marks are those of the tree; a failure
leaves a beginning of them, and the ends of the frames that are open there. -/
theorem compilation_bracketed (ctx : Context (StateM σ)) (expr : Expr) (state : σ) :
    ∃ result body state', (expr.toCode ctx).runIn state = (result, state') ∧
      (expr.toCode ctx.audited).audit state =
        ⟨result, .beginCompile :: (body ++ [.endCompile, .settleCompile]), state'⟩ ∧
      (∀ query ∈ body, query.IsForCode) ∧ Query.Balanced body ∧ Query.CallsClosed body ∧
      match result with
      | .ok _ => body.filterMap Query.mark? = expr.marks
      | .error _ => ∃ front, front <+: expr.marks ∧
          body.filterMap Query.mark? = front ++ Mark.closings front := by
  have hpieces : Emits (if Expr.maxDepth < expr.levels then throw .tooDeep else expr.emit ctx)
      (if Expr.maxDepth < expr.levels then throw .tooDeep else expr.emit ctx.audited) expr.marks := by
    split
    · exact .throw _ _
    · exact expr.emits
  obtain ⟨audit, haudit, hmarks⟩ := hpieces (ctx.beginCompile.run state).2
  have hframed := Audits.between .beginCompile [.endCompile, .settleCompile] ctx.beginCompile
    (do ctx.endCompile; ctx.settleCompile) (do ctx.audited.endCompile; ctx.audited.settleCompile) haudit
    fun before state' => by
      rw [← List.singleton_append, ← List.append_assoc]
      rfl
  refine ⟨_, _, _, hframed.runIn_eq, hframed.audit_eq, hmarks.forCode, hmarks.balanced, hmarks.callsClosed, ?_⟩
  have hleft := hmarks.left
  revert hleft
  cases audit.result with
  | ok code => exact id
  | error error =>
    rintro ⟨front, hfront, -, hleft⟩
    exact ⟨front, hfront, hleft⟩

end Formulary
