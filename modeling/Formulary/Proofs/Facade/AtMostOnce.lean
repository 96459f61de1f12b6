import Formulary.Proofs.Facade.Steps
import Mathlib.Data.List.Infix

/-!
# Work that is done at most once

The invariant of a formula is `Caches.Frugal`. Where there is a tree, the source may have been read since the tree
was last dropped, and where there is none it has not; and the same holds of the compiled form and compilations.
`Caches.Grown` says what stays as long as nothing is dropped. All steps keep the one and are instances of the other.
-/

namespace Formulary

namespace Happening

def parses : Happening → Bool
  | parsing _ => true
  | _ => false

def compiles : Happening → Bool
  | compiling => true
  | _ => false

def dropsTree : Happening → Bool
  | treeDropped => true
  | _ => false

/-- The compiled form is dropped with the tree, and also when it is outdated. -/
def dropsCode : Happening → Bool
  | treeDropped | codeDropped | outdated => true
  | parsing _ | compiling => false

end Happening

open Happening

/-- Nothing in the history is a drop. -/
def History.Without (drop : Happening → Bool) (history : History) : Prop :=
  ∀ happening ∈ history, drop happening = false

/-- Wherever one looks between two drops, the work is done at most once. -/
def History.AtMostOnce (work drop : Happening → Bool) (history : History) : Prop :=
  ∀ segment : History, segment <:+: history → segment.Without drop → segment.countP work ≤ 1

/-- What has happened since an earlier history. -/
def History.since (history earlier : History) : History := history.drop earlier.length

namespace History

variable {work drop : Happening → Bool} {history history' : History} {happening : Happening} {idle idle' : Prop}

theorem without_append :
    History.Without drop (history ++ history') ↔ history.Without drop ∧ history'.Without drop :=
  List.forall_mem_append

/-- What has been without a drop when something happens was so before, and has not been dropped now. -/
theorem suffix_concat_cases {segment : History} (hsegment : segment <:+ history ++ [happening])
    (hwithout : segment.Without drop) :
    segment = [] ∨ ∃ earlier : History, segment = earlier ++ [happening] ∧ earlier <:+ history ∧
      earlier.Without drop ∧ drop happening = false := by
  obtain rfl | ⟨earlier, rfl, hearlier⟩ := List.suffix_concat_iff.mp hsegment
  · exact .inl rfl
  · exact .inr ⟨earlier, rfl, hearlier, (without_append.mp hwithout).1, hwithout happening (by simp)⟩

/-- Only what ends with what happens last can be too much. -/
theorem AtMostOnce.concat (h : history.AtMostOnce work drop)
    (hlast : ∀ earlier : History, earlier <:+ history → earlier.Without drop → drop happening = false →
      List.countP work (earlier ++ [happening]) ≤ 1) : History.AtMostOnce work drop (history ++ [happening]) := by
  intro segment hsegment hwithout
  rcases List.infix_concat_iff.mp hsegment with hsuffix | hbefore
  · obtain rfl | ⟨earlier, rfl, hearlier, hquiet, hkept⟩ := suffix_concat_cases hsuffix hwithout
    · exact Nat.zero_le 1
    · exact hlast earlier hearlier hquiet hkept
  · exact h segment hbefore hwithout

/-- The work is done at most once between drops, and if idle not since the last. -/
structure Thrifty (work drop : Happening → Bool) (history : History) (idle : Prop) : Prop where
  once : history.AtMostOnce work drop
  rested : idle → ∀ segment : History, segment <:+ history → segment.Without drop → segment.countP work = 0

namespace Thrifty

theorem nil : Thrifty work drop [] idle where
  once segment hsegment _ := by
    rw [List.infix_nil.mp hsegment]
    exact Nat.zero_le 1
  rested _ segment hsegment _ := by
    rw [List.suffix_nil.mp hsegment]
    rfl

variable (h : Thrifty work drop history idle)

include h

theorem mono (hidle : idle' → idle) : Thrifty work drop history idle' :=
  ⟨h.once, fun hidle' => h.rested (hidle hidle')⟩

theorem dropped (hdrop : drop happening = true) : Thrifty work drop (history ++ [happening]) idle' where
  once := h.once.concat fun _ _ _ hkept => by cases hdrop.symm.trans hkept
  rested _ segment hsegment hwithout := by
    obtain rfl | ⟨earlier, -, -, -, hkept⟩ := suffix_concat_cases hsegment hwithout
    · rfl
    · cases hdrop.symm.trans hkept

theorem other (hother : work happening = false) : Thrifty work drop (history ++ [happening]) idle := by
  have hcount (earlier : History) : List.countP work (earlier ++ [happening]) = earlier.countP work := by
    simp [hother]
  constructor
  · refine h.once.concat fun earlier hearlier hquiet _ => ?_
    rw [hcount]
    exact h.once earlier hearlier.isInfix hquiet
  · intro hidle segment hsegment hwithout
    obtain rfl | ⟨earlier, rfl, hearlier, hquiet, -⟩ := suffix_concat_cases hsegment hwithout
    · rfl
    · rw [hcount]
      exact h.rested hidle earlier hearlier hquiet

/-- Who is idle may work once. -/
theorem worked (hidle : idle) (hbusy : ¬ idle') : Thrifty work drop (history ++ [happening]) idle' := by
  constructor
  · refine h.once.concat fun earlier hearlier hquiet _ => ?_
    rw [List.countP_append, h.rested hidle earlier hearlier hquiet, Nat.zero_add]
    exact List.countP_le_length
  · exact fun hidle' => absurd hidle' hbusy

end Thrifty

end History

namespace Caches

variable {purpose : Purpose} {purposes : List Purpose} {before between after : Caches × History}

/-- What is compiled comes of a tree, and so do its errors. -/
def Sound (caches : Caches) : Prop :=
  ∀ found, caches.compiled = some found →
    ∃ tree, caches.tree = some tree ∧ ∀ error, tree = .error error → found = .error error

theorem Sound.compiled_eq_none {caches : Caches} (h : caches.Sound) (htree : caches.tree = none) :
    caches.compiled = none := by
  cases hcompiled : caches.compiled with
  | none => rfl
  | some found =>
    obtain ⟨tree, hsome, -⟩ := h found hcompiled
    cases htree.symm.trans hsome

theorem sound_of_compiled_eq_none {caches : Caches} (hcompiled : caches.compiled = none) : caches.Sound :=
  fun _ hfound => by cases hcompiled.symm.trans hfound

theorem Sound.renewed {caches : Caches} (h : caches.Sound) : caches.renewed.Sound := by
  unfold Caches.renewed
  split
  · exact sound_of_compiled_eq_none rfl
  · exact h

/-- No more is done than what the formula remembers makes necessary. -/
structure Frugal (seen : Caches × History) : Prop where
  parsesOnce : History.Thrifty parses dropsTree seen.2 (seen.1.tree = none)
  written : ∀ source, parsing source ∈ seen.2 → isBlankText source = false
  compilesOnce : History.Thrifty compiles dropsCode seen.2 (seen.1.compiled = none ∨ seen.1.outdated = true)
  sound : seen.1.Sound

section Step

variable (hstep : Step purpose before after)

include hstep

/-- Only where there is no tree is the source read. -/
theorem Step.parses_once (h : History.Thrifty parses dropsTree before.2 (before.1.tree = none)) :
    History.Thrifty parses dropsTree after.2 (after.1.tree = none) := by
  cases hstep with
  | outdate hfresh => exact h.other rfl
  | readBlank htree hblank => exact h.mono fun _ => htree
  | read found htree hblank => exact h.worked htree (Option.some_ne_none found)
  | renew houtdated => exact h
  | codeBlank htree hcompiled => exact h
  | codeError error htree hcompiled => exact h
  | code expr found mark htree hcompiled hfresh =>
    rw [List.append_cons]
    cases mark with
    | false => exact (List.append_nil _).symm ▸ h.other rfl
    | true => exact (h.other rfl).other rfl
  | dropTree source => exact h.dropped rfl
  | dropCode => exact h.other rfl

theorem Step.parses_written (h : ∀ source, parsing source ∈ before.2 → isBlankText source = false) :
    ∀ source, parsing source ∈ after.2 → isBlankText source = false := by
  intro source hmem
  cases hstep with
  | outdate hfresh => exact h source (by simpa using hmem)
  | readBlank htree hblank => exact h source hmem
  | read found htree hblank =>
    rcases List.mem_append.mp hmem with hearlier | hnow
    · exact h source hearlier
    · obtain rfl : source = _ := Happening.parsing.inj (List.mem_singleton.mp hnow)
      exact hblank
  | renew houtdated => exact h source hmem
  | codeBlank htree hcompiled => exact h source hmem
  | codeError error htree hcompiled => exact h source hmem
  | code expr found mark htree hcompiled hfresh => exact h source (by cases mark <;> simpa using hmem)
  | dropTree _ => exact h source (by simpa using hmem)
  | dropCode => exact h source (by simpa using hmem)

/-- Only where there is no compiled form that counts is the tree compiled. -/
theorem Step.compiles_once
    (h : History.Thrifty compiles dropsCode before.2 (before.1.compiled = none ∨ before.1.outdated = true)) :
    History.Thrifty compiles dropsCode after.2 (after.1.compiled = none ∨ after.1.outdated = true) := by
  cases hstep with
  | outdate hfresh => exact h.dropped rfl
  | readBlank htree hblank => exact h
  | read found htree hblank => exact h.other rfl
  | renew houtdated => exact h.mono fun _ => .inr houtdated
  | codeBlank htree hcompiled => exact h.mono fun _ => .inl hcompiled
  | codeError error htree hcompiled => exact h.mono fun _ => .inl hcompiled
  | @code caches history expr found mark htree hcompiled hfresh =>
    have hworked : History.Thrifty compiles dropsCode (history ++ [.compiling]) (some found = none ∨ false = true) :=
      h.worked (.inl hcompiled) (by simp)
    rw [List.append_cons]
    cases mark with
    | false => exact (List.append_nil _).symm ▸ hworked
    | true => exact hworked.dropped rfl
  | dropTree source => exact h.dropped rfl
  | dropCode => exact h.dropped rfl

/-- A formula gets a tree only when it has none, and then it has no compiled form either. -/
theorem Step.sound (h : before.1.Sound) : after.1.Sound := by
  cases hstep with
  | outdate hfresh => exact h
  | readBlank htree hblank => exact sound_of_compiled_eq_none (h.compiled_eq_none htree)
  | read found htree hblank => exact sound_of_compiled_eq_none (h.compiled_eq_none htree)
  | renew houtdated => exact sound_of_compiled_eq_none rfl
  | codeBlank htree hcompiled =>
    rintro _ ⟨⟩
    exact ⟨_, htree, fun error herror => by cases herror⟩
  | codeError error htree hcompiled =>
    rintro _ ⟨⟩
    exact ⟨_, htree, fun error' herror => by rw [Except.error.inj herror]⟩
  | code expr found mark htree hcompiled hfresh =>
    rintro _ ⟨⟩
    exact ⟨_, htree, fun error herror => by cases herror⟩
  | dropTree source => exact sound_of_compiled_eq_none rfl
  | dropCode => exact sound_of_compiled_eq_none rfl

theorem Step.frugal (h : Frugal before) : Frugal after :=
  ⟨hstep.parses_once h.parsesOnce, hstep.parses_written h.written, hstep.compiles_once h.compilesOnce,
    hstep.sound h.sound⟩

end Step

theorem frugal_of_compiled_eq_none {caches : Caches} (hcompiled : caches.compiled = none) : Frugal (caches, []) where
  parsesOnce := .nil
  written _ hmem := nomatch hmem
  compilesOnce := .nil
  sound := sound_of_compiled_eq_none hcompiled

theorem Steps.frugal (hsteps : Steps purposes before after) (h : Frugal before) : Frugal after := by
  induction hsteps with
  | refl => exact h
  | tail _ hstep ih =>
    obtain ⟨purpose, -, hstep⟩ := hstep
    exact hstep.frugal ih

/-! ## What stays -/

/-- The history has gone on, and as long as nothing in it is a drop all stays as it was. -/
structure GrownBy (more : History) (before after : Caches × History) : Prop where
  history : after.2 = before.2 ++ more
  tree : more.Without dropsTree → ∀ found, before.1.tree = some found → after.1.tree = some found
  fresh : more.Without dropsCode → before.1.outdated = false → after.1.outdated = false
  compiled : more.Without dropsCode → before.1.outdated = false →
    ∀ found, before.1.compiled = some found → after.1.compiled = some found

def Grown (before after : Caches × History) : Prop := ∃ more, GrownBy more before after

theorem GrownBy.trans {more more' : History} (h : GrownBy more before between) (h' : GrownBy more' between after) :
    GrownBy (more ++ more') before after where
  history := by rw [h'.history, h.history, List.append_assoc]
  tree hwithout found htree :=
    have hboth := History.without_append.mp hwithout
    h'.tree hboth.2 found (h.tree hboth.1 found htree)
  fresh hwithout hfresh :=
    have hboth := History.without_append.mp hwithout
    h'.fresh hboth.2 (h.fresh hboth.1 hfresh)
  compiled hwithout hfresh found hfound :=
    have hboth := History.without_append.mp hwithout
    h'.compiled hboth.2 (h.fresh hboth.1 hfresh) found (h.compiled hboth.1 hfresh found hfound)

theorem GrownBy.without_since {more more' : History} {drop : Happening → Bool} (h : GrownBy more before between)
    (h' : GrownBy more' between after) (hwithout : (after.2.since before.2).Without drop) :
    more.Without drop ∧ more'.Without drop := by
  rw [h'.history, h.history, List.append_assoc, History.since, List.drop_left] at hwithout
  exact History.without_append.mp hwithout

theorem Step.grown (hstep : Step purpose before after) : Grown before after := by
  -- where something has been dropped, nothing is promised
  have hdrop {drop : Happening → Bool} {more : History} {happening : Happening} {p : Prop}
      (hdrop : drop happening = true) (hmem : happening ∈ more) (hwithout : more.Without drop) : p := by
    cases hdrop.symm.trans (hwithout happening hmem)
  cases hstep with
  | outdate hfresh =>
    refine ⟨[.outdated], rfl, fun _ _ h => h, ?_, ?_⟩
    · exact hdrop rfl List.mem_cons_self
    · exact hdrop rfl List.mem_cons_self
  | readBlank htree hblank =>
    refine ⟨[], (List.append_nil _).symm, fun _ _ h => ?_, fun _ h => h, fun _ _ _ h => h⟩
    cases htree.symm.trans h
  | @read caches history found htree hblank =>
    refine ⟨[.parsing caches.source], rfl, fun _ _ h => ?_, fun _ h => h, fun _ _ _ h => h⟩
    cases htree.symm.trans h
  | renew houtdated =>
    refine ⟨[], (List.append_nil _).symm, fun _ _ h => h, fun _ _ => rfl, fun _ h => ?_⟩
    cases houtdated.symm.trans h
  | codeBlank htree hcompiled =>
    refine ⟨[], (List.append_nil _).symm, fun _ _ h => h, fun _ h => h, fun _ _ _ h => ?_⟩
    cases hcompiled.symm.trans h
  | codeError error htree hcompiled =>
    refine ⟨[], (List.append_nil _).symm, fun _ _ h => h, fun _ h => h, fun _ _ _ h => ?_⟩
    cases hcompiled.symm.trans h
  | code expr found mark htree hcompiled hfresh =>
    refine ⟨_, rfl, fun _ _ h => h, fun hwithout _ => ?_, fun _ _ _ h => ?_⟩
    · cases mark with
      | false => rfl
      | true => exact hdrop (rfl : dropsCode .outdated = true) (by simp) hwithout
    · cases hcompiled.symm.trans h
  | dropTree source =>
    refine ⟨[.treeDropped], rfl, ?_, ?_, ?_⟩
    all_goals exact hdrop rfl List.mem_cons_self
  | dropCode =>
    refine ⟨[.codeDropped], rfl, fun _ _ h => h, fun _ _ => rfl, ?_⟩
    exact hdrop rfl List.mem_cons_self

theorem Steps.grown (hsteps : Steps purposes before after) : Grown before after := by
  induction hsteps with
  | refl => exact ⟨[], (List.append_nil _).symm, fun _ _ h => h, fun _ h => h, fun _ _ _ h => h⟩
  | tail _ hstep ih =>
    obtain ⟨more, hmore⟩ := ih
    obtain ⟨purpose, -, hstep⟩ := hstep
    obtain ⟨more', hmore'⟩ := hstep.grown
    exact ⟨more ++ more', hmore.trans hmore'⟩

/-- Without coding nothing is compiled. -/
theorem Steps.count_compiling (hsteps : Steps purposes before after) (hpurposes : .coding ∉ purposes) :
    after.2.count .compiling = before.2.count .compiling := by
  induction hsteps with
  | refl => rfl
  | tail _ hstep ih =>
    obtain ⟨purpose, hpurpose, hstep⟩ := hstep
    rw [← ih]
    cases hstep with
    | renew | codeBlank | codeError | code => exact absurd hpurpose hpurposes
    | readBlank => rfl
    | outdate | read | dropTree | dropCode => simp

end Caches

end Formulary
