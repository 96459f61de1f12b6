import Formulary.Proofs.Keeping
import Formulary.Proofs.Sheet.Fresh

/-!
# Changes that are announced

The functions that a source calls change no variable unheard: one that no notice names has the value that it had
(`Sheet.find?_leftBySource`), and one that a notice names is known afterwards (`Sheet.contains_leftBySource`).
-/

namespace Formulary

/-- The variable that a function has set, by what it announces. -/
def Notice.setName? : Notice → Option String
  | .changed (.namespaceChanged name) => some name
  | .changed (.dependentChanged name?) => name?
  | .counted _ _ => none

theorem Sheet.setName?_setEvent (sheet : Sheet) (name : String) :
    (Notice.changed (sheet.setEvent name)).setName? = some name := by
  unfold Sheet.setEvent
  split <;> rfl

/-- These notices have been given, and whatever has changed, they name. -/
structure Announces (seen seen' : Sheet × List Notice) (notices : List Notice) : Prop where
  given : seen'.2 = seen.2 ++ notices
  kept : ∀ name, (∀ note ∈ notices, note.setName? ≠ some name) →
    seen'.1.variables.find? name = seen.1.variables.find? name
  known : ∀ note ∈ notices, ∀ name, note.setName? = some name → seen'.1.variables.contains name = true

namespace Announces

variable {seen seen' seen'' : Sheet × List Notice} {notices notices' : List Notice}

theorem refl (seen : Sheet × List Notice) : Announces seen seen [] :=
  ⟨(List.append_nil _).symm, fun _ _ => rfl, fun _ hnote => absurd hnote List.not_mem_nil⟩

theorem trans (h : Announces seen seen' notices) (h' : Announces seen' seen'' notices') :
    Announces seen seen'' (notices ++ notices') where
  given := by rw [h'.given, h.given, List.append_assoc]
  kept name hnone := by
    rw [h'.kept name fun note hnote => hnone note (List.mem_append_right _ hnote)]
    exact h.kept name fun note hnote => hnone note (List.mem_append_left _ hnote)
  known note hnote name hname := by
    by_cases hagain : ∃ note ∈ notices', note.setName? = some name
    · obtain ⟨note', hnote', hname'⟩ := hagain
      exact h'.known note' hnote' name hname'
    · -- it has been named before, and has kept its value since
      have hkept := h'.kept name fun note' hnote' hname' => hagain ⟨note', hnote', hname'⟩
      unfold Dictionary.contains
      rw [hkept]
      refine h.known note ((List.mem_append.1 hnote).resolve_right fun hlater => ?_) name hname
      exact hagain ⟨note, hlater, hname⟩

/-- A variable is set. -/
theorem setVariable (sheet : Sheet) (notices : List Notice) (name : String) (value : Value) :
    Announces (sheet, notices) (sheet.setVariable name value, notices ++ [.changed (sheet.setEvent name)])
      [.changed (sheet.setEvent name)] where
  given := rfl
  kept other hnone := by
    have hne := hnone _ List.mem_cons_self
    rw [sheet.setName?_setEvent] at hne
    exact Dictionary.find?_insert_of_ne _ _ fun heq => hne (congrArg some heq.symm)
  known note hnote other hother := by
    rw [List.mem_singleton.1 hnote, sheet.setName?_setEvent] at hother
    show ((sheet.variables.insert name value).find? other).isSome = true
    rw [← Option.some.inj hother, Dictionary.find?_insert_self]
    rfl

/-- A function has counted its calls. -/
theorem counted (sheet : Sheet) (notices : List Notice) (f : Function) (functionName : String) (calls : Nat) :
    Announces (sheet, notices) (sheet.register f, notices ++ [.counted functionName calls])
      [.counted functionName calls] where
  given := rfl
  kept _ _ := rfl
  known note hnote name hname := by
    rw [List.mem_singleton.1 hnote] at hname
    exact absurd hname.symm (Option.some_ne_none name)

end Announces

/-- All that has changed has been announced. -/
def Heard (seen seen' : Sheet × List Notice) : Prop := ∃ notices, Announces seen seen' notices

instance : IsPreorder (Sheet × List Notice) Heard where
  refl seen := ⟨[], .refl seen⟩
  trans := by
    rintro _ _ _ ⟨notices, h⟩ ⟨notices', h'⟩
    exact ⟨notices ++ notices', h.trans h'⟩

theorem setVariable_heard (name : String) (value : Value) :
    Keeps Heard (SheetAccess.heard.setVariable name value) :=
  fun (sheet, notices) => ⟨_, .setVariable sheet notices name value⟩

theorem readSheet_heard : Keeps Heard SheetAccess.heard.read := fun seen => ⟨[], .refl seen⟩

theorem callBody_heard (f : Function) (args : List Value) : Keeps Heard (SheetAccess.heard.callBody f args).run := by
  unfold SheetAccess.callBody
  cases f.body with
  | result run => exact keeps_ofExcept _
  | setting run =>
    exact readSheet_heard.lift.andThen fun sheet => SheetAccess.setAndAnswer_keeps setVariable_heard _
  | counter calls => exact fun (sheet, notices) => ⟨_, .counted sheet notices _ f.name (calls + 1)⟩

/-- **Calls.** All that evaluation asks of a sheet is announced. -/
theorem context_heard : (Sheet.context .heard).EachValue (Keeps Heard) where
  lookup _ _ := readSheet_heard.lift.andThen fun _ => keeps_ofExcept _
  lookupScoped _ _ _ := readSheet_heard.lift.andThen fun _ => keeps_ofExcept _
  call _ args := readSheet_heard.lift.andThen fun _ => (keeps_ofExcept _).andThen fun f => callBody_heard f args

namespace Sheet

variable (sheet : Sheet) (bindings : Bindings)

theorem announces_outcome (expr : Expr) :
    Announces (sheet, []) (sheet.outcome bindings expr).2 (sheet.outcome bindings expr).2.2 := by
  obtain ⟨notices, h⟩ := context_heard.walk bindings expr Expr.maxDepth (sheet, [])
  have hgiven : (sheet.outcome bindings expr).2.2 = notices := h.given
  rw [hgiven]
  exact h

/-- What a source does not announce to be set has the value that it had. -/
theorem find?_leftBySource {source name : String}
    (h : ∀ note ∈ sheet.noticesOfSource bindings source, note.setName? ≠ some name) :
    (sheet.leftBySource bindings source).find? name = sheet.variables.find? name := by
  unfold noticesOfSource at h
  unfold leftBySource
  split
  · next expr hparse =>
    rw [hparse] at h
    exact (sheet.announces_outcome bindings expr).kept name h
  · rfl
  · rfl

/-- What a source announces to be set is known. -/
theorem contains_leftBySource {source name : String} {note : Notice}
    (hnote : note ∈ sheet.noticesOfSource bindings source) (hname : note.setName? = some name) :
    (sheet.leftBySource bindings source).contains name = true := by
  unfold noticesOfSource at hnote
  unfold leftBySource
  split
  · next expr hparse =>
    rw [hparse] at hnote
    exact (sheet.announces_outcome bindings expr).known note hnote name hname
  · next hparse =>
    rw [hparse] at hnote
    exact absurd hnote List.not_mem_nil
  · next hparse =>
    rw [hparse] at hnote
    exact absurd hnote List.not_mem_nil

end Sheet

end Formulary
