import Formulary.Proofs.Sheet.Announced
import Formulary.Proofs.Workspace.Linked

/-!
# What commands have given

A formula has the source that it was given last, whatever else has been asked of the session
(`Session.follows_after`). A host has under each name the value that it was set to last, by a command or by a function,
and none if the name was removed since (`Session.values_after`).
-/

namespace Formulary

/-! ## What commands say -/

/-- What commands say of names: which stand for hosts, and which sources formulas have. -/
structure Given where
  hosts : String → Bool
  sources : String → Option String

namespace Given

def nothing : Given := ⟨fun _ => false, fun _ => none⟩

/-- What they say with a further command. -/
def after (given : Given) : Command → Given
  | .makeHost name _ _ => { given with hosts := Function.update given.hosts name true }
  | .dropHost name => { given with hosts := Function.update given.hosts name false }
  | .makeFormula name source _ host? =>
    if host?.all given.hosts then { given with sources := Function.update given.sources name (some source) }
    else given
  | .dropFormula name => { given with sources := Function.update given.sources name none }
  | .atFormula name (.setSource source) =>
    { given with sources := Function.update given.sources name ((given.sources name).map fun _ => source) }
  | .atFormula _ _ | .subscribe _ _ | .cancel _ | .dropSubscription _ | .countListeners _ | .atHost _ _ => given

/-- What commands say from the beginning. -/
def ofCommands (commands : List Command) : Given := commands.foldl after nothing

theorem after_atFormula (given : Given) (name : String) {command : FormulaCommand}
    (h : ∀ source, command ≠ .setSource source) : given.after (.atFormula name command) = given := by
  cases command with
  | setSource source => exact absurd rfl (h source)
  | _ => rfl

end Given

/-- The variables of a host after a command, if it had these before. -/
def HostCommand.valuesAfter (values : String → Option Value) : HostCommand → String → Option Value
  | .setVariable name value => Function.update values name (some value)
  | .removeVariable name => Function.update values name none
  | .readVariable _ | .register _ | .publish _ => values

namespace Session

open Workspace

/-! ## Sources -/

/-- The source of the formula that has a name. -/
def source? (s : Session) (name : String) : Option String :=
  (s.formulas.find? name).bind fun id => (s.workspace.formulas.find? id).map Formula.source

/-- Names stand for what commands say that they stand for. -/
structure Follows (s : Session) (given : Given) : Prop where
  hosts : s.hosts.contains = given.hosts
  sources : s.source? = given.sources

section Sources

variable {s : Session}

theorem source?_of_find? {name : String} {id : Nat} (hname : s.formulas.find? name = some id) :
    s.source? name = (s.workspace.formulas.find? id).map Formula.source := by
  rw [source?, hname, Option.bind_some]

theorem source?_of_none {name : String} (hname : s.formulas.find? name = none) : s.source? name = none := by
  rw [source?, hname, Option.bind_none]

/-- A name that stands for the same formula as before has the same source, if this formula has it. -/
theorem source?_congr_at {s' : Session} {name : String}
    (hname : s'.formulas.find? name = s.formulas.find? name)
    (hsource : ∀ id, s.formulas.find? name = some id →
      (s'.workspace.formulas.find? id).map Formula.source = (s.workspace.formulas.find? id).map Formula.source) :
    s'.source? name = s.source? name := by
  cases hfind : s.formulas.find? name with
  | none => rw [source?_of_none hfind, source?_of_none (hname.trans hfind)]
  | some id => rw [source?_of_find? hfind, source?_of_find? (hname.trans hfind), hsource id hfind]

theorem source?_congr {s' : Session} (hformulas : s'.formulas = s.formulas) (hsources : ∀ id,
    (s'.workspace.formulas.find? id).map Formula.source = (s.workspace.formulas.find? id).map Formula.source) :
    s'.source? = s.source? :=
  funext fun _ => source?_congr_at (by rw [hformulas]) fun id _ => hsources id

theorem Follows.congr {s' : Session} {given : Given} (h : s.Follows given) (hhosts : s'.hosts = s.hosts)
    (hsources : s'.source? = s.source?) : s'.Follows given :=
  ⟨hhosts ▸ h.hosts, hsources.trans h.sources⟩

theorem source?_setHost (id : Nat) (hostId : Option Nat) :
    source? { s with workspace := s.workspace.setHost id hostId } = s.source? :=
  source?_congr rfl (sources_setHost s.workspace id hostId)

variable (h : s.Named)

include h

theorem Named.source?_setSource {name : String} {id : Nat} (hname : s.formulas.find? name = some id)
    (source : String) : source? { s with workspace := s.workspace.setSource id source } =
      Function.update s.source? name ((s.source? name).map fun _ => source) := by
  funext other
  by_cases heq : other = name
  · rw [heq, Function.update_self, source?_of_find? hname]
    refine (source?_of_find? (s := { s with workspace := s.workspace.setSource id source }) hname).trans ?_
    rw [setSource_eq, find?_updateFormula, Option.map_map, Option.map_map]
    simp only [if_pos]
    rfl
  · rw [Function.update_of_ne heq]
    refine source?_congr_at rfl fun number hother => ?_
    rw [setSource_eq, find?_updateFormula]
    simp only [if_neg (h.number_ne hname hother heq), Option.map_id']

theorem Named.source?_dropFormula (name : String) :
    (s.dropFormula name).source? = Function.update s.source? name none := by
  unfold Session.dropFormula
  cases hname : s.formulas.find? name with
  | none =>
    rw [← source?_of_none hname, Function.update_eq_self]
  | some id =>
    funext other
    by_cases heq : other = name
    · rw [heq, Function.update_self]
      exact source?_of_none (Dictionary.find?_erase_self s.formulas name)
    · rw [Function.update_of_ne heq]
      refine source?_congr_at (Dictionary.find?_erase_of_ne s.formulas heq) fun number hother => ?_
      rw [find?_dropFormula, if_neg (h.number_ne hname hother heq)]

theorem Named.source?_makeFormula (hnumbered : s.workspace.formulas.Numbered) (name source : String)
    (strategy : Strategy) (hostId : Option Nat) : (s.makeFormula name source strategy hostId).source? =
      Function.update s.source? name (some source) := by
  have hfree := h.find?_ne_next hnumbered
  have hsources := s.workspace.sources_addFormula source strategy hostId hnumbered
  -- no name stands for the new formula until the older one of its name is gone
  have hadded : source? { s with workspace := s.workspace.addFormula source strategy hostId } = s.source? := by
    funext other
    refine source?_congr_at rfl fun id hother => ?_
    have hne : id ≠ s.workspace.formulas.next := fun heq => hfree other (heq ▸ hother)
    rw [hsources, if_neg hne]
  have hmade := h.addFormula source strategy hostId
  have hdropped := hmade.source?_dropFormula name
  rw [hadded] at hdropped
  funext other
  by_cases heq : other = name
  · have hnew := hsources s.workspace.formulas.next
    rw [if_pos rfl] at hnew
    rw [heq, Function.update_self, ← hnew]
    refine (source?_of_find? (Dictionary.find?_insert_self _ name s.workspace.formulas.next)).trans ?_
    exact congrArg (Option.map Formula.source) (Named.formula_dropFormula
      { s with workspace := s.workspace.addFormula source strategy hostId } (hfree name))
  · have hother := congrFun hdropped other
    rw [Function.update_of_ne heq] at hother ⊢
    rw [← hother]
    exact source?_congr_at (Dictionary.find?_insert_of_ne _ _ heq) fun _ _ => rfl

end Sources

section Follows

variable {s : Session} {given : Given} (h : s.Follows given)

include h

theorem Follows.makeFormula (hlinked : s.Linked) (name source : String) (strategy : Strategy) (hostId : Option Nat) :
    (s.makeFormula name source strategy hostId).Follows
      { given with sources := Function.update given.sources name (some source) } where
  hosts := by
    rw [← h.hosts]
    exact congrArg Dictionary.contains (hosts_dropFormula
      { s with workspace := s.workspace.addFormula source strategy hostId } name)
  sources := by rw [hlinked.named.source?_makeFormula hlinked.numbered, h.sources]

theorem Follows.dropFormula (hlinked : s.Linked) (name : String) : (s.dropFormula name).Follows
    { given with sources := Function.update given.sources name none } where
  hosts := by rw [hosts_dropFormula, h.hosts]
  sources := by rw [hlinked.named.source?_dropFormula, h.sources]

theorem Follows.dropSubscription (name : String) : (s.dropSubscription name).Follows given :=
  h.congr (s.hosts_dropSubscription name)
    (source?_congr (s.formulas_dropSubscription name) (Rechannels.dropSubscription s name).sources)

theorem Follows.atFormula (hnamed : s.Named) {name : String} {id : Nat} (hname : s.formulas.find? name = some id)
    (command : FormulaCommand) :
    ((performAtFormula id command).run s).2.Follows (given.after (.atFormula name command)) := by
  rcases atFormula_cases s id command with ⟨source, rfl⟩ | ⟨host?, rfl⟩ | ⟨hsource, w', hrun, hretains⟩
  · refine ⟨h.hosts, (hnamed.source?_setSource hname source).trans ?_⟩
    rw [h.sources]
    rfl
  · cases host? with
    | none => exact h.congr rfl (source?_setHost id none)
    | some host =>
      simp only [performAtFormula, StateT.run_bind, StateT.run_get, pure_bind]
      cases s.hosts.find? host with
      | none => exact h
      | some hostId => exact h.congr rfl (source?_setHost id (some hostId))
  · rw [hrun, given.after_atFormula name hsource]
    exact h.congr rfl (source?_congr rfl hretains.sources)

/-- **Commands.** What is as commands say is so after a further one. -/
theorem Follows.perform (hlinked : s.Linked) (command : Command) :
    ((perform command).run s).2.Follows (given.after command) := by
  cases command with
  | makeHost name setup sheet =>
    refine ⟨?_, (source?_congr rfl fun _ => rfl).trans h.sources⟩
    exact (Dictionary.contains_insert s.hosts name _).trans (by rw [h.hosts]; rfl)
  | makeFormula name source strategy host? =>
    cases host? with
    | none => exact h.makeFormula hlinked name source strategy none
    | some host =>
      have hknown : given.hosts host = (s.hosts.find? host).isSome := by rw [← h.hosts]; rfl
      simp only [Session.perform, Given.after, Option.all_some, hknown, StateT.run_bind, StateT.run_get, pure_bind]
      cases s.hosts.find? host with
      | none => exact h
      | some hostId => exact h.makeFormula hlinked name source strategy (some hostId)
  | subscribe name source =>
    simp only [Session.perform, StateT.run_bind, StateT.run_get, pure_bind]
    cases hsource : s.findSource? source with
    | none => exact h
    | some found =>
      obtain ⟨ledger, hconnected⟩ := hlinked.connected
      obtain ⟨channel, hchannel⟩ := hlinked.named.exists_channel hconnected hsource
      exact h.congr rfl (source?_congr rfl (Rechannels.subscribe hchannel name).sources)
  | cancel name =>
    rw [run_cancel]
    exact h.dropSubscription name
  | dropSubscription name => exact h.dropSubscription name
  | countListeners source =>
    rw [run_countListeners]
    exact h
  | dropFormula name => exact h.dropFormula hlinked name
  | dropHost name =>
    refine ⟨?_, (source?_congr rfl fun _ => rfl).trans h.sources⟩
    exact (Dictionary.contains_erase s.hosts name).trans (by rw [h.hosts]; rfl)
  | atHost name command =>
    simp only [Session.perform, StateT.run_bind, StateT.run_get, pure_bind]
    cases s.hosts.find? name with
    | none => exact h
    | some id =>
      obtain ⟨w', hrun, hretains⟩ := atHost_retains s id command
      dsimp only
      rw [hrun]
      exact h.congr rfl (source?_congr rfl hretains.sources)
  | atFormula name command =>
    simp only [Session.perform, StateT.run_bind, StateT.run_get, pure_bind]
    cases hname : s.formulas.find? name with
    | some id => exact h.atFormula hlinked.named hname command
    | none =>
      have hnone : given.sources name = none := by rw [← h.sources, source?_of_none hname]
      cases command with
      | setSource source =>
        refine ⟨h.hosts, h.sources.trans ?_⟩
        simp only [Given.after, hnone, Option.map_none]
        rw [← hnone, Function.update_eq_self]
      | _ => exact h

theorem Follows.runFrom (hlinked : s.Linked) (ledger : Ledger) (commands : List Command) :
    (runFrom s ledger commands).1.Follows (commands.foldl Given.after given) := by
  induction commands generalizing s ledger given with
  | nil => exact h
  | cons command commands ih => exact ih (h.perform hlinked command) (hlinked.perform command) _

end Follows

/-- **Sources.** Whatever commands are given, a formula has the source that one of them gave it last. -/
theorem follows_after (commands : List Command) : (after commands).Follows (.ofCommands commands) := by
  have hempty : empty.Follows .nothing := ⟨rfl, rfl⟩
  exact hempty.runFrom linked_empty [] commands

theorem source_after (commands : List Command) {name : String} {id : Nat}
    (hname : (after commands).formulas.find? name = some id) :
    (Given.ofCommands commands).sources name = some ((after commands).workspace.formula id).source := by
  obtain ⟨f, hf⟩ := (linked_after commands).named.exists_formula hname
  rw [← (follows_after commands).sources, source?_of_find? hname, formula_of_find? hf, hf]
  rfl

/-! ## Variables -/

/-- The variables of the hosts. -/
def values (s : Session) (id : Nat) : String → Option Value := (s.workspace.host id).sheet.variables.find?

/-- The variables of a host after functions have been called, if it had these before: what they have announced to be
set has the value that they leave. -/
def Calls.valuesAfter (calls : Calls) (values : String → Option Value) (name : String) : Option Value :=
  if calls.notices.any fun note => note.setName? = some name then calls.left.find? name else values name

/-- The variables of the hosts after a command, if they had these before. -/
def valuesAfter (s : Session) (values : Nat → String → Option Value) : Command → Nat → String → Option Value
  | .makeHost _ _ sheet => Function.update values s.workspace.hosts.next sheet.variables.find?
  | .atHost name command =>
    match s.hosts.find? name with
    | some id => Function.update values id (command.valuesAfter (values id))
    | none => values
  | .atFormula name command =>
    match (s.formulas.find? name).bind fun id => s.calls? id command with
    | some calls => Function.update values calls.host (calls.valuesAfter (values calls.host))
    | none => values
  | _ => values

section Values

variable {s : Session}

theorem values_congr {s' : Session} (h : SameSheets s.workspace s'.workspace) : s'.values = s.values := by
  funext id
  rw [values, values, h.sheet_host]

theorem values_settles {w' : Workspace} {id : Nat} (h : Settles s.workspace id w') :
    values { s with workspace := w' } = s.values := by
  funext other
  rw [values, values, (h.sheets other).1]

/-- A command to a host changes no other host's variables. -/
theorem values_atHost {id : Nat} {host : Host} (hhost : s.workspace.hosts.find? id = some host)
    (command : HostCommand) : ((performAtHost id command).run s).2.values =
      Function.update s.values id (command.valuesAfter (s.values id)) := by
  obtain ⟨w', hrun, hsince⟩ := since_atHost hhost command
  have hvalues : s.values id = host.sheet.variables.find? := by rw [values, host_of_find? hhost]
  funext other
  rw [hrun]
  by_cases heq : other = id
  · rw [heq, Function.update_self, hvalues, values, hsince.sheet_eq]
    cases command with
    | setVariable name value => exact Dictionary.find?_insert host.sheet.variables name value
    | removeVariable name => exact Dictionary.find?_erase host.sheet.variables name
    | _ => rfl
  · rw [Function.update_of_ne heq, values, values, hsince.sheet_of_ne heq]

/-- What functions leave is what they announce, and all else as it was. -/
theorem Calls.valuesAfter_ofSource (hostId : Nat) (sheet : Sheet) (bindings : Bindings) (source : String) :
    (Calls.ofSource hostId sheet bindings source).valuesAfter sheet.variables.find? =
      (Calls.ofSource hostId sheet bindings source).left.find? := by
  funext name
  unfold Calls.valuesAfter
  split
  · rfl
  · next hnone =>
    refine (sheet.find?_leftBySource bindings fun note hnote hname => hnone ?_).symm
    exact List.any_eq_true.2 ⟨note, hnote, decide_eq_true hname⟩

variable {ledger : Ledger} (h : s.Valid ledger)

include h

/-- What a command has functions do, it has them do in the sheet of a host. -/
theorem Valid.exists_ofSource {id : Nat} {command : FormulaCommand} {calls : Calls}
    (hcalls : s.calls? id command = some calls) : ∃ bindings, calls =
      .ofSource calls.host (s.workspace.host calls.host).sheet bindings (s.workspace.formula id).source := by
  have hsheet := h.connected.sheet_hostOf (s.workspace.formula id)
  cases command with
  | evaluate _ bindings | run bindings =>
    obtain rfl := Option.some.inj hcalls
    refine ⟨bindings, ?_⟩
    rw [← hsheet]
    rfl
  | callCompiled name bindings =>
    obtain ⟨hostId, -, rfl⟩ := Option.map_eq_some_iff.1 hcalls
    exact ⟨bindings, rfl⟩
  | _ => exact absurd hcalls.symm (Option.some_ne_none calls)

theorem Valid.values_atFormula {id : Nat} {f : Formula} (hf : s.workspace.formulas.find? id = some f)
    (command : FormulaCommand) : ((performAtFormula id command).run s).2.values = match s.calls? id command with
      | some calls => Function.update s.values calls.host (calls.valuesAfter (s.values calls.host))
      | none => s.values := by
  cases hedits : command.edits with
  | false =>
    obtain ⟨w', hrun, hcomputes⟩ := h.computes_atFormula hf hedits
    rw [hrun]
    cases hcalls : s.calls? id command with
    | none =>
      rw [hcalls] at hcomputes
      exact values_settles hcomputes
    | some calls =>
      rw [hcalls] at hcomputes
      obtain ⟨bindings, hsource⟩ := h.exists_ofSource hcalls
      have hleft : calls.valuesAfter (s.values calls.host) = calls.left.find? := by
        rw [hsource]
        exact Calls.valuesAfter_ofSource calls.host _ bindings _
      dsimp only
      rw [hleft]
      funext other
      rw [values, hcomputes.values]
      by_cases heq : other = calls.host
      · rw [if_pos heq, heq, Function.update_self]
      · rw [if_neg heq, Function.update_of_ne heq, values]
  | true =>
    cases command with
    | setHost host? =>
      cases host? with
      | none => exact values_congr (.setHost s.workspace id none)
      | some host =>
        simp only [performAtFormula, calls?, StateT.run_bind, StateT.run_get, pure_bind]
        cases s.hosts.find? host with
        | none => rfl
        | some hostId => exact values_congr (.setHost s.workspace id (some hostId))
    | setSource | setStrategy | invalidate | invalidateCode => rfl
    | _ => exact absurd hedits Bool.false_ne_true

theorem Valid.values_makeHost (name : String) (setup : HostSetup) (sheet : Sheet) :
    (s.makeHost name setup sheet).values =
      Function.update s.values s.workspace.hosts.next sheet.variables.find? := by
  funext other
  have hfind := s.workspace.find?_addHost other setup sheet
  by_cases heq : other = s.workspace.hosts.next
  · rw [heq, h.connected.find?_nextHost, if_pos rfl] at hfind
    rw [heq, Function.update_self]
    exact congrArg (fun host : Host => host.sheet.variables.find?) (host_of_find? hfind)
  · rw [if_neg heq, Option.or_none] at hfind
    rw [Function.update_of_ne heq]
    exact congrArg (fun host? : Option Host => (host?.getD default).sheet.variables.find?) hfind

omit h in
theorem values_dropFormula (s : Session) (name : String) : (s.dropFormula name).values = s.values := by
  unfold Session.dropFormula
  split
  · rfl
  · next id _ => exact values_congr (.detach s.workspace id)

omit h in
theorem values_makeFormula (name source : String) (strategy : Strategy) (hostId : Option Nat) :
    (s.makeFormula name source strategy hostId).values = s.values := by
  have hadded : values { s with workspace := s.workspace.addFormula source strategy hostId } = s.values := by
    cases hostId with
    | none => rfl
    | some hostId => exact values_congr (.setHost _ s.workspace.formulas.next (some hostId))
  exact (values_dropFormula _ name).trans hadded

/-- **Commands.** A command changes the variables of hosts as `valuesAfter` says, and no others. -/
theorem Valid.values_perform (command : Command) :
    ((Session.perform command).run s).2.values = s.valuesAfter s.values command := by
  cases command with
  | makeHost name setup sheet => exact h.values_makeHost name setup sheet
  | makeFormula name source strategy host? =>
    cases host? with
    | none => exact values_makeFormula name source strategy none
    | some host =>
      simp only [Session.perform, valuesAfter, StateT.run_bind, StateT.run_get, pure_bind]
      cases s.hosts.find? host with
      | none => rfl
      | some hostId => exact values_makeFormula name source strategy (some hostId)
  | subscribe name source =>
    simp only [Session.perform, valuesAfter, StateT.run_bind, StateT.run_get, pure_bind]
    cases hsource : s.findSource? source with
    | none => rfl
    | some found =>
      obtain ⟨channel, hchannel⟩ := h.named.exists_channel h.connected hsource
      exact values_congr (Rechannels.subscribe hchannel name).sheets
  | cancel name =>
    rw [run_cancel]
    exact values_congr (Rechannels.dropSubscription s name).sheets
  | dropSubscription name => exact values_congr (Rechannels.dropSubscription s name).sheets
  | countListeners source =>
    rw [run_countListeners]
    rfl
  | dropFormula name => exact values_dropFormula s name
  | dropHost name => rfl
  | atHost name command =>
    simp only [Session.perform, valuesAfter, StateT.run_bind, StateT.run_get, pure_bind]
    cases hname : s.hosts.find? name with
    | none => rfl
    | some id =>
      obtain ⟨host, hhost⟩ := h.exists_host hname
      exact values_atHost hhost command
  | atFormula name command =>
    simp only [Session.perform, valuesAfter, StateT.run_bind, StateT.run_get, pure_bind]
    cases hname : s.formulas.find? name with
    | none => rfl
    | some id =>
      obtain ⟨f, hf⟩ := h.exists_formula hname
      exact h.values_atFormula hf command

end Values

/-- The variables of the hosts after commands, if they had these before. -/
def valuesFrom (s : Session) (values : Nat → String → Option Value) :
    List Command → Nat → String → Option Value
  | [] => values
  | command :: commands => valuesFrom (s.step command).1 (s.valuesAfter values command) commands

/-- The variables that the hosts have from commands. -/
def valuesGiven (commands : List Command) : Nat → String → Option Value :=
  empty.valuesFrom (fun _ _ => none) commands

theorem Valid.values_runFrom {s : Session} {ledger : Ledger} (h : s.Valid ledger) {commands : List Command}
    (hplain : ∀ command ∈ commands, command.Plain) :
    (Session.runFrom s ledger commands).1.values = s.valuesFrom s.values commands := by
  induction commands generalizing s ledger with
  | nil => rfl
  | cons command commands ih =>
    have hvalues : (s.step command).1.values = s.valuesAfter s.values command := h.values_perform command
    have hstep := (h.perform (hplain command List.mem_cons_self)).valid
    have hrest := ih hstep fun other hother => hplain other (List.mem_cons_of_mem command hother)
    rw [valuesFrom, ← hvalues]
    exact hrest

/-- **Variables.** Whatever commands are given, a host has under each name the value that a command or a function
set it to last, and none once the name has been removed. -/
theorem values_after {commands : List Command} (hplain : ∀ command ∈ commands, command.Plain) :
    (after commands).values = valuesGiven commands := valid_empty.values_runFrom hplain

/-- So a host knows the names that have been set and not removed since. -/
theorem contains_after {commands : List Command} (hplain : ∀ command ∈ commands, command.Plain) (id : Nat)
    (name : String) : ((after commands).workspace.host id).sheet.variables.contains name =
      (valuesGiven commands id name).isSome := by
  rw [← values_after hplain]
  rfl

end Session

end Formulary
