import Formulary.Proofs.Workspace.Evaluation
import Formulary.Proofs.Workspace.Names

/-!
# Commands

`Session.Valid` is what commands keep: the workspace is sound and connected as the ledger says, and names stand for
what there is. `Session.published` says which events a command has which hosts publish, and `Ledger.after` who
listens to whom after it. Here are the commands to a host (`Session.Valid.atHost`) and to a formula
(`Session.Valid.atFormula`).
-/

namespace Formulary

/-! ## Commands -/

def FormulaCommand.Plain : FormulaCommand → Prop
  | .setSource source => source.length ≤ 2 ^ 64
  | _ => True

/-- Whether a command changes the formula itself. -/
def FormulaCommand.edits : FormulaCommand → Bool
  | .setSource _ | .setHost _ | .setStrategy _ | .invalidate | .invalidateCode => true
  | _ => false

/-- Hosts are no more than their sheets, and the length of a source is a number that the machine has. -/
def Command.Plain : Command → Prop
  | .makeHost _ setup sheet => setup.Plain ∧ sheet.functions.Named
  | .makeFormula _ source _ _ => source.length ≤ 2 ^ 64
  | .atFormula _ command => command.Plain
  | _ => True

def Notice.event? : Notice → Option ChangeEvent
  | .changed event => some event
  | .counted _ _ => none

/-- The events that a command has a host of this sheet publish. -/
def HostCommand.published (sheet : Sheet) : HostCommand → List ChangeEvent
  | .setVariable name _ =>
    if sheet.variables.contains name then [.dependentChanged (some name)] else [.namespaceChanged name]
  | .removeVariable name => if sheet.variables.contains name then [.namespaceChanged name] else []
  | .readVariable _ => []
  | .register f => [.namespaceChanged f.name]
  | .publish event => [event]

/-- The sheet of a host after a command. -/
def HostCommand.sheetAfter (sheet : Sheet) : HostCommand → Sheet
  | .setVariable name value => sheet.setVariable name value
  | .removeVariable name => sheet.removeVariable name
  | .register f => sheet.register f
  | .readVariable _ | .publish _ => sheet

theorem HostCommand.published_setVariable (sheet : Sheet) (name : String) (value : Value) :
    (HostCommand.setVariable name value).published sheet = [sheet.setEvent name] := by
  show (if sheet.variables.contains name then _ else _) = [if sheet.variables.contains name then _ else _]
  split <;> rfl

theorem HostCommand.published_removeVariable (sheet : Sheet) (name : String) :
    (HostCommand.removeVariable name).published sheet = (sheet.removeEvent? name).toList := by
  show (if sheet.variables.contains name then _ else _) =
    (if sheet.variables.contains name then _ else _ : Option ChangeEvent).toList
  split <;> rfl

namespace Session

/-- What functions do that are called: the host where they are, what they announce there, and the variables that
they leave. -/
structure Calls where
  host : Nat
  notices : List Notice
  left : Dictionary Value

/-- What the functions of a host do that a source calls. -/
def Calls.ofSource (hostId : Nat) (sheet : Sheet) (bindings : Bindings) (source : String) : Calls :=
  ⟨hostId, sheet.noticesOfSource bindings source, sheet.leftBySource bindings source⟩

/-- What a command to a formula has functions do, if it evaluates the formula. -/
def calls? (s : Session) (id : Nat) : FormulaCommand → Option Calls
  | .evaluate _ bindings | .run bindings =>
    let f := s.workspace.formula id
    some (.ofSource (s.workspace.hostOf f) (s.workspace.sheetOf f) bindings f.source)
  | .callCompiled name bindings =>
    (s.hosts.find? name).map fun hostId =>
      .ofSource hostId (s.workspace.host hostId).sheet bindings (s.workspace.formula id).source
  | _ => none

/-- The events that a command to a formula has hosts publish, which are those of the functions that it calls. -/
def publishedByFormula (s : Session) (id : Nat) : FormulaCommand → List (Nat × ChangeEvent)
  | .evaluate _ bindings | .run bindings =>
    let f := s.workspace.formula id
    (((s.workspace.sheetOf f).noticesOfSource bindings f.source).filterMap Notice.event?).map
      (s.workspace.hostOf f, ·)
  | .callCompiled name bindings =>
    match s.hosts.find? name with
    | some hostId =>
      (((s.workspace.host hostId).sheet.noticesOfSource bindings (s.workspace.formula id).source).filterMap
        Notice.event?).map (hostId, ·)
    | none => []
  | _ => []

theorem publishedByFormula_eq (s : Session) (id : Nat) (command : FormulaCommand) :
    s.publishedByFormula id command = match s.calls? id command with
      | some calls => (calls.notices.filterMap Notice.event?).map (calls.host, ·)
      | none => [] := by
  cases command with
  | callCompiled name bindings =>
    simp only [publishedByFormula, calls?]
    cases s.hosts.find? name <;> rfl
  | _ => rfl

/-- The events that a command has hosts publish. -/
def published (s : Session) : Command → List (Nat × ChangeEvent)
  | .atHost name command =>
    match s.hosts.find? name with
    | some id => (command.published (s.workspace.host id).sheet).map (id, ·)
    | none => []
  | .atFormula name command =>
    match s.formulas.find? name with
    | some id => s.publishedByFormula id command
    | none => []
  | _ => []

end Session

namespace Ledger

/-- A formula has come, attached to a host or to none. -/
def join (ledger : Ledger) (id : Nat) : Option Nat → Ledger
  | some hostId => ledger.listen (.host hostId) (.formula id)
  | none => ledger

/-- A formula has gone, if there was one. -/
def drop (ledger : Ledger) : Option Nat → Ledger
  | some id => (ledger.without (.formula id)).close (.formula id)
  | none => ledger

/-- Who listens to whom after a command to a formula. -/
def afterAtFormula (ledger : Ledger) (s s' : Session) (id : Nat) : FormulaCommand → Ledger
  | .setHost none => ledger.without (.formula id)
  | .setHost (some name) =>
    match s.hosts.find? name with
    | some hostId => ledger.listen (.host hostId) (.formula id)
    | none => ledger
  | _ => Workspace.settled ledger s.workspace s'.workspace id

/-- Who listens to whom after a command. -/
def after (ledger : Ledger) (s s' : Session) : Command → Ledger
  | .makeFormula name _ _ none => ledger.drop (s.formulas.find? name)
  | .makeFormula name _ _ (some host) =>
    match s.hosts.find? host with
    | some hostId => (ledger.join s.workspace.formulas.next (some hostId)).drop (s.formulas.find? name)
    | none => ledger
  | .subscribe name source =>
    match s.findSource? source with
    | some source => ledger.listen source (.outside name)
    | none => ledger
  | .cancel name | .dropSubscription name => ledger.without (.outside name)
  | .dropFormula name => ledger.drop (s.formulas.find? name)
  | .atFormula name command =>
    match s.formulas.find? name with
    | some id => ledger.afterAtFormula s s' id command
    | none => ledger
  | .makeHost _ _ _ | .countListeners _ | .dropHost _ | .atHost _ _ => ledger

theorem flatMap_told (ledger : Ledger) (hostId : Nat) (notices : List Notice) :
    notices.flatMap (ledger.told hostId) = ((notices.filterMap Notice.event?).map (hostId, ·)).flatMap
      fun entry => ledger.deliveries entry.1 entry.2 := by
  induction notices with
  | nil => rfl
  | cons note notices ih =>
    cases note with
    | changed event => exact congrArg (ledger.deliveries hostId event ++ ·) ih
    | counted functionName calls => exact ih

end Ledger

namespace Session

open Workspace

/-! ## Valid sessions -/

structure Valid (s : Session) (ledger : Ledger) : Prop where
  connected : s.workspace.Connected s.subscriptions ledger
  sound : s.workspace.Sound
  host_lt : ∀ name id, s.hosts.find? name = some id → id < s.workspace.hosts.next
  formula : ∀ name id, s.formulas.find? name = some id → (s.workspace.formulas.find? id).isSome
  distinct : ∀ name name' id, s.formulas.find? name = some id → s.formulas.find? name' = some id → name = name'

/-- From a session to a valid one, by way of these events. -/
structure Steps (s s' : Session) (ledger' : Ledger) (events : List (Nat × ChangeEvent)) : Prop where
  valid : s'.Valid ledger'
  tells : Tells s.workspace s'.workspace (events.flatMap fun entry => ledger'.deliveries entry.1 entry.2)

theorem valid_empty : empty.Valid [] where
  connected := by
    have hchannels : empty.workspace.channel? = fun _ => none := by
      funext source
      cases source <;> rfl
    have hheld : empty.workspace.held? empty.subscriptions = fun _ => none := by
      funext listener
      cases listener <;> rfl
    constructor
    case wired =>
      rw [hchannels, hheld]
      exact .noChannels
    case unique => exact List.nodup_nil
    case hosts =>
      intro id
      exact ⟨fun hsome => absurd hsome Bool.false_ne_true, fun hlt => absurd hlt (Nat.not_lt_zero id)⟩
    case formulas => exact Table.numbered_empty
    case handed =>
      intro listener subscription hlistener
      rw [hheld] at hlistener
      exact absurd hlistener.symm (Option.some_ne_none _)
  sound := by
    constructor
    case plain => exact fun _ _ hhost => absurd hhost.symm (Option.some_ne_none _)
    case fresh => exact fun _ _ hf => absurd hf.symm (Option.some_ne_none _)
    case length => exact fun _ _ hf => absurd hf.symm (Option.some_ne_none _)
  host_lt _ _ hid := absurd hid.symm (Option.some_ne_none _)
  formula _ _ hid := absurd hid.symm (Option.some_ne_none _)
  distinct _ _ _ hid := absurd hid.symm (Option.some_ne_none _)

section Valid

variable {s : Session} {ledger : Ledger} (h : s.Valid ledger)

include h

theorem Valid.refl : Steps s s ledger [] := ⟨h, .refl s.workspace⟩

theorem Valid.named : s.Named := ⟨h.host_lt, h.formula, h.distinct⟩

omit h in
theorem Named.valid (hnamed : s.Named) (hconnected : s.workspace.Connected s.subscriptions ledger)
    (hsound : s.workspace.Sound) : s.Valid ledger :=
  ⟨hconnected, hsound, hnamed.host_lt, hnamed.formula, hnamed.distinct⟩

/-- The workspace changes, and what had a name is still there. -/
theorem Valid.move {w' : Workspace} {ledger' : Ledger} (hconnected : w'.Connected s.subscriptions ledger')
    (hsound : w'.Sound) (hnext : s.workspace.hosts.next ≤ w'.hosts.next)
    (hformulas : ∀ id, (s.workspace.formulas.find? id).isSome → (w'.formulas.find? id).isSome) :
    Valid { s with workspace := w' } ledger' := by
  have hnamed : Named { s with workspace := w' } := h.named.move rfl rfl hnext hformulas
  exact hnamed.valid hconnected hsound

theorem Valid.exists_host {name : String} {id : Nat} (hid : s.hosts.find? name = some id) :
    ∃ host, s.workspace.hosts.find? id = some host := h.connected.exists_host (h.host_lt name id hid)

theorem Valid.exists_formula {name : String} {id : Nat} (hid : s.formulas.find? name = some id) :
    ∃ f, s.workspace.formulas.find? id = some f := Option.isSome_iff_exists.1 (h.formula name id hid)

/-- Something has been evaluated. -/
theorem Valid.evaluates {id hostId : Nat} {left : Dictionary Value} {notices : List Notice} {w' : Workspace}
    (hw' : Evaluates s.workspace id hostId left notices w') :
    Steps s { s with workspace := w' } (settled ledger s.workspace w' id)
      ((notices.filterMap Notice.event?).map (hostId, ·)) where
  valid := by
    refine h.move (hw'.connected h.connected) hw'.sound hw'.nextHost fun other hother => ?_
    rwa [hw'.formulas]
  tells := by
    rw [← Ledger.flatMap_told]
    exact hw'.tells h.connected

theorem Valid.settles {id : Nat} {w' : Workspace} (hw' : Settles s.workspace id w') :
    Steps s { s with workspace := w' } (settled ledger s.workspace w' id) [] :=
  h.evaluates (hw'.evaluates 0)

/-- A host has been given another sheet and has given notices. -/
theorem Valid.since {id : Nat} {sheet : Sheet} {notices : List Notice} {w' : Workspace}
    (hw' : Since s.workspace id w' (sheet, notices)) (hnamed : sheet.functions.Named)
    (hchange : sheet.isAggregate = (s.workspace.host id).sheet.isAggregate ∨
      notices.any Notice.outdatesCode = true) :
    Steps s { s with workspace := w' } ledger ((notices.filterMap Notice.event?).map (id, ·)) where
  valid := by
    refine h.move (hw'.connected h.connected) (hw'.sound h.sound h.connected hnamed hchange)
      (Nat.le_of_eq hw'.nextHost.symm) fun other hother => ?_
    rwa [hw'.formula, Option.isSome_map]
  tells := by
    rw [← Ledger.flatMap_told, ← funext (h.connected.heardOf_eq id)]
    exact hw'.tells

/-- A formula changes, but not its connections. -/
theorem Valid.updateFormula {id : Nat} {w' : Workspace} (hsound : w'.Sound) {change : Formula → Formula}
    (hw' : w' = s.workspace.updateFormula id change) (hchannel : ∀ f, (change f).channel = f.channel)
    (hattachment : ∀ f, (change f).attachment = f.attachment) :
    Steps s { s with workspace := w' } (settled ledger s.workspace w' id) [] := by
  subst hw'
  have hkept : ((s.workspace.updateFormula id change).formula id).attachment =
      (s.workspace.formula id).attachment := by
    rw [Workspace.formula, Workspace.formula, find?_updateFormula]
    cases s.workspace.formulas.find? id with
    | none => rfl
    | some f => simp [hattachment]
  rw [settled_of_attachment ledger hkept]
  refine ⟨h.move (h.connected.updateFormula id hchannel hattachment) hsound (Nat.le_refl _) fun other hother => ?_,
    .of_journal_eq rfl⟩
  rwa [find?_updateFormula, Option.isSome_map]

/-! ## Commands to hosts -/

omit h in
theorem run_removeVariable (id : Nat) (name : String) (w : Workspace) :
    ((access id).removeVariable name).run w = ((), match (w.host id).sheet.removeEvent? name with
      | some event => (w.updateHost id fun host =>
          { host with sheet := host.sheet.removeVariable name }).notice id (.changed event)
      | none => w.updateHost id fun host => { host with sheet := host.sheet.removeVariable name }) := by
  have hread : (access id).read.run w = ((w.host id).sheet, w) := rfl
  unfold SheetAccess.removeVariable
  rw [StateT.run_bind, hread]
  show ((access id).update (·.removeVariable name) >>= fun _ => _).run w = _
  rw [StateT.run_bind]
  cases (w.host id).sheet.removeEvent? name <;> rfl

omit h in
/-- What a command to a host does: the sheet changes, and the host publishes. -/
theorem since_atHost {id : Nat} {host : Host} (hhost : s.workspace.hosts.find? id = some host)
    (command : HostCommand) : ∃ w', ((performAtHost id command).run s).2 = { s with workspace := w' } ∧
      Since s.workspace id w' (command.sheetAfter host.sheet, (command.published host.sheet).map .changed) := by
  have hstart := Since.refl hhost
  cases command with
  | setVariable name value =>
    have hsince := (hstart.update (·.setVariable name value)).notice (.changed (host.sheet.setEvent name))
    rw [HostCommand.published_setVariable]
    rw [← host_of_find? hhost] at hsince ⊢
    exact ⟨_, rfl, hsince⟩
  | removeVariable name =>
    have hupdated := hstart.update (·.removeVariable name)
    have hrun : ((performAtHost id (.removeVariable name)).run s).2 =
        { s with workspace := (((access id).removeVariable name).run s.workspace).2 } := rfl
    rw [run_removeVariable, host_of_find? hhost] at hrun
    rw [hrun, HostCommand.published_removeVariable]
    cases host.sheet.removeEvent? name with
    | none => exact ⟨_, rfl, hupdated⟩
    | some event => exact ⟨_, rfl, hupdated.notice (.changed event)⟩
  | readVariable name => exact ⟨_, rfl, hstart⟩
  | register f => exact ⟨_, rfl, (hstart.update (·.register f)).notice (.changed (.namespaceChanged f.name))⟩
  | publish event => exact ⟨_, rfl, hstart.notice (.changed event)⟩

theorem Valid.atHost {id : Nat} {host : Host} (hhost : s.workspace.hosts.find? id = some host)
    (command : HostCommand) : Steps s ((performAtHost id command).run s).2 ledger
      ((command.published (s.workspace.host id).sheet).map (id, ·)) := by
  have hnamed := (h.sound.plain id host hhost).2
  obtain ⟨w', hrun, hsince⟩ := since_atHost hhost command
  have hevents : ((command.published host.sheet).map Notice.changed).filterMap Notice.event? =
      command.published host.sheet := by
    rw [List.filterMap_map]
    exact List.filterMap_some
  rw [hrun, host_of_find? hhost, ← hevents]
  -- only a registration changes the functions, and it is published
  cases command with
  | register f => exact h.since hsince (Registry.Named.register hnamed f) (.inr rfl)
  | _ => exact h.since hsince hnamed (.inl (by rw [host_of_find? hhost]; rfl))

/-! ## Commands to formulas -/

/-- A formula gets another host, or none. -/
theorem Valid.setHost {ledger' : Ledger} (id : Nat) (hostId : Option Nat)
    (hconnected : (s.workspace.setHost id hostId).Connected s.subscriptions ledger') :
    Steps s { s with workspace := s.workspace.setHost id hostId } ledger' [] where
  valid := by
    refine h.move hconnected (h.sound.setHost id hostId) (Nat.le_of_eq (nextHost_setHost _ id hostId).symm)
      fun other hother => ?_
    rwa [isSome_setHost]
  tells := .of_journal_eq (journal_setHost s.workspace id hostId)

/-- A command that does not change the formula itself evaluates it, or has it settle. -/
theorem Valid.computes_atFormula {id : Nat} {f : Formula} (hf : s.workspace.formulas.find? id = some f)
    {command : FormulaCommand} (hedits : command.edits = false) :
    ∃ w', ((performAtFormula id command).run s).2 = { s with workspace := w' } ∧
      match s.calls? id command with
      | some calls => Evaluates s.workspace id calls.host calls.left calls.notices w'
      | none => Settles s.workspace id w' := by
  have hrefl : Settles s.workspace id s.workspace := .refl h.sound hf
  have hwithin : ∀ {α : Type} {compute : WorkspaceM α} {result : α} {w' : Workspace},
      compute.run s.workspace = (result, w') → ((within compute).run s).2 = { s with workspace := w' } := by
    intro α compute result w' hrun
    have hstep : ((within compute).run s).2 = { s with workspace := (compute.run s.workspace).2 } := rfl
    rw [hstep, hrun]
  have hevaluate : ∀ strategy bindings, ∃ w',
      ((performAtFormula id (.evaluate strategy bindings)).run s).2 = { s with workspace := w' } ∧
        Evaluates s.workspace id (s.workspace.hostOf f) ((s.workspace.sheetOf f).leftBySource bindings f.source)
          ((s.workspace.sheetOf f).noticesOfSource bindings f.source) w' := by
    intro strategy bindings
    obtain ⟨w', hvalue, hevaluates⟩ := runIn_evaluate h.connected hf bindings h.sound strategy
    exact ⟨w', hwithin hvalue, hevaluates⟩
  rw [← formula_of_find? hf] at hevaluate
  cases command with
  | setSource | setHost | setStrategy | invalidate | invalidateCode => exact absurd hedits.symm Bool.false_ne_true
  | readSource | hasHost | describe => exact ⟨_, rfl, hrefl⟩
  | readTree =>
    obtain ⟨w', htree, hsettles⟩ := runIn_tree h.sound hf
    exact ⟨w', hwithin htree, hsettles⟩
  | readCompiled =>
    obtain ⟨w', hcompiled, hsettles⟩ := runIn_compiled h.sound h.connected hf
    exact ⟨w', hwithin hcompiled, hsettles⟩
  | hasAggregates =>
    obtain ⟨w', haggregates, hsettles⟩ := run_hasAggregates h.sound h.connected hf
    have hrun := hwithin haggregates
    exact ⟨w', hrun, hsettles⟩
  | references =>
    obtain ⟨w', hreferences, hsettles⟩ := runIn_references h.sound hf
    exact ⟨w', hwithin hreferences, hsettles⟩
  | evaluate strategy bindings => exact hevaluate strategy bindings
  | run bindings => exact hevaluate (s.workspace.formula id).strategy bindings
  | callCompiled name bindings =>
    simp only [performAtFormula, calls?, StateT.run_bind, StateT.run_get, pure_bind]
    cases hname : s.hosts.find? name with
    | none => exact ⟨_, rfl, hrefl⟩
    | some hostId =>
      obtain ⟨host, hhost⟩ := h.exists_host hname
      obtain ⟨w', hvalue, hevaluates⟩ := runIn_callCompiled h.connected hf bindings h.sound hhost
      rw [← formula_of_find? hf, ← host_of_find? hhost] at hevaluates
      exact ⟨w', hwithin hvalue, hevaluates⟩

theorem Valid.atFormula {id : Nat} {f : Formula} (hf : s.workspace.formulas.find? id = some f)
    {command : FormulaCommand} (hplain : command.Plain) : Steps s ((performAtFormula id command).run s).2
      (ledger.afterAtFormula s ((performAtFormula id command).run s).2 id command)
      (s.publishedByFormula id command) := by
  cases hedits : command.edits with
  | false =>
    obtain ⟨w', hrun, hcomputes⟩ := h.computes_atFormula hf hedits
    have hledger : ledger.afterAtFormula s { s with workspace := w' } id command =
        settled ledger s.workspace w' id := by
      cases command with
      | setHost => exact absurd hedits.symm Bool.false_ne_true
      | _ => rfl
    rw [hrun, hledger, publishedByFormula_eq]
    cases hcalls : s.calls? id command with
    | none =>
      rw [hcalls] at hcomputes
      exact h.settles hcomputes
    | some calls =>
      rw [hcalls] at hcomputes
      exact h.evaluates hcomputes
  | true =>
    cases command with
    | setSource source =>
      exact h.updateFormula (h.sound.setSource id hplain) (setSource_eq s.workspace id source) (fun _ => rfl)
        fun _ => rfl
    | setHost name =>
      cases name with
      | none => exact h.setHost id none (h.connected.setNoHost id)
      | some name =>
        simp only [performAtFormula, Ledger.afterAtFormula, publishedByFormula, StateT.run_bind, StateT.run_get,
          pure_bind]
        cases hhost : s.hosts.find? name with
        | none => exact h.refl
        | some hostId =>
          exact h.setHost id (some hostId) (h.connected.setHost id hf (h.host_lt name hostId hhost))
    | setStrategy strategy =>
      exact h.updateFormula (h.sound.setStrategy id strategy) rfl (fun _ => rfl) fun _ => rfl
    | invalidate => exact h.updateFormula (h.sound.invalidate id) rfl (fun _ => rfl) fun _ => rfl
    | invalidateCode => exact h.updateFormula (h.sound.invalidateCode id) rfl (fun _ => rfl) fun _ => rfl
    | _ => exact absurd hedits Bool.false_ne_true

end Valid

end Session

end Formulary
