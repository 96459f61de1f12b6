import Formulary.Proofs.Workspace.Session
import Formulary.Proofs.Workspace.ConnectionsKept

/-!
# Sessions of any hosts

`Session.Linked` is what holds in every session, also where hosts resolve names in their own way: names
stand for what there is, every formula has a name, and whoever listens holds the number under which the channel has
him. Each command keeps it (`Session.Linked.perform`), so it holds after any run of commands
(`Session.linked_after`). Nothing is said here of what is heard.
-/

namespace Formulary

namespace Session

open Workspace

/-! ## What commands to hosts and formulas retain -/

/-- A command to a host changes nothing but the workspace, and retains that. -/
theorem atHost_retains (s : Session) (id : Nat) (command : HostCommand) : ∃ w',
    ((performAtHost id command).run s).2 = { s with workspace := w' } ∧ Retains none s.workspace w' := by
  have haccess : (access id).Keeping (Retains none) := (Retains.keptByHost id).access
  cases command with
  | setVariable name value => exact ⟨_, rfl, haccess.setVariable name value s.workspace⟩
  | removeVariable name => exact ⟨_, rfl, haccess.removeVariable name s.workspace⟩
  | readVariable name => exact ⟨_, rfl, .refl s.workspace⟩
  | register f => exact ⟨_, rfl, haccess.register f s.workspace⟩
  | publish event => exact ⟨_, rfl, .publish s.workspace id event⟩

/-- So does a command to a formula, unless it gives it a source or a host. -/
theorem atFormula_cases (s : Session) (id : Nat) (command : FormulaCommand) :
    (∃ source, command = .setSource source) ∨ (∃ host, command = .setHost host) ∨
      (∀ source, command ≠ .setSource source) ∧ ∃ w',
        ((performAtFormula id command).run s).2 = { s with workspace := w' } ∧ Retains (some id) s.workspace w' := by
  by_cases hsource : ∃ source, command = .setSource source
  · exact .inl hsource
  by_cases hhost : ∃ host, command = .setHost host
  · exact .inr (.inl hhost)
  refine .inr (.inr ⟨fun source heq => hsource ⟨source, heq⟩, ?_⟩)
  cases command with
  | setSource source => exact absurd ⟨source, rfl⟩ hsource
  | setHost host => exact absurd ⟨host, rfl⟩ hhost
  | setStrategy | invalidate | invalidateCode =>
    exact ⟨_, rfl, .updateFormula s.workspace id (fun _ => rfl) (fun _ => rfl) fun _ => rfl⟩
  | readSource | hasHost | describe => exact ⟨_, rfl, .refl s.workspace⟩
  | readTree => exact ⟨_, rfl, tree_retains id s.workspace⟩
  | readCompiled => exact ⟨_, rfl, compiled_retains id s.workspace⟩
  | hasAggregates => exact ⟨_, rfl, hasAggregates_retains id s.workspace⟩
  | evaluate strategy bindings => exact ⟨_, rfl, evaluate_retains id strategy bindings s.workspace⟩
  | run bindings => exact ⟨_, rfl, run_retains id bindings s.workspace⟩
  | callCompiled name bindings =>
    simp only [performAtFormula, StateT.run_bind, StateT.run_get, pure_bind]
    cases s.hosts.find? name with
    | none => exact ⟨_, rfl, .refl s.workspace⟩
    | some hostId => exact ⟨_, rfl, callCompiled_retains id hostId bindings s.workspace⟩
  | references => exact ⟨_, rfl, references_retains id s.workspace⟩

/-! ## Linked sessions -/

structure Linked (s : Session) : Prop where
  named : s.Named
  owned : ∀ id, (s.workspace.formulas.find? id).isSome → ∃ name, s.formulas.find? name = some id
  connected : ∃ ledger, s.workspace.Connected s.subscriptions ledger
  formulas : s.formulas.Distinct
  subscriptions : s.subscriptions.Distinct

theorem linked_empty : empty.Linked where
  named := valid_empty.named
  owned _ hid := absurd hid Bool.false_ne_true
  connected := ⟨[], valid_empty.connected⟩
  formulas := Dictionary.distinct_empty
  subscriptions := Dictionary.distinct_empty

namespace Linked

variable {s : Session} (h : s.Linked)

include h

theorem numbered : s.workspace.formulas.Numbered := by
  obtain ⟨ledger, hconnected⟩ := h.connected
  exact hconnected.formulas

/-! ## Changes of the workspace -/

/-- The workspace changes, and the same formulas are in it. -/
theorem move {w' : Workspace} (hconnected : ∃ ledger, w'.Connected s.subscriptions ledger)
    (hnext : s.workspace.hosts.next ≤ w'.hosts.next)
    (hformulas : ∀ id, (w'.formulas.find? id).isSome = (s.workspace.formulas.find? id).isSome) :
    Linked { s with workspace := w' } where
  named := h.named.move rfl rfl hnext fun id hid => (hformulas id).trans hid
  owned id hid := h.owned id ((hformulas id).symm.trans hid)
  connected := hconnected
  formulas := h.formulas
  subscriptions := h.subscriptions

theorem retain {formula? : Option Nat} (hformula : ∀ id ∈ formula?, (s.workspace.formulas.find? id).isSome)
    {w' : Workspace} (hw' : Retains formula? s.workspace w') : Linked { s with workspace := w' } := by
  obtain ⟨ledger, hconnected⟩ := h.connected
  exact h.move (hw'.connected hformula s.subscriptions ledger hconnected) hw'.nextHost hw'.formulas

/-! ## Commands to the session -/

theorem makeHost (name : String) (setup : HostSetup) (sheet : Sheet) : (s.makeHost name setup sheet).Linked where
  named := h.named.makeHost name setup sheet
  owned := h.owned
  connected := by
    obtain ⟨ledger, hconnected⟩ := h.connected
    exact ⟨ledger, hconnected.addHost setup sheet⟩
  formulas := h.formulas
  subscriptions := h.subscriptions

theorem dropHost (name : String) : Linked { s with hosts := s.hosts.erase name } :=
  { h with named := h.named.dropHost name }

/-- What a name does not stand for has another name. -/
theorem exists_owner {id : Nat} (hid : (s.workspace.formulas.find? id).isSome) {name : String}
    (hname : s.formulas.find? name ≠ some id) : ∃ owner ≠ name, s.formulas.find? owner = some id := by
  obtain ⟨owner, howner⟩ := h.owned id hid
  exact ⟨owner, fun heq => hname (heq ▸ howner), howner⟩

omit h in
theorem connected_dropFormula {ledger : Ledger} (hconnected : s.workspace.Connected s.subscriptions ledger)
    (name : String) :
    ∃ ledger', (s.dropFormula name).workspace.Connected (s.dropFormula name).subscriptions ledger' := by
  unfold Session.dropFormula
  split
  · exact ⟨ledger, hconnected⟩
  · exact ⟨_, hconnected.dropFormula _⟩

omit h in
theorem distinct_dropFormula (hdistinct : s.formulas.Distinct) (name : String) :
    (s.dropFormula name).formulas.Distinct := by
  unfold Session.dropFormula
  split
  · exact hdistinct
  · exact hdistinct.erase name

omit h in
theorem subscriptions_dropFormula (s : Session) (name : String) :
    (s.dropFormula name).subscriptions = s.subscriptions := by
  unfold Session.dropFormula
  split <;> rfl

theorem dropFormula (name : String) : (s.dropFormula name).Linked where
  named := h.named.dropFormula name
  owned id hid := by
    obtain ⟨hbefore, hname⟩ := Named.of_isSome_dropFormula hid
    obtain ⟨owner, hne, howner⟩ := h.exists_owner hbefore hname
    exact ⟨owner, (Named.find?_dropFormula_of_ne s hne).trans howner⟩
  connected := by
    obtain ⟨ledger, hconnected⟩ := h.connected
    exact connected_dropFormula hconnected name
  formulas := distinct_dropFormula h.formulas name
  subscriptions := subscriptions_dropFormula s name ▸ h.subscriptions

theorem addFormula_connected (source : String) (strategy : Strategy) (hostId : Option Nat)
    (hhost : ∀ id ∈ hostId, id < s.workspace.hosts.next) :
    ∃ ledger, (s.workspace.addFormula source strategy hostId).Connected s.subscriptions ledger := by
  obtain ⟨ledger, hconnected⟩ := h.connected
  have hinserted := hconnected.insertFormula source strategy
  cases hostId with
  | none => exact ⟨ledger, hinserted⟩
  | some hostId =>
    have hnew := Table.find?_insert_next hconnected.formulas (.ofSource source strategy)
    exact ⟨_, hinserted.setHost s.workspace.formulas.next hnew (hhost hostId rfl)⟩

theorem makeFormula (name source : String) (strategy : Strategy) (hostId : Option Nat)
    (hhost : ∀ id ∈ hostId, id < s.workspace.hosts.next) : (s.makeFormula name source strategy hostId).Linked where
  named := h.named.makeFormula h.numbered name source strategy hostId
  owned id hid := by
    obtain ⟨hmade, hname⟩ := Named.of_isSome_dropFormula hid
    rcases (isSome_addFormula s.workspace source strategy hostId id).1 hmade with hbefore | rfl
    · obtain ⟨owner, hne, howner⟩ := h.exists_owner hbefore hname
      refine ⟨owner, (Dictionary.find?_insert_of_ne _ _ hne).trans ?_⟩
      exact (Named.find?_dropFormula_of_ne _ hne).trans howner
    · exact ⟨name, Dictionary.find?_insert_self _ _ _⟩
  connected := by
    obtain ⟨ledger, hconnected⟩ := h.addFormula_connected source strategy hostId hhost
    exact connected_dropFormula
      (s := { s with workspace := s.workspace.addFormula source strategy hostId }) hconnected name
  formulas := (distinct_dropFormula
    (s := { s with workspace := s.workspace.addFormula source strategy hostId }) h.formulas name).insert name _
  subscriptions := (subscriptions_dropFormula
    { s with workspace := s.workspace.addFormula source strategy hostId } name).symm ▸ h.subscriptions

/-- Channels change, and the dictionary of subscriptions with them. -/
theorem rechannel {s' : Session} (hw' : Rechannels s.workspace s'.workspace)
    (hconnected : ∃ ledger, s'.workspace.Connected s'.subscriptions ledger) (hhosts : s'.hosts = s.hosts)
    (hformulas : s'.formulas = s.formulas) (hsubscriptions : s'.subscriptions.Distinct) : s'.Linked where
  named := h.named.move hhosts hformulas (Nat.le_of_eq hw'.nextHost.symm) fun id hid =>
    (hw'.isSome_formula id).trans hid
  owned id hid := by
    obtain ⟨name, hname⟩ := h.owned id ((hw'.isSome_formula id).symm.trans hid)
    exact ⟨name, hformulas ▸ hname⟩
  connected := hconnected
  formulas := hformulas ▸ h.formulas
  subscriptions := hsubscriptions

theorem dropSubscription (name : String) : (s.dropSubscription name).Linked := by
  obtain ⟨ledger, hconnected⟩ := h.connected
  refine h.rechannel (.dropSubscription s name) ⟨_, hconnected.dropSubscription name⟩
    (s.hosts_dropSubscription name) (s.formulas_dropSubscription name) ?_
  unfold Session.dropSubscription
  split
  · exact h.subscriptions
  · exact h.subscriptions.erase name

theorem subscribe (name : String) {source : Source} {channel : Channel Listener}
    (hchannel : s.workspace.channel? source = some channel) : (s.subscribe name source).Linked := by
  obtain ⟨ledger, hconnected⟩ := h.connected
  exact h.rechannel (.subscribe hchannel name) ⟨_, hconnected.subscribe hchannel name⟩ rfl rfl
    (h.subscriptions.insert name _)

/-! ## Commands to hosts and formulas -/

theorem atHost (id : Nat) (command : HostCommand) : ((performAtHost id command).run s).2.Linked := by
  obtain ⟨w', hrun, hretains⟩ := atHost_retains s id command
  rw [hrun]
  exact h.retain (fun _ hother => absurd hother.symm (Option.some_ne_none _)) hretains

theorem setHost (id : Nat) (hostId : Option Nat) (hconnected : ∃ ledger,
    (s.workspace.setHost id hostId).Connected s.subscriptions ledger) :
    Linked { s with workspace := s.workspace.setHost id hostId } :=
  h.move hconnected (Nat.le_of_eq (nextHost_setHost s.workspace id hostId).symm)
    (isSome_setHost s.workspace id hostId)

theorem setSource (id : Nat) (source : String) :
    Linked { s with workspace := s.workspace.setSource id source } := by
  obtain ⟨ledger, hconnected⟩ := h.connected
  rw [setSource_eq]
  refine h.move ⟨ledger, hconnected.updateFormula id (fun _ => rfl) fun _ => rfl⟩ (Nat.le_refl _) fun other => ?_
  rw [find?_updateFormula, Option.isSome_map]

theorem atFormula {id : Nat} {f : Formula} (hf : s.workspace.formulas.find? id = some f)
    (command : FormulaCommand) : ((performAtFormula id command).run s).2.Linked := by
  rcases atFormula_cases s id command with ⟨source, rfl⟩ | ⟨host, rfl⟩ | ⟨-, w', hrun, hretains⟩
  · exact h.setSource id source
  · obtain ⟨ledger, hconnected⟩ := h.connected
    cases host with
    | none => exact h.setHost id none ⟨_, hconnected.setNoHost id⟩
    | some name =>
      simp only [performAtFormula, StateT.run_bind, StateT.run_get, pure_bind]
      cases hhost : s.hosts.find? name with
      | none => exact h
      | some hostId => exact h.setHost id _ ⟨_, hconnected.setHost id hf (h.named.host_lt name hostId hhost)⟩
  · rw [hrun]
    refine h.retain (fun other hother => ?_) hretains
    rw [← Option.some.inj hother, hf]
    rfl

/-- **Steps.** Each command keeps the session linked. -/
theorem perform (command : Command) : ((Session.perform command).run s).2.Linked := by
  cases command with
  | makeHost name setup sheet => exact h.makeHost name setup sheet
  | makeFormula name source strategy host =>
    cases host with
    | none => exact h.makeFormula name source strategy none fun _ hid => absurd hid.symm (Option.some_ne_none _)
    | some host =>
      simp only [Session.perform, StateT.run_bind, StateT.run_get, pure_bind]
      cases hhost : s.hosts.find? host with
      | none => exact h
      | some hostId =>
        refine h.makeFormula name source strategy (some hostId) fun id hid => ?_
        rw [← Option.some.inj hid]
        exact h.named.host_lt host hostId hhost
  | subscribe name source =>
    simp only [Session.perform, StateT.run_bind, StateT.run_get, pure_bind]
    cases hsource : s.findSource? source with
    | none => exact h
    | some found =>
      obtain ⟨ledger, hconnected⟩ := h.connected
      obtain ⟨channel, hchannel⟩ := h.named.exists_channel hconnected hsource
      exact h.subscribe name hchannel
  | cancel name =>
    rw [run_cancel]
    exact h.dropSubscription name
  | dropSubscription name => exact h.dropSubscription name
  | countListeners source =>
    rw [run_countListeners]
    exact h
  | dropFormula name => exact h.dropFormula name
  | dropHost name => exact h.dropHost name
  | atHost name command =>
    simp only [Session.perform, StateT.run_bind, StateT.run_get, pure_bind]
    cases s.hosts.find? name with
    | none => exact h
    | some id => exact h.atHost id command
  | atFormula name command =>
    simp only [Session.perform, StateT.run_bind, StateT.run_get, pure_bind]
    cases hname : s.formulas.find? name with
    | none => exact h
    | some id =>
      obtain ⟨f, hf⟩ := h.named.exists_formula hname
      exact h.atFormula hf command

theorem runFrom (ledger : Ledger) (commands : List Command) : (runFrom s ledger commands).1.Linked := by
  induction commands generalizing s ledger with
  | nil => exact h
  | cons command commands ih => exact ih (h.perform command) _

end Linked

/-- **Runs.** Whatever commands are given, the session is linked. -/
theorem linked_after (commands : List Command) : (after commands).Linked := linked_empty.runFrom [] commands

end Session

end Formulary
