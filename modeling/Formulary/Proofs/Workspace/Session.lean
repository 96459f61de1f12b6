import Formulary.Proofs.Dictionary
import Formulary.Proofs.Workspace.Commands

/-!
# Sessions step by step

Each command keeps the session valid, and has exactly those hear of each event who listen by then
(`Session.Valid.perform`). So any run of commands from the empty session keeps it valid (`Session.valid_after`).
-/

namespace Formulary

namespace Session

open Workspace

section Valid

variable {s : Session} {ledger : Ledger} (h : s.Valid ledger)

include h

/-! ## Commands to the session -/

theorem Valid.makeHost (name : String) {setup : HostSetup} {sheet : Sheet} (hsetup : setup.Plain)
    (hsheet : sheet.functions.Named) : Steps s (s.makeHost name setup sheet) ledger [] where
  valid := (h.named.makeHost name setup sheet).valid (h.connected.addHost setup sheet)
    (h.sound.addHost h.connected hsetup hsheet)
  tells := .of_journal_eq rfl

theorem Valid.dropHost (name : String) : Steps s { s with hosts := s.hosts.erase name } ledger [] where
  valid := (h.named.dropHost name).valid h.connected h.sound
  tells := .refl s.workspace

/-- Channels change, and the dictionary of subscriptions with them. -/
theorem Valid.rechannel {s' : Session} {ledger' : Ledger} (hw' : Rechannels s.workspace s'.workspace)
    (hconnected : s'.workspace.Connected s'.subscriptions ledger') (hhosts : s'.hosts = s.hosts)
    (hformulas : s'.formulas = s.formulas) : Steps s s' ledger' [] where
  valid := by
    have hnext := Nat.le_of_eq hw'.nextHost.symm
    have hnamed := h.named.move hhosts hformulas hnext fun id hid => (hw'.isSome_formula id).trans hid
    exact hnamed.valid hconnected (hw'.sound h.sound)
  tells := .of_journal_eq hw'.journal

theorem Valid.dropSubscription (name : String) :
    Steps s (s.dropSubscription name) (ledger.without (.outside name)) [] :=
  h.rechannel (.dropSubscription s name) (h.connected.dropSubscription name) (s.hosts_dropSubscription name)
    (s.formulas_dropSubscription name)

theorem Valid.subscribe (name : String) {source : Source}
    (hsource : ∃ channel, s.workspace.channel? source = some channel) :
    Steps s (s.subscribe name source) (ledger.listen source (.outside name)) [] := by
  obtain ⟨channel, hchannel⟩ := hsource
  exact h.rechannel (.subscribe hchannel name) (h.connected.subscribe hchannel name) rfl rfl

theorem Valid.dropFormula (name : String) :
    Steps s (s.dropFormula name) (ledger.drop (s.formulas.find? name)) [] := by
  have hnamed := h.named.dropFormula name
  unfold Session.dropFormula at hnamed ⊢
  cases hname : s.formulas.find? name with
  | none => exact h.refl
  | some id =>
    rw [hname] at hnamed
    exact ⟨hnamed.valid (h.connected.dropFormula id) (h.sound.dropFormula id),
      .of_journal_eq (journal_dropFormula s.workspace id)⟩

/-- A formula that has no name yet. -/
theorem Valid.addFormula {source : String} (strategy : Strategy) (hsource : source.length ≤ 2 ^ 64)
    (hostId : Option Nat) (hhost : ∀ id, hostId = some id → id < s.workspace.hosts.next) :
    Steps s { s with workspace := s.workspace.addFormula source strategy hostId }
      (ledger.join s.workspace.formulas.next hostId) [] := by
  have hinserted : Steps s { s with workspace := { s.workspace with
      formulas := s.workspace.formulas.insert (.ofSource source strategy) } } ledger [] := by
    refine ⟨h.move (h.connected.insertFormula source strategy) (h.sound.insertFormula strategy hsource)
      (Nat.le_refl _) fun id hid => ?_, .of_journal_eq rfl⟩
    obtain ⟨f, hf⟩ := Option.isSome_iff_exists.1 hid
    exact Option.isSome_iff_exists.2 ⟨f, Table.find?_insert_of_some hf _⟩
  cases hostId with
  | none => exact hinserted
  | some hostId =>
    have hnew := Table.find?_insert_next h.connected.formulas (.ofSource source strategy)
    have hattached := hinserted.valid.setHost s.workspace.formulas.next (some hostId)
      (hinserted.valid.connected.setHost s.workspace.formulas.next hnew (hhost hostId rfl))
    exact ⟨hattached.valid, hinserted.tells.trans hattached.tells⟩

theorem Valid.makeFormula (name : String) {source : String} (strategy : Strategy)
    (hsource : source.length ≤ 2 ^ 64) (hostId : Option Nat)
    (hhost : ∀ id, hostId = some id → id < s.workspace.hosts.next) :
    Steps s (s.makeFormula name source strategy hostId)
      ((ledger.join s.workspace.formulas.next hostId).drop (s.formulas.find? name)) [] := by
  have hmade := h.addFormula strategy hsource hostId hhost
  have hdropped := hmade.valid.dropFormula name
  have hnamed := h.named.makeFormula h.connected.formulas name source strategy hostId
  exact ⟨hnamed.valid hdropped.valid.connected hdropped.valid.sound, hmade.tells.trans hdropped.tells⟩

/-! ## One step -/

omit h in
theorem run_cancel (s : Session) (name : String) :
    ((perform (.cancel name)).run s).2 = s.dropSubscription name := by
  have hrun : ((perform (.cancel name)).run s).2 =
      if s.subscriptions.contains name then s.dropSubscription name else s := by
    unfold perform
    simp only [StateT.run_bind, StateT.run_get, pure_bind]
    cases s.subscriptions.contains name <;> rfl
  rw [hrun]
  unfold Session.dropSubscription Dictionary.contains
  cases s.subscriptions.find? name <;> rfl

omit h in
theorem run_countListeners (s : Session) (source : SourceName) :
    ((perform (.countListeners source)).run s).2 = s := by
  unfold perform
  simp only [StateT.run_bind, StateT.run_get, pure_bind]
  cases s.findSource? source <;> cases source <;> rfl

/-- **Commands.** A command keeps the session valid. Who listens to a host after it has heard each event that it
has the host publish, and nobody has heard anything else. -/
theorem Valid.perform {command : Command} (hplain : command.Plain) :
    Steps s ((perform command).run s).2 (ledger.after s ((perform command).run s).2 command)
      (s.published command) := by
  cases command with
  | makeHost name setup sheet => exact h.makeHost name hplain.1 hplain.2
  | makeFormula name source strategy host =>
    cases host with
    | none => exact h.makeFormula name strategy hplain none fun _ hid => absurd hid.symm (Option.some_ne_none _)
    | some host =>
      simp only [Session.perform, Ledger.after, published, StateT.run_bind, StateT.run_get, pure_bind]
      cases hhost : s.hosts.find? host with
      | none => exact h.refl
      | some hostId =>
        refine h.makeFormula name strategy hplain (some hostId) fun id hid => ?_
        rw [← Option.some.inj hid]
        exact h.host_lt host hostId hhost
  | subscribe name source =>
    simp only [Session.perform, Ledger.after, published, StateT.run_bind, StateT.run_get, pure_bind]
    cases hsource : s.findSource? source with
    | none => exact h.refl
    | some found => exact h.subscribe name (h.named.exists_channel h.connected hsource)
  | cancel name =>
    rw [run_cancel]
    exact h.dropSubscription name
  | dropSubscription name => exact h.dropSubscription name
  | countListeners source =>
    rw [run_countListeners]
    exact h.refl
  | dropFormula name => exact h.dropFormula name
  | dropHost name => exact h.dropHost name
  | atHost name command =>
    simp only [Session.perform, Ledger.after, published, StateT.run_bind, StateT.run_get, pure_bind]
    cases hname : s.hosts.find? name with
    | none => exact h.refl
    | some id =>
      obtain ⟨host, hhost⟩ := h.exists_host hname
      exact h.atHost hhost command
  | atFormula name command =>
    simp only [Session.perform, Ledger.after, published, StateT.run_bind, StateT.run_get, pure_bind]
    cases hname : s.formulas.find? name with
    | none => exact h.refl
    | some id =>
      obtain ⟨f, hf⟩ := h.exists_formula hname
      exact h.atFormula hf hplain

end Valid

/-! ## Runs -/

/-- Commands one after the other, with the ledger of who listens to whom. -/
def runFrom (s : Session) (ledger : Ledger) : List Command → Session × Ledger
  | [] => (s, ledger)
  | command :: commands => runFrom (s.step command).1 (ledger.after s (s.step command).1 command) commands

theorem runFrom_append (s : Session) (ledger : Ledger) (commands commands' : List Command) :
    runFrom s ledger (commands ++ commands') =
      runFrom (runFrom s ledger commands).1 (runFrom s ledger commands).2 commands' := by
  induction commands generalizing s ledger with
  | nil => rfl
  | cons command commands ih => exact ih _ _

theorem Valid.runFrom {s : Session} {ledger : Ledger} (h : s.Valid ledger) {commands : List Command}
    (hplain : ∀ command ∈ commands, command.Plain) :
    (runFrom s ledger commands).1.Valid (runFrom s ledger commands).2 := by
  induction commands generalizing s ledger with
  | nil => exact h
  | cons command commands ih =>
    have hstep := h.perform (hplain command List.mem_cons_self)
    exact ih hstep.valid fun other hother => hplain other (List.mem_cons_of_mem command hother)

/-- The session that has been given some commands. -/
def after (commands : List Command) : Session := (runFrom empty [] commands).1

/-- Who listens to whom in it. -/
def ledgerAfter (commands : List Command) : Ledger := (runFrom empty [] commands).2

theorem valid_after {commands : List Command} (hplain : ∀ command ∈ commands, command.Plain) :
    (after commands).Valid (ledgerAfter commands) := valid_empty.runFrom hplain

end Session

end Formulary
