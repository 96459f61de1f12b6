import Formulary.Proofs.Workspace.Caches

/-!
# Changes by command

What is kept stays sound, and who is connected stays so, when a formula gets another source or another host, comes
into the workspace or leaves it, and when someone from outside begins or ceases to listen.
-/

namespace Formulary

namespace Workspace

/-! ## Subscriptions -/

/-- Channels have changed, and nothing else has. -/
structure Rechannels (w w' : Workspace) : Prop where
  sheets : SameSheets w w'
  formulas : ∀ id, (w'.formulas.find? id).map ({ · with channel := Table.empty }) =
    (w.formulas.find? id).map ({ · with channel := Table.empty })
  nextHost : w'.hosts.next = w.hosts.next
  journal : w'.journal = w.journal

namespace Rechannels

variable {w w' w'' : Workspace}

theorem refl (w : Workspace) : Rechannels w w := ⟨.refl w, fun _ => rfl, rfl, rfl⟩

theorem trans (h : Rechannels w w') (h' : Rechannels w' w'') : Rechannels w w'' where
  sheets := h.sheets.trans h'.sheets
  formulas id := (h'.formulas id).trans (h.formulas id)
  nextHost := h'.nextHost.trans h.nextHost
  journal := h'.journal.trans h.journal

theorem updateHost (w : Workspace) (id : Nat) (change : Channel Listener → Channel Listener) :
    Rechannels w (w.updateHost id fun host => { host with channel := change host.channel }) where
  sheets := .updateHost w id fun _ => ⟨rfl, rfl⟩
  formulas _ := rfl
  nextHost := rfl
  journal := rfl

theorem updateFormula (w : Workspace) (id : Nat) (change : Channel String → Channel String) :
    Rechannels w (w.updateFormula id fun f => { f with channel := change f.channel }) where
  sheets := .refl w
  formulas other := by
    rw [find?_updateFormula, Option.map_map]
    congr 1
    funext f
    by_cases h : other = id <;> simp [h]
  nextHost := rfl
  journal := rfl

theorem unsubscribe (w : Workspace) (subscription : Subscription) :
    Rechannels w (Session.unsubscribe w subscription) := by
  unfold Session.unsubscribe
  split
  · next id _ => exact .updateHost w id (·.erase subscription.id)
  · next id _ => exact .updateFormula w id (·.erase subscription.id)

theorem subscribed (w : Workspace) (name : String) (source : Source) :
    Rechannels w (w.subscribed name source) := by
  cases source with
  | host id => exact .updateHost w id (·.insert (.outside name))
  | formula id => exact .updateFormula w id (·.insert name)

theorem dropSubscription (s : Session) (name : String) :
    Rechannels s.workspace (s.dropSubscription name).workspace := by
  unfold Session.dropSubscription
  split
  · exact .refl s.workspace
  · exact .unsubscribe s.workspace _

theorem subscribe {s : Session} {source : Source} {channel : Channel Listener}
    (hchannel : s.workspace.channel? source = some channel) (name : String) :
    Rechannels s.workspace (s.subscribe name source).workspace := by
  rw [subscribe_eq hchannel]
  cases s.subscriptions.find? name with
  | none => exact .subscribed s.workspace name source
  | some older => exact (Rechannels.subscribed s.workspace name source).trans (.unsubscribe _ older)

variable (h : Rechannels w w')

include h

theorem sources (id : Nat) :
    (w'.formulas.find? id).map Formula.source = (w.formulas.find? id).map Formula.source := by
  have hdata := congrArg (Option.map Formula.source) (h.formulas id)
  rwa [Option.map_map, Option.map_map] at hdata

theorem isSome_formula (id : Nat) : (w'.formulas.find? id).isSome = (w.formulas.find? id).isSome := by
  have hdata := congrArg Option.isSome (h.formulas id)
  rwa [Option.isSome_map, Option.isSome_map] at hdata

theorem sound (hw : w.Sound) : w'.Sound := by
  refine hw.of_sameSheets h.sheets fun id f' hf' => ?_
  have hdata := h.formulas id
  rw [hf', Option.map_some] at hdata
  obtain ⟨f, hf, heq⟩ := Option.map_eq_some_iff.1 hdata.symm
  have hattachment : f'.attachment = f.attachment := (congrArg Formula.attachment heq).symm
  refine ⟨f, hf, ?_, ?_, .inr ⟨?_, ?_, h.sheets.sheetOf hattachment⟩⟩
  · exact (congrArg Formula.source heq).symm
  · exact (congrArg Formula.tree heq).symm
  · exact (congrArg Formula.compiled heq).symm
  · exact (congrArg Formula.outdated heq).symm

end Rechannels

/-! ## Sources and hosts of formulas -/

section Formula

variable {w : Workspace} (hw : w.Sound) (id : Nat)

theorem updateFormula_updateFormula (w : Workspace) (id : Nat) (change change' : Formula → Formula) :
    (w.updateFormula id change).updateFormula id change' = w.updateFormula id fun f => change' (change f) := by
  unfold updateFormula
  rw [Table.modify_modify]

theorem setSource_eq (w : Workspace) (id : Nat) (source : String) : w.setSource id source =
    w.updateFormula id ({ · with source := source, tree := none, compiled := none }) :=
  updateFormula_updateFormula w id _ _

/-- What becomes of the formulas when one gets another host. -/
theorem find?_setHost (w : Workspace) (id : Nat) (hostId : Option Nat) (other : Nat) :
    ∃ attachment, (w.setHost id hostId).formulas.find? other = (w.formulas.find? other).map fun f =>
      if other = id then { f with attachment := attachment, compiled := none, outdated := false } else f := by
  unfold setHost invalidateCode
  cases hostId with
  | none =>
    refine ⟨none, ?_⟩
    rw [find?_updateFormula, find?_detach, Option.map_map]
    congr 1
    funext f
    by_cases h : other = id <;> simp [h]
  | some hostId =>
    obtain ⟨subscription, hattach⟩ := find?_attach w id hostId other
    refine ⟨some ⟨hostId, subscription⟩, ?_⟩
    rw [find?_updateFormula, hattach, Option.map_map]
    congr 1
    funext f
    by_cases h : other = id <;> simp [h]

theorem isSome_setHost (w : Workspace) (id : Nat) (hostId : Option Nat) (other : Nat) :
    ((w.setHost id hostId).formulas.find? other).isSome = (w.formulas.find? other).isSome := by
  obtain ⟨attachment, hfind⟩ := find?_setHost w id hostId other
  rw [hfind, Option.isSome_map]

theorem sources_setHost (w : Workspace) (id : Nat) (hostId : Option Nat) (other : Nat) :
    ((w.setHost id hostId).formulas.find? other).map Formula.source =
      (w.formulas.find? other).map Formula.source := by
  obtain ⟨attachment, hfind⟩ := find?_setHost w id hostId other
  rw [hfind, Option.map_map]
  congr 1
  funext f
  by_cases h : other = id <;> simp [h]

theorem nextHost_setHost (w : Workspace) (id : Nat) (hostId : Option Nat) :
    (w.setHost id hostId).hosts.next = w.hosts.next := by
  cases hostId with
  | none => exact nextHost_detach w id
  | some hostId => exact nextHost_attach w id hostId

theorem journal_setHost (w : Workspace) (id : Nat) (hostId : Option Nat) :
    (w.setHost id hostId).journal = w.journal := by
  cases hostId with
  | none => exact journal_detach w id
  | some hostId => exact journal_attach w id hostId

include hw

theorem Sound.setSource {source : String} (hsource : source.length ≤ 2 ^ 64) : (w.setSource id source).Sound := by
  rw [setSource_eq]
  exact hw.updateFormula id (fun f _ => Formula.fresh_of_none rfl rfl _) fun _ _ => hsource

theorem Sound.invalidate : (w.invalidate id).Sound :=
  hw.updateFormula id (fun _ _ => Formula.fresh_of_none rfl rfl _) (hw.length id)

theorem Sound.invalidateCode : (w.invalidateCode id).Sound := by
  refine hw.updateFormula id (fun f hf => ⟨?_, ?_⟩) (hw.length id)
  · exact (hw.fresh id f hf).tree
  · exact fun _ hfound => absurd hfound.symm (Option.some_ne_none _)

theorem Sound.setStrategy (strategy : Strategy) : (w.setStrategy id strategy).Sound :=
  hw.updateFormula id (fun f hf => ⟨(hw.fresh id f hf).tree, (hw.fresh id f hf).compiled⟩) (hw.length id)

omit hw in
theorem SameSheets.setHost (w : Workspace) (id : Nat) (hostId : Option Nat) : SameSheets w (w.setHost id hostId) := by
  cases hostId with
  | none => exact .detach w id
  | some hostId => exact .attach w id hostId

/-- The compiled form is forgotten with the host that it was for. -/
theorem Sound.setHost (hostId : Option Nat) : (w.setHost id hostId).Sound := by
  have hsheets := SameSheets.setHost w id hostId
  refine hw.of_sameSheets hsheets fun other f' hf' => ?_
  obtain ⟨attachment, hfind⟩ := find?_setHost w id hostId other
  rw [hfind, Option.map_eq_some_iff] at hf'
  obtain ⟨f, hf, rfl⟩ := hf'
  refine ⟨f, hf, ?_⟩
  split
  · exact ⟨rfl, rfl, .inl rfl⟩
  · exact ⟨rfl, rfl, .inr ⟨rfl, rfl, hsheets.sheetOf rfl⟩⟩

end Formula

/-! ## Formulas that come and go -/

section Table

variable {w : Workspace} (hw : w.Sound)

include hw

/-- A formula comes into the workspace. -/
theorem Sound.insertFormula {source : String} (strategy : Strategy) (hsource : source.length ≤ 2 ^ 64) :
    Sound { w with formulas := w.formulas.insert (.ofSource source strategy) } := by
  have hcases : ∀ id f, (w.formulas.insert (.ofSource source strategy)).find? id = some f →
      w.formulas.find? id = some f ∨ f = .ofSource source strategy := by
    intro id f hf
    rw [Table.find?_insert, Option.or_eq_some_iff] at hf
    rcases hf with hf | ⟨-, hf⟩
    · exact .inl hf
    · split at hf
      · exact .inr (Option.some.inj hf).symm
      · exact absurd hf.symm (Option.some_ne_none _)
  constructor
  case plain => exact hw.plain
  case fresh =>
    intro id f hf
    rcases hcases id f hf with hf | rfl
    · exact hw.fresh id f hf
    · exact Formula.fresh_of_none rfl rfl _
  case length =>
    intro id f hf
    rcases hcases id f hf with hf | rfl
    · exact hw.length id f hf
    · exact hsource

omit hw in
theorem find?_dropFormula (w : Workspace) (id other : Nat) : (w.dropFormula id).formulas.find? other =
    if other = id then none else w.formulas.find? other := by
  show ((w.detach id).formulas.erase id).find? other = _
  by_cases heq : other = id
  · rw [if_pos heq, heq, Table.find?_erase_self]
  · rw [if_neg heq, Table.find?_erase_of_ne _ heq, find?_detach]
    simp [heq]

omit hw in
theorem journal_dropFormula (w : Workspace) (id : Nat) : (w.dropFormula id).journal = w.journal :=
  journal_detach w id

theorem Sound.dropFormula (id : Nat) : (w.dropFormula id).Sound := by
  have hsheets : SameSheets w (w.dropFormula id) := .detach w id
  refine hw.of_sameSheets hsheets fun other f hf => ?_
  rw [find?_dropFormula] at hf
  split at hf
  · exact absurd hf.symm (Option.some_ne_none _)
  · exact ⟨f, hf, rfl, rfl, .inr ⟨rfl, rfl, hsheets.sheetOf rfl⟩⟩

end Table

/-! ## Connections -/

namespace Connected

variable {w : Workspace} {subscriptions : Dictionary Subscription} {ledger : Ledger}
  (h : w.Connected subscriptions ledger) (id : Nat)

include h

theorem setNoHost : (w.setHost id none).Connected subscriptions (ledger.without (.formula id)) :=
  (h.detach id).updateFormula id (fun _ => rfl) fun _ => rfl

theorem setHost {f : Formula} (hf : w.formulas.find? id = some f) {hostId : Nat} (hhost : hostId < w.hosts.next) :
    (w.setHost id (some hostId)).Connected subscriptions (ledger.listen (.host hostId) (.formula id)) :=
  (h.attach hf hhost).updateFormula id (fun _ => rfl) fun _ => rfl

end Connected

end Workspace

end Formulary
