import Formulary.Proofs.Keeping
import Formulary.Proofs.Workspace.Connected

/-!
# What evaluation does to connections

Whatever is asked of a formula and whatever its host answers, a workspace that was connected is connected afterwards,
and its formulas have the sources that they had: all that can happen is that the formula gets a first host
(`Retains`). Nothing is assumed of the hosts; what they do by themselves keeps every relation that allows for it
(`KeptByHost`).
-/

namespace Formulary

namespace Workspace

/-! ## What hosts do -/

section Host

/-- The relation allows for what a host does when it is asked something. -/
structure KeptByHost (R : Workspace → Workspace → Prop) (hostId : Nat) : Prop where
  record : ∀ w entry, R w (w.record entry)
  update : ∀ w (change : Sheet → Sheet),
    R w (w.updateHost hostId fun host => { host with sheet := change host.sheet })
  publish : ∀ w event, R w (w.publish hostId event)

variable {R : Workspace → Workspace → Prop} [IsPreorder Workspace R] {hostId : Nat} (h : KeptByHost R hostId)

include h

theorem KeptByHost.recordRequest (tracing : Tracing) (request : Request) :
    Keeps R (recordRequest tracing request) := by
  cases tracing with
  | silent => exact keeps_pure ()
  | traced label => exact fun w => h.record w _

theorem KeptByHost.access : (access hostId).Keeping R where
  read := fun w => refl_of R w
  update change := fun w => h.update w change
  announce notice := by
    intro w
    cases notice with
    | changed event => exact h.publish w event
    | counted functionName calls => exact h.record w _

theorem KeptByHost.contextOf (setup : HostSetup) : (contextOf hostId setup).Each (Keeps R) := by
  unfold Workspace.contextOf
  split
  · exact Context.minimal_each (h.recordRequest setup.tracing)
  · exact ((Sheet.context_each h.access).withVariableCode setup.code setup.failing).traced
      (h.recordRequest setup.tracing)

end Host

/-! ## Connections -/

/-- The workspace stays connected, if the formula that may get a host is in it, and no host or formula comes or
goes but such a host. Formulas keep their sources. -/
structure Retains (formula? : Option Nat) (w w' : Workspace) : Prop where
  connected : (∀ id ∈ formula?, (w.formulas.find? id).isSome) → ∀ subscriptions ledger,
    w.Connected subscriptions ledger → ∃ ledger', w'.Connected subscriptions ledger'
  nextHost : w.hosts.next ≤ w'.hosts.next
  sources : ∀ other, (w'.formulas.find? other).map Formula.source = (w.formulas.find? other).map Formula.source

namespace Retains

variable {formula? : Option Nat} {w w' w'' : Workspace}

theorem formulas (h : Retains formula? w w') (other : Nat) :
    (w'.formulas.find? other).isSome = (w.formulas.find? other).isSome := by
  have hsource := congrArg Option.isSome (h.sources other)
  rwa [Option.isSome_map, Option.isSome_map] at hsource

theorem refl (w : Workspace) : Retains formula? w w :=
  ⟨fun _ _ ledger h => ⟨ledger, h⟩, Nat.le_refl _, fun _ => rfl⟩

theorem trans (h : Retains formula? w w') (h' : Retains formula? w' w'') : Retains formula? w w'' where
  connected hformula subscriptions ledger hw := by
    obtain ⟨ledger', hw'⟩ := h.connected hformula subscriptions ledger hw
    exact h'.connected (fun id hid => (h.formulas id).trans (hformula id hid)) subscriptions ledger' hw'
  nextHost := Nat.le_trans h.nextHost h'.nextHost
  sources other := (h'.sources other).trans (h.sources other)

instance : IsPreorder Workspace (Retains formula?) where
  refl := refl
  trans _ _ _ := trans

theorem record (w : Workspace) (entry : Entry) : Retains formula? w (w.record entry) where
  connected _ _ ledger hw := ⟨ledger, hw.congr rfl rfl rfl rfl⟩
  nextHost := Nat.le_refl _
  sources _ := rfl

/-- A formula changes, but neither its connections nor its source. -/
theorem updateFormula (w : Workspace) (other : Nat) {change : Formula → Formula}
    (hchannel : ∀ f, (change f).channel = f.channel) (hattachment : ∀ f, (change f).attachment = f.attachment)
    (hsource : ∀ f, (change f).source = f.source) : Retains formula? w (w.updateFormula other change) where
  connected _ _ ledger hw := ⟨ledger, hw.updateFormula other hchannel hattachment⟩
  nextHost := Nat.le_refl _
  sources id := by
    rw [find?_updateFormula, Option.map_map]
    congr 1
    funext f
    by_cases heq : id = other <;> simp [heq, hsource]

theorem updateHost (w : Workspace) (hostId : Nat) (change : Sheet → Sheet) :
    Retains formula? w (w.updateHost hostId fun host => { host with sheet := change host.sheet }) where
  connected _ _ ledger hw := ⟨ledger, hw.congr (channel?_updateHost_same w hostId fun _ => rfl) rfl rfl rfl⟩
  nextHost := Nat.le_refl _
  sources _ := rfl

theorem publish (w : Workspace) (hostId : Nat) (event : ChangeEvent) : Retains formula? w (w.publish hostId event) where
  connected _ _ ledger hw := by
    have hnotifies := w.publish_notifies hostId event
    exact ⟨ledger, hw.of_find? (fun _ => by rw [hnotifies.hosts]) hnotifies.find? (fun _ _ => rfl) (fun _ _ => rfl)
      (by rw [hnotifies.hosts]) hnotifies.next⟩
  nextHost := Nat.le_of_eq (by rw [(w.publish_notifies hostId event).hosts])
  sources other := by
    rw [(w.publish_notifies hostId event).find?, Option.map_map]
    rfl

theorem keptByHost (hostId : Nat) : KeptByHost (Retains formula?) hostId :=
  ⟨record, fun w change => updateHost w hostId change, fun w event => publish w hostId event⟩

/-- The formula gets a new host. -/
theorem attach_addHost (w : Workspace) (id : Nat) :
    Retains (some id) w ((w.addHost .plain .empty).attach id w.hosts.next) where
  connected hformula subscriptions ledger hw := by
    obtain ⟨f, hf⟩ := Option.isSome_iff_exists.1 (hformula id rfl)
    exact ⟨_, (hw.addHost .plain .empty).attach hf (Nat.lt_succ_self w.hosts.next)⟩
  nextHost := by
    rw [nextHost_attach]
    exact Nat.le_succ w.hosts.next
  sources other := by
    obtain ⟨subscription, hfind⟩ := find?_attach (w.addHost .plain .empty) id w.hosts.next other
    rw [hfind, Option.map_map]
    show (w.formulas.find? other).map _ = _
    congr 1
    funext f
    by_cases heq : other = id <;> simp [heq]

end Retains

/-! ## Requests to a formula -/

section Requests

variable (id : Nat)

theorem ensureHost_retains : Keeps (Retains (some id)) (ensureHost id) := by
  intro w
  rw [run_ensureHost]
  split
  · exact .refl w
  · exact .attach_addHost w id

/-- What is done in the context of a host. -/
theorem hostContext_retains (hostId : Nat) {α : Type} {next : Context WorkspaceM → Answer WorkspaceM α}
    (hnext : ∀ ctx, ctx.Each (Keeps (Retains (some id))) → Keeps (Retains (some id)) (next ctx).run) :
    Keeps (Retains (some id)) (ExceptT.lift (hostContext hostId) >>= next).run :=
  fun w => hnext _ ((Retains.keptByHost hostId).contextOf (w.host hostId).setup) w

/-- What is done in the context of the formula's host. -/
theorem formulaContext_retains {α : Type} {next : Context WorkspaceM → Answer WorkspaceM α}
    (hnext : ∀ ctx, ctx.Each (Keeps (Retains (some id))) → Keeps (Retains (some id)) (next ctx).run) :
    Keeps (Retains (some id)) (ExceptT.lift (formulaContext id) >>= next).run := by
  have hhost : ∀ hostId, Keeps (Retains (some id)) (ExceptT.lift (hostContext hostId) >>= next).run :=
    fun hostId => hostContext_retains id hostId hnext
  exact (ensureHost_retains id).bind hhost

/-- A change of what the formula keeps. -/
theorem updateFormula_retains (change : Formula → Formula) (hchannel : ∀ f, (change f).channel = f.channel)
    (hattachment : ∀ f, (change f).attachment = f.attachment) (hsource : ∀ f, (change f).source = f.source) :
    Keeps (Retains (some id)) (modify (·.updateFormula id change) : WorkspaceM Unit) :=
  fun w => .updateFormula w id hchannel hattachment hsource

theorem readSource_retains (source : String) : Keeps (Retains (some id)) (readSource source).run := by
  unfold readSource
  split
  · exact keeps_pure _
  · have hrecord : Keeps (Retains (some id)) (modify (·.record (.parsed source)) : WorkspaceM Unit) :=
      fun w => .record w _
    exact hrecord.lift.andThen fun _ => keeps_ofExcept _

theorem get_retains : Keeps (Retains (some id)) (get : WorkspaceM Workspace) := fun w => .refl w

theorem tree_retains : Keeps (Retains (some id)) (tree id).run := by
  unfold tree
  refine (get_retains id).bind fun w => ?_
  dsimp only
  cases (w.formula id).tree with
  | some found => exact keeps_pure found
  | none =>
    refine (readSource_retains id _).bind fun found => ?_
    have hkept := updateFormula_retains id ({ · with tree := some found }) (fun _ => rfl) (fun _ => rfl)
      fun _ => rfl
    exact hkept.bind fun _ => keeps_pure found

theorem compile_retains : Keeps (Retains (some id)) (compile id).run := by
  unfold compile
  refine (tree_retains id).andThen fun expr? => ?_
  cases expr? with
  | none => exact keeps_pure _
  | some expr =>
    refine formulaContext_retains id fun ctx hctx => ?_
    rw [map_eq_pure_bind]
    exact (hctx.ofExpr expr).andThen fun form => keeps_pure _

theorem compiled_retains : Keeps (Retains (some id)) (compiled id).run := by
  unfold compiled
  have hdrop : Keeps (Retains (some id)) (modify (·.dropOutdated id) : WorkspaceM Unit) := by
    refine updateFormula_retains id _ (fun f => ?_) (fun f => ?_) fun f => ?_
    · split <;> rfl
    · split <;> rfl
    · split <;> rfl
  refine hdrop.bind fun _ => (get_retains id).bind fun w => ?_
  cases (w.formula id).compiled with
  | some found => exact keeps_pure found
  | none =>
    refine (compile_retains id).bind fun found => ?_
    have hkept := updateFormula_retains id ({ · with compiled := some found }) (fun _ => rfl) (fun _ => rfl)
      fun _ => rfl
    exact hkept.bind fun _ => keeps_pure found

theorem hasAggregates_retains : Keeps (Retains (some id)) (hasAggregates id) := by
  unfold hasAggregates
  refine (compiled_retains id).bind fun found => ?_
  cases found with
  | ok form? => cases form? <;> exact keeps_pure _
  | error error => exact keeps_pure _

theorem references_retains : Keeps (Retains (some id)) (references id).run := by
  unfold references
  refine (tree_retains id).andThen fun expr? => ?_
  cases expr? <;> exact keeps_pure _

/-- **Evaluation.** By whatever strategy a formula is evaluated, the workspace stays connected. -/
theorem evaluate_retains (strategy : Strategy) (bindings : Bindings) :
    Keeps (Retains (some id)) (evaluate id strategy bindings).run := by
  unfold evaluate
  cases strategy with
  | compiled =>
    refine (compiled_retains id).andThen fun form? => ?_
    cases form? with
    | none => exact keeps_pure _
    | some form => exact formulaContext_retains id fun ctx hctx => hctx.script bindings form.script
  | direct =>
    refine (tree_retains id).andThen fun expr? => ?_
    cases expr? with
    | none => exact keeps_pure _
    | some expr => exact formulaContext_retains id fun ctx hctx => hctx.walk bindings expr _
  | flattened =>
    refine (tree_retains id).andThen fun expr? => ?_
    cases expr? with
    | none => exact keeps_pure _
    | some expr => exact formulaContext_retains id fun ctx hctx => hctx.evaluatePostfix bindings expr

theorem run_retains (bindings : Bindings) : Keeps (Retains (some id)) (run id bindings).run := by
  unfold Workspace.run
  exact (get_retains id).lift.andThen fun w => evaluate_retains id _ bindings

theorem callCompiled_retains (hostId : Nat) (bindings : Bindings) :
    Keeps (Retains (some id)) (callCompiled id hostId bindings).run := by
  unfold callCompiled
  refine (compiled_retains id).andThen fun form? => ?_
  cases form? with
  | none => exact keeps_pure _
  | some form =>
    refine hostContext_retains id hostId fun ctx hctx => ?_
    rw [map_eq_pure_bind]
    have hcall : Keeps (Retains (some id)) (form.call ctx bindings).run := hctx.script bindings form.script
    exact hcall.andThen fun value => keeps_pure _

end Requests

end Workspace

end Formulary
