import Formulary.Proofs.Workspace.Delivery
import Formulary.Proofs.Workspace.Wiring

/-!
# Connections in a workspace

The channels of a workspace are those of its hosts and its formulas. Outside listeners hold their numbers in the
subscriptions of the session, formulas in their attachments. `Connected` keeps them wired to a ledger, whatever
is attached, detached, subscribed, cancelled or dropped.
-/

namespace Formulary

/-- The channel of a formula, where all who listen are outside. -/
def Channel.outside (channel : Channel String) : Channel Listener :=
  ⟨channel.next, channel.entries.map fun entry => (entry.1, .outside entry.2)⟩

namespace Channel

theorem outside_insert (channel : Channel String) (name : String) :
    Channel.outside (channel.insert name) = (Channel.outside channel).insert (.outside name) := by
  simp [Channel.outside, Table.insert]

theorem outside_erase (channel : Channel String) (id : Nat) :
    Channel.outside (channel.erase id) = (Channel.outside channel).erase id := by
  simp [Channel.outside, Table.erase, List.filter_map, Function.comp_def]

theorem values_outside (channel : Channel String) :
    (Channel.outside channel).values = channel.values.map .outside := by
  simp [Channel.outside, Table.values]

end Channel

namespace Workspace

def channel? (w : Workspace) : Source → Option (Channel Listener)
  | .host id => (w.hosts.find? id).map Host.channel
  | .formula id => (w.formulas.find? id).map fun f => f.channel.outside

/-- The subscription that a listener holds. -/
def held? (w : Workspace) (subscriptions : Dictionary Subscription) : Listener → Option Subscription
  | .outside name => subscriptions.find? name
  | .formula id => (w.formulas.find? id).bind fun f =>
    f.attachment.map fun attachment => ⟨.host attachment.host, attachment.subscription⟩

/-- The number of a source has been handed out. -/
def Handed (w : Workspace) : Source → Prop
  | .host id => id < w.hosts.next
  | .formula id => id < w.formulas.next

structure Connected (w : Workspace) (subscriptions : Dictionary Subscription) (ledger : Ledger) : Prop where
  wired : Wired w.channel? (w.held? subscriptions) ledger
  unique : ledger.Unique
  hosts : ∀ id, (w.hosts.find? id).isSome ↔ id < w.hosts.next
  formulas : w.formulas.Numbered
  handed : ∀ listener subscription, w.held? subscriptions listener = some subscription →
    w.Handed subscription.source

/-! ## Channels and numbers after a change -/

section Change

variable (w : Workspace) (id : Nat) (subscriptions : Dictionary Subscription)

theorem channel?_updateHost {change : Host → Host} {g : Channel Listener → Channel Listener}
    (hchange : ∀ host, (change host).channel = g host.channel) (source : Source) :
    (w.updateHost id change).channel? source =
      if source = .host id then (w.channel? source).map g else w.channel? source := by
  cases source with
  | formula other => rw [if_neg (fun h => Source.noConfusion h)]; rfl
  | host other =>
    simp only [channel?, find?_updateHost, Source.host.injEq]
    by_cases h : other = id
    · simp [h, hchange, Function.comp_def]
    · simp [h]

/-- The channel of one host changes. -/
theorem channel?_updateHost_some {w : Workspace} {id : Nat} {channel : Channel Listener}
    (hchannel : w.channel? (.host id) = some channel) {change : Host → Host}
    {g : Channel Listener → Channel Listener} (hchange : ∀ host, (change host).channel = g host.channel) :
    (w.updateHost id change).channel? = Function.update w.channel? (.host id) (some (g channel)) := by
  refine Function.eq_update_iff.2 ⟨?_, fun source hne => ?_⟩
  · rw [channel?_updateHost w id hchange, if_pos rfl, hchannel, Option.map_some]
  · rw [channel?_updateHost w id hchange, if_neg hne]

theorem channel?_updateHost_same {change : Host → Host} (hchange : ∀ host, (change host).channel = host.channel) :
    (w.updateHost id change).channel? = w.channel? := by
  funext source
  rw [channel?_updateHost w id (g := fun channel => channel) hchange]
  simp

theorem channel?_updateFormula {change : Formula → Formula} {g : Channel Listener → Channel Listener}
    (hchange : ∀ f, (change f).channel.outside = g f.channel.outside) (source : Source) :
    (w.updateFormula id change).channel? source =
      if source = .formula id then (w.channel? source).map g else w.channel? source := by
  cases source with
  | host other => rw [if_neg (fun h => Source.noConfusion h)]; rfl
  | formula other =>
    simp only [channel?, find?_updateFormula, Source.formula.injEq]
    by_cases h : other = id
    · simp [h, hchange, Function.comp_def]
    · simp [h]

theorem channel?_updateFormula_same {change : Formula → Formula}
    (hchange : ∀ f, (change f).channel = f.channel) : (w.updateFormula id change).channel? = w.channel? := by
  funext source
  rw [channel?_updateFormula w id (g := fun channel => channel) (fun f => by rw [hchange])]
  simp

theorem held?_updateFormula_same {change : Formula → Formula}
    (hchange : ∀ f, (change f).attachment = f.attachment) :
    (w.updateFormula id change).held? subscriptions = w.held? subscriptions := by
  funext listener
  cases listener with
  | outside => rfl
  | formula other =>
    simp only [held?, find?_updateFormula]
    cases w.formulas.find? other with
    | none => rfl
    | some f => by_cases h : other = id <;> simp [h, hchange]

/-- What a formula holds after it has been attached or detached. -/
theorem held?_updateFormula_attachment {f : Formula} (hf : w.formulas.find? id = some f)
    (attachment : Option Attachment) :
    (w.updateFormula id ({ · with attachment := attachment })).held? subscriptions =
      Function.update (w.held? subscriptions) (.formula id)
        (attachment.map fun attachment => ⟨.host attachment.host, attachment.subscription⟩) := by
  refine Function.eq_update_iff.2 ⟨by simp [held?, find?_updateFormula, hf], fun listener hne => ?_⟩
  cases listener with
  | outside name => rfl
  | formula other =>
    have h : other ≠ id := fun heq => hne (congrArg Listener.formula heq)
    simp [held?, find?_updateFormula, h]

theorem find?_addHost (setup : HostSetup) (sheet : Sheet) : (w.addHost setup sheet).hosts.find? id =
    (w.hosts.find? id).or (if id = w.hosts.next then some ⟨setup, sheet, .empty⟩ else none) :=
  Table.find?_insert w.hosts _ id

/-- What becomes of the formulas when one is detached. -/
theorem find?_detach (other : Nat) : (w.detach id).formulas.find? other =
    (w.formulas.find? other).map fun f => if other = id then { f with attachment := none } else f := by
  unfold detach
  split
  · next hnone =>
    cases hf : w.formulas.find? other with
    | none => rfl
    | some f =>
      by_cases h : other = id
      · rw [← h, formula_of_find? hf] at hnone
        rw [Option.map_some, if_pos h, ← hnone]
      · rw [Option.map_some, if_neg h]
  · exact find?_updateFormula _ id _ other

/-- What becomes of the formulas when one is attached. -/
theorem find?_attach (hostId other : Nat) : ∃ subscription, (w.attach id hostId).formulas.find? other =
    (w.formulas.find? other).map fun f =>
      if other = id then { f with attachment := some ⟨hostId, subscription⟩ } else f := by
  refine ⟨((w.detach id).host hostId).channel.next, ?_⟩
  rw [attach]
  refine (find?_updateFormula _ id _ other).trans ?_
  rw [formulas_updateHost, find?_detach, Option.map_map]
  congr 1
  funext f
  by_cases h : other = id <;> simp [h]

theorem run_ensureHost : (ensureHost id).run w = match (w.formula id).attachment with
    | some attachment => (attachment.host, w)
    | none => (w.hosts.next, (w.addHost .plain .empty).attach id w.hosts.next) := by
  unfold ensureHost
  simp only [StateT.run_bind, StateT.run_get, pure_bind]
  cases (w.formula id).attachment <;> rfl

theorem nextHost_detach : (w.detach id).hosts.next = w.hosts.next := by
  unfold detach
  split <;> rfl

theorem journal_detach : (w.detach id).journal = w.journal := by
  unfold detach
  split <;> rfl

theorem nextHost_attach (hostId : Nat) : (w.attach id hostId).hosts.next = w.hosts.next :=
  nextHost_detach w id

theorem journal_attach (hostId : Nat) : (w.attach id hostId).journal = w.journal := journal_detach w id

variable {w id}

theorem held?_of_attached {f : Formula} (hf : w.formulas.find? id = some f) {attachment : Attachment}
    (hattachment : f.attachment = some attachment) : w.held? subscriptions (.formula id) =
      some ⟨.host attachment.host, attachment.subscription⟩ := by
  simp [held?, hf, hattachment]

theorem detach_of_attached {attachment : Attachment} (h : (w.formula id).attachment = some attachment) :
    w.detach id = (w.updateHost attachment.host fun host =>
      { host with channel := host.channel.erase attachment.subscription }).updateFormula id
        ({ · with attachment := none }) := by
  rw [detach, h]

theorem channel?_detach {attachment : Attachment} (h : (w.formula id).attachment = some attachment) :
    (w.detach id).channel? = fun source => if source = .host attachment.host then
      (w.channel? source).map (·.erase attachment.subscription) else w.channel? source := by
  rw [detach_of_attached h]
  refine (channel?_updateFormula_same _ id ?_).trans (funext fun source => ?_)
  · exact fun _ => rfl
  · exact channel?_updateHost w attachment.host (fun _ => rfl) source

variable (w id)

theorem held?_detach_self : (w.detach id).held? subscriptions (.formula id) = none := by
  rw [held?, find?_detach]
  cases w.formulas.find? id <;> simp

end Change

/-! ## Changes that keep the workspace connected -/

namespace Connected

variable {w w' : Workspace} {subscriptions : Dictionary Subscription} {ledger : Ledger}
  (h : w.Connected subscriptions ledger)

include h

/-- The same sources, with other listeners. -/
theorem rewire {subscriptions' : Dictionary Subscription} {ledger' : Ledger}
    (hwired : Wired w'.channel? (w'.held? subscriptions') ledger') (hunique : ledger'.Unique)
    (hsources : ∀ source, (w'.channel? source).isSome = (w.channel? source).isSome)
    (hhosts : w'.hosts.next = w.hosts.next) (hformulas : w'.formulas.next = w.formulas.next)
    (hheld : ∀ listener subscription, w'.held? subscriptions' listener = some subscription →
      w.Handed subscription.source) : w'.Connected subscriptions' ledger' where
  wired := hwired
  unique := hunique
  hosts id := by
    have hsource := hsources (.host id)
    simp only [channel?, Option.isSome_map] at hsource
    rw [hsource, hhosts, h.hosts]
  formulas id hid := by
    have hsource := hsources (.formula id)
    simp only [channel?, Option.isSome_map] at hsource
    rw [hformulas] at hid
    rw [h.formulas id hid] at hsource
    exact Option.isNone_iff_eq_none.1 (by simpa using hsource)
  handed listener subscription hlistener := by
    have hhanded := hheld listener subscription hlistener
    cases hsource : subscription.source with
    | host id =>
      rw [hsource] at hhanded
      exact Nat.lt_of_lt_of_eq hhanded hhosts.symm
    | formula id =>
      rw [hsource] at hhanded
      exact Nat.lt_of_lt_of_eq hhanded hformulas.symm

theorem congr (hchannel : w'.channel? = w.channel?) (hheld : w'.held? subscriptions = w.held? subscriptions)
    (hhosts : w'.hosts.next = w.hosts.next) (hformulas : w'.formulas.next = w.formulas.next) :
    w'.Connected subscriptions ledger := by
  refine h.rewire (by rw [hchannel, hheld]; exact h.wired) h.unique (fun source => by rw [hchannel]) hhosts
    hformulas ?_
  rw [hheld]
  exact h.handed

/-- Hosts with the channels that they had, and formulas with their channels and attachments. -/
theorem of_find? {change : Nat → Formula → Formula}
    (hhost : ∀ id, (w'.hosts.find? id).map Host.channel = (w.hosts.find? id).map Host.channel)
    (hformula : ∀ id, w'.formulas.find? id = (w.formulas.find? id).map (change id))
    (hchannel : ∀ id f, (change id f).channel = f.channel)
    (hattachment : ∀ id f, (change id f).attachment = f.attachment) (hhosts : w'.hosts.next = w.hosts.next)
    (hformulas : w'.formulas.next = w.formulas.next) : w'.Connected subscriptions ledger := by
  refine h.congr (funext fun source => ?_) (funext fun listener => ?_) hhosts hformulas
  · cases source with
    | host id => exact hhost id
    | formula id =>
      rw [channel?, channel?, hformula, Option.map_map]
      simp only [Function.comp_def, hchannel]
  · cases listener with
    | outside name => rfl
    | formula id =>
      rw [held?, held?, hformula]
      cases w.formulas.find? id with
      | none => rfl
      | some f => simp only [Option.map_some, Option.bind_some, hattachment]

/-- A change of a formula that leaves its connections alone. -/
theorem updateFormula (id : Nat) {change : Formula → Formula} (hchannel : ∀ f, (change f).channel = f.channel)
    (hattachment : ∀ f, (change f).attachment = f.attachment) :
    (w.updateFormula id change).Connected subscriptions ledger :=
  h.congr (channel?_updateFormula_same w id hchannel) (held?_updateFormula_same w id subscriptions hattachment)
    rfl rfl

theorem handed_of_channel? {source : Source} {channel : Channel Listener}
    (hchannel : w.channel? source = some channel) : w.Handed source := by
  cases source with
  | host id =>
    obtain ⟨host, hhost, -⟩ := Option.map_eq_some_iff.1 hchannel
    exact (h.hosts id).1 (by rw [hhost]; rfl)
  | formula id =>
    obtain ⟨f, hf, -⟩ := Option.map_eq_some_iff.1 hchannel
    exact Table.lt_next h.formulas hf

/-- A listener gives up its number. -/
theorem unlisten {subscriptions' : Dictionary Subscription} {listener : Listener} {subscription : Subscription}
    (hheld : w.held? subscriptions listener = some subscription)
    (hchannels : w'.channel? = fun source => if source = subscription.source then
      (w.channel? source).map (·.erase subscription.id) else w.channel? source)
    (hheld' : w'.held? subscriptions' = Function.update (w.held? subscriptions) listener none)
    (hhosts : w'.hosts.next = w.hosts.next) (hformulas : w'.formulas.next = w.formulas.next) :
    w'.Connected subscriptions' (ledger.without listener) := by
  refine h.rewire ?_ (h.unique.without listener) (fun source => ?_) hhosts hformulas ?_
  · rw [hchannels, hheld']
    exact h.wired.unlisten hheld
  · rw [hchannels]
    dsimp only
    split
    · exact Option.isSome_map
    · rfl
  · rw [hheld']
    intro other subscription' hother
    rcases update_eq_some hother with ⟨-, hnone⟩ | ⟨-, hother⟩
    · exact absurd hnone.symm (Option.some_ne_none _)
    · exact h.handed other subscription' hother

/-- A listener that holds no number takes the next one of a channel. -/
theorem listen {subscriptions' : Dictionary Subscription} {listener : Listener} {source : Source}
    {channel : Channel Listener} (hchannel : w.channel? source = some channel)
    (hfree : w.held? subscriptions listener = none)
    (hchannels : w'.channel? = Function.update w.channel? source (some (channel.insert listener)))
    (hheld' : w'.held? subscriptions' =
      Function.update (w.held? subscriptions) listener (some ⟨source, channel.next⟩))
    (hhosts : w'.hosts.next = w.hosts.next) (hformulas : w'.formulas.next = w.formulas.next) :
    w'.Connected subscriptions' (ledger.listen source listener) := by
  refine h.rewire ?_ (h.unique.listen source listener) (fun other => ?_) hhosts hformulas ?_
  · rw [hchannels, hheld']
    exact h.wired.listen hchannel hfree
  · rw [hchannels]
    by_cases heq : other = source
    · rw [heq, Function.update_self, hchannel]
      rfl
    · rw [Function.update_of_ne heq]
  · rw [hheld']
    intro other subscription hother
    rcases update_eq_some hother with ⟨-, hnew⟩ | ⟨-, hother⟩
    · rw [← Option.some.inj hnew]
      exact h.handed_of_channel? hchannel
    · exact h.handed other subscription hother

/-- A source comes into the workspace, under a number that has not been handed out. -/
theorem opened {source : Source} (hnew : ¬ w.Handed source)
    (hchannels : w'.channel? = Function.update w.channel? source (some .empty))
    (hheld : w'.held? subscriptions = w.held? subscriptions) (hhosts : ∀ id, (w'.hosts.find? id).isSome ↔
      id < w'.hosts.next) (hformulas : w'.formulas.Numbered) (hhosts' : w.hosts.next ≤ w'.hosts.next)
    (hformulas' : w.formulas.next ≤ w'.formulas.next) : w'.Connected subscriptions ledger := by
  have hchannel : w.channel? source = none := by
    cases hchannel : w.channel? source with
    | none => rfl
    | some channel => exact absurd (h.handed_of_channel? hchannel) hnew
  refine ⟨?_, h.unique, hhosts, hformulas, fun listener subscription hlistener => ?_⟩
  · rw [hchannels, hheld]
    exact h.wired.opened hchannel fun listener id hlistener => hnew (h.handed _ _ hlistener)
  · rw [hheld] at hlistener
    have hhanded := h.handed listener subscription hlistener
    cases hsource : subscription.source with
    | host id =>
      rw [hsource] at hhanded
      exact Nat.lt_of_lt_of_le hhanded hhosts'
    | formula id =>
      rw [hsource] at hhanded
      exact Nat.lt_of_lt_of_le hhanded hformulas'

theorem exists_host {id : Nat} (hid : id < w.hosts.next) : ∃ host, w.hosts.find? id = some host :=
  Option.isSome_iff_exists.1 ((h.hosts id).2 hid)

/-- An attached formula has a host, which has it in its channel. -/
theorem exists_attached {id : Nat} {f : Formula} (hf : w.formulas.find? id = some f) {attachment : Attachment}
    (hattachment : f.attachment = some attachment) : ∃ host, w.hosts.find? attachment.host = some host ∧
      .formula id ∈ host.channel.values := by
  have hheld := held?_of_attached subscriptions hf hattachment
  obtain ⟨host, hhost⟩ := h.exists_host (h.handed _ _ hheld)
  have hchannel : w.channel? (.host attachment.host) = some host.channel := by simp [channel?, hhost]
  exact ⟨host, hhost, List.mem_map.2 ⟨_, (h.wired.held hchannel _ _).2 hheld, rfl⟩⟩

theorem detach (id : Nat) : (w.detach id).Connected subscriptions (ledger.without (.formula id)) := by
  cases hattachment : (w.formula id).attachment with
  | none =>
    have hheld : w.held? subscriptions (.formula id) = none := by
      cases hf : w.formulas.find? id with
      | none => simp [held?, hf]
      | some f =>
        rw [formula_of_find? hf] at hattachment
        simp [held?, hf, hattachment]
    rw [Workspace.detach, hattachment, h.wired.without_of_none hheld]
    exact h
  | some attachment =>
    obtain ⟨f, hf⟩ : ∃ f, w.formulas.find? id = some f := by
      cases hf : w.formulas.find? id with
      | none => rw [formula, hf] at hattachment; exact absurd hattachment.symm (Option.some_ne_none _)
      | some f => exact ⟨f, rfl⟩
    rw [formula_of_find? hf] at hattachment
    have hheld := held?_of_attached subscriptions hf hattachment
    have hattached : (w.formula id).attachment = some attachment := by rw [formula_of_find? hf, hattachment]
    have hdetach := detach_of_attached hattached
    have hheld' : (w.detach id).held? subscriptions =
        Function.update (w.held? subscriptions) (.formula id) none := by
      rw [hdetach]
      exact held?_updateFormula_attachment _ id subscriptions hf none
    exact h.unlisten hheld (channel?_detach hattached) hheld' (by rw [hdetach]; rfl) (by rw [hdetach]; rfl)

/-- The channel of a known host. -/
theorem exists_channel {id : Nat} (hid : id < w.hosts.next) :
    ∃ channel, w.channel? (.host id) = some channel ∧ (w.host id).channel = channel := by
  obtain ⟨host, hhost⟩ := h.exists_host hid
  exact ⟨host.channel, by simp [channel?, hhost], by rw [host_of_find? hhost]⟩

theorem attach {id hostId : Nat} {f : Formula} (hf : w.formulas.find? id = some f)
    (hhost : hostId < w.hosts.next) :
    (w.attach id hostId).Connected subscriptions (ledger.listen (.host hostId) (.formula id)) := by
  have hdetached := h.detach id
  obtain ⟨channel, hchannel, hnext⟩ := hdetached.exists_channel (by rwa [nextHost_detach] : hostId < _)
  have hf' : (w.detach id).formulas.find? id = some { f with attachment := none } := by
    rw [find?_detach, hf, Option.map_some, if_pos rfl]
  have hattach : w.attach id hostId = ((w.detach id).updateHost hostId fun host =>
      { host with channel := host.channel.insert (.formula id) }).updateFormula id
        ({ · with attachment := some ⟨hostId, channel.next⟩ }) := by
    rw [Workspace.attach, hnext]
  have hchannels : (w.attach id hostId).channel? =
      Function.update (w.detach id).channel? (.host hostId) (some (channel.insert (.formula id))) := by
    rw [hattach]
    refine (channel?_updateFormula_same _ id ?_).trans ?_
    · exact fun _ => rfl
    · exact channel?_updateHost_some hchannel (g := (·.insert (.formula id))) fun _ => rfl
  have hheld : (w.attach id hostId).held? subscriptions = Function.update
      ((w.detach id).held? subscriptions) (.formula id) (some ⟨.host hostId, channel.next⟩) := by
    rw [hattach]
    exact held?_updateFormula_attachment _ id subscriptions hf' (some ⟨hostId, channel.next⟩)
  rw [← Ledger.listen_without]
  exact hdetached.listen hchannel (held?_detach_self w id subscriptions) hchannels hheld (by rw [hattach]; rfl)
    (by rw [hattach]; rfl)

/-- Nothing stands under the number that the next host gets. -/
theorem find?_nextHost : w.hosts.find? w.hosts.next = none := by
  have := (h.hosts w.hosts.next).not.2 (Nat.lt_irrefl _)
  exact Option.isNone_iff_eq_none.1 (by simpa using this)

/-- A host comes into the workspace. -/
theorem addHost (setup : HostSetup) (sheet : Sheet) : (w.addHost setup sheet).Connected subscriptions ledger := by
  have hchannels : (w.addHost setup sheet).channel? =
      Function.update w.channel? (.host w.hosts.next) (some .empty) := by
    refine Function.eq_update_iff.2 ⟨?_, fun source hne => ?_⟩
    · rw [channel?, find?_addHost, h.find?_nextHost, if_pos rfl]
      rfl
    · cases source with
      | formula id => rfl
      | host id =>
        rw [channel?, channel?, find?_addHost, if_neg fun hid => hne (congrArg Source.host hid), Option.or_none]
  refine h.opened (Nat.lt_irrefl _) hchannels rfl (fun id => ?_) h.formulas (Nat.le_succ _) (Nat.le_refl _)
  rw [find?_addHost]
  show _ ↔ id < w.hosts.next + 1
  by_cases hid : id = w.hosts.next
  · simp [hid]
  · rw [if_neg hid, Option.or_none, h.hosts]
    omega

/-- A formula comes into the workspace. -/
theorem insertFormula (source : String) (strategy : Strategy) :
    Connected { w with formulas := w.formulas.insert (.ofSource source strategy) } subscriptions ledger := by
  have hchannels : channel? { w with formulas := w.formulas.insert (.ofSource source strategy) } =
      Function.update w.channel? (.formula w.formulas.next) (some .empty) := by
    refine Function.eq_update_iff.2 ⟨?_, fun other hne => ?_⟩
    · rw [channel?, Table.find?_insert_next h.formulas]
      rfl
    · cases other with
      | host id => rfl
      | formula id =>
        rw [channel?, channel?, Table.find?_insert_of_ne fun hid => hne (congrArg Source.formula hid)]
  have hheld : held? { w with formulas := w.formulas.insert (.ofSource source strategy) } subscriptions =
      w.held? subscriptions := by
    funext listener
    cases listener with
    | outside name => rfl
    | formula id =>
      by_cases hid : id = w.formulas.next
      · rw [held?, held?, hid, Table.find?_insert_next h.formulas, h.formulas _ (Nat.le_refl _)]
        rfl
      · rw [held?, held?, Table.find?_insert_of_ne hid]
  exact h.opened (Nat.lt_irrefl _) hchannels hheld h.hosts (h.formulas.insert _) (Nat.le_refl _) (Nat.le_succ _)

theorem dropFormula (id : Nat) : (w.dropFormula id).Connected subscriptions
    ((ledger.without (.formula id)).close (.formula id)) := by
  have hdetached := h.detach id
  have hfind : ∀ other, (w.dropFormula id).formulas.find? other =
      if other = id then none else (w.detach id).formulas.find? other := by
    intro other
    show ((w.detach id).formulas.erase id).find? other = _
    by_cases heq : other = id
    · rw [if_pos heq, heq, Table.find?_erase_self]
    · rw [if_neg heq, Table.find?_erase_of_ne _ heq]
  have hchannels : (w.dropFormula id).channel? =
      Function.update (w.detach id).channel? (.formula id) none := by
    refine Function.eq_update_iff.2 ⟨?_, fun source hne => ?_⟩
    · rw [channel?, hfind, if_pos rfl]
      rfl
    · cases source with
      | host other => rfl
      | formula other => rw [channel?, channel?, hfind, if_neg fun hid => hne (congrArg Source.formula hid)]
  have hheld : (w.dropFormula id).held? subscriptions = (w.detach id).held? subscriptions := by
    funext listener
    cases listener with
    | outside name => rfl
    | formula other =>
      by_cases heq : other = id
      · rw [heq, held?_detach_self, held?, hfind, if_pos rfl]
        rfl
      · rw [held?, held?, hfind, if_neg heq]
  refine ⟨?_, hdetached.unique.close _, hdetached.hosts, hdetached.formulas.erase id, ?_⟩
  · rw [hchannels, hheld]
    exact hdetached.wired.close (.formula id)
  · rw [hheld]
    exact hdetached.handed

end Connected

/-! ## Subscriptions -/

section Subscription

variable (w : Workspace) (subscriptions : Dictionary Subscription)

theorem channel?_unsubscribe (subscription : Subscription) (source : Source) :
    (Session.unsubscribe w subscription).channel? source = if source = subscription.source then
      (w.channel? source).map (·.erase subscription.id) else w.channel? source := by
  unfold Session.unsubscribe
  split
  · next id hsource =>
    rw [hsource]
    exact channel?_updateHost w id (fun _ => rfl) source
  · next id hsource =>
    rw [hsource]
    exact channel?_updateFormula w id (fun f => Channel.outside_erase f.channel subscription.id) source

theorem held?_unsubscribe (subscription : Subscription) :
    (Session.unsubscribe w subscription).held? subscriptions = w.held? subscriptions := by
  unfold Session.unsubscribe
  split
  · rfl
  · exact held?_updateFormula_same w _ subscriptions fun _ => rfl

theorem held?_insert (name : String) (subscription : Subscription) :
    w.held? (subscriptions.insert name subscription) =
      Function.update (w.held? subscriptions) (.outside name) (some subscription) := by
  refine Function.eq_update_iff.2 ⟨Dictionary.find?_insert_self subscriptions name subscription,
    fun listener hne => ?_⟩
  cases listener with
  | formula id => rfl
  | outside other =>
    exact Dictionary.find?_insert_of_ne subscriptions subscription fun heq => hne (congrArg Listener.outside heq)

theorem held?_erase (name : String) : w.held? (subscriptions.erase name) =
    Function.update (w.held? subscriptions) (.outside name) none := by
  refine Function.eq_update_iff.2 ⟨Dictionary.find?_erase_self subscriptions name, fun listener hne => ?_⟩
  cases listener with
  | formula id => rfl
  | outside other =>
    exact Dictionary.find?_erase_of_ne subscriptions fun heq => hne (congrArg Listener.outside heq)

theorem nextHost_unsubscribe (subscription : Subscription) :
    (Session.unsubscribe w subscription).hosts.next = w.hosts.next := by
  unfold Session.unsubscribe
  split <;> rfl

theorem nextFormula_unsubscribe (subscription : Subscription) :
    (Session.unsubscribe w subscription).formulas.next = w.formulas.next := by
  unfold Session.unsubscribe
  split <;> rfl

theorem held?_dropSubscription (s : Session) (name : String) :
    (s.dropSubscription name).workspace.held? (s.dropSubscription name).subscriptions =
      Function.update (s.workspace.held? s.subscriptions) (.outside name) none := by
  unfold Session.dropSubscription
  split
  · next hheld =>
    have hnone : none = s.workspace.held? s.subscriptions (.outside name) := hheld.symm
    exact (Function.update_eq_self_iff.2 hnone).symm
  · rw [held?_erase, held?_unsubscribe]

theorem nextHost_dropSubscription (s : Session) (name : String) :
    (s.dropSubscription name).workspace.hosts.next = s.workspace.hosts.next := by
  unfold Session.dropSubscription
  split
  · rfl
  · exact nextHost_unsubscribe _ _

theorem nextFormula_dropSubscription (s : Session) (name : String) :
    (s.dropSubscription name).workspace.formulas.next = s.workspace.formulas.next := by
  unfold Session.dropSubscription
  split
  · rfl
  · exact nextFormula_unsubscribe _ _

theorem nextHost_subscribe (s : Session) (name : String) (source : Source) :
    (s.subscribe name source).workspace.hosts.next = s.workspace.hosts.next := by
  unfold Session.subscribe
  cases source <;> cases s.subscriptions.find? name <;> first | rfl | exact nextHost_unsubscribe _ _

theorem nextFormula_subscribe (s : Session) (name : String) (source : Source) :
    (s.subscribe name source).workspace.formulas.next = s.workspace.formulas.next := by
  unfold Session.subscribe
  cases source <;> cases s.subscriptions.find? name <;> first | rfl | exact nextFormula_unsubscribe _ _

/-- The channels with a new listener from outside. -/
def subscribed (name : String) : Source → Workspace
  | .host id => w.updateHost id fun host => { host with channel := host.channel.insert (.outside name) }
  | .formula id => w.updateFormula id fun f => { f with channel := f.channel.insert name }

theorem channel?_subscribed (name : String) (source other : Source) :
    (w.subscribed name source).channel? other =
      if other = source then (w.channel? other).map (·.insert (.outside name)) else w.channel? other := by
  cases source with
  | host id => exact channel?_updateHost w id (fun _ => rfl) other
  | formula id => exact channel?_updateFormula w id (fun f => Channel.outside_insert f.channel name) other

theorem held?_subscribed (name : String) (source : Source) :
    (w.subscribed name source).held? subscriptions = w.held? subscriptions := by
  cases source with
  | host id => rfl
  | formula id => exact held?_updateFormula_same w id subscriptions fun _ => rfl

/-- The number is taken before an older one is given up. -/
theorem subscribe_eq {s : Session} {source : Source} {channel : Channel Listener}
    (hchannel : s.workspace.channel? source = some channel) (name : String) :
    s.subscribe name source = { s with
      workspace := match s.subscriptions.find? name with
        | some older => Session.unsubscribe (s.workspace.subscribed name source) older
        | none => s.workspace.subscribed name source
      subscriptions := s.subscriptions.insert name ⟨source, channel.next⟩ } := by
  cases source with
  | host id =>
    obtain ⟨host, hhost, rfl⟩ := Option.map_eq_some_iff.1 hchannel
    rw [Session.subscribe]
    simp only [host_of_find? hhost]
    rfl
  | formula id =>
    obtain ⟨f, hf, rfl⟩ := Option.map_eq_some_iff.1 hchannel
    rw [Session.subscribe]
    simp only [formula_of_find? hf]
    rfl

end Subscription

namespace Connected

variable {s : Session} {ledger : Ledger} (h : s.workspace.Connected s.subscriptions ledger)

include h

theorem dropSubscription (name : String) : (s.dropSubscription name).workspace.Connected
    (s.dropSubscription name).subscriptions (ledger.without (.outside name)) := by
  have hheld' := held?_dropSubscription s name
  cases hheld : s.subscriptions.find? name with
  | none =>
    have hnone : s.workspace.held? s.subscriptions (.outside name) = none := hheld
    rw [Session.dropSubscription, hheld, h.wired.without_of_none hnone]
    exact h
  | some subscription =>
    have hchannels : (s.dropSubscription name).workspace.channel? = fun source =>
        if source = subscription.source then (s.workspace.channel? source).map (·.erase subscription.id)
        else s.workspace.channel? source := by
      rw [Session.dropSubscription, hheld]
      exact funext (channel?_unsubscribe s.workspace subscription)
    exact h.unlisten hheld hchannels hheld' (nextHost_dropSubscription s name) (nextFormula_dropSubscription s name)

/-- The older number of a listener is below the new one, so it may as well be given up before. -/
theorem channel?_subscribe {source : Source} {channel : Channel Listener}
    (hchannel : s.workspace.channel? source = some channel) (name : String) :
    ∃ channel', (s.dropSubscription name).workspace.channel? source = some channel' ∧
      channel'.next = channel.next ∧ (s.subscribe name source).workspace.channel? =
        Function.update (s.dropSubscription name).workspace.channel? source
          (some (channel'.insert (.outside name))) := by
  rw [subscribe_eq hchannel, Session.dropSubscription]
  cases hheld : s.subscriptions.find? name with
  | none =>
    refine ⟨channel, hchannel, rfl, Function.eq_update_iff.2 ⟨?_, fun other hne => ?_⟩⟩
    · refine (channel?_subscribed s.workspace name source source).trans ?_
      rw [if_pos rfl, hchannel]
      rfl
    · refine (channel?_subscribed s.workspace name source other).trans ?_
      rw [if_neg hne]
  | some older =>
    have hfreed := fun w => channel?_unsubscribe w older
    refine ⟨if source = older.source then channel.erase older.id else channel, ?_, ?_,
      Function.eq_update_iff.2 ⟨?_, fun other hne => ?_⟩⟩
    · refine (hfreed s.workspace source).trans ?_
      split
      · rw [hchannel]
        rfl
      · exact hchannel
    · split <;> rfl
    · refine (hfreed (s.workspace.subscribed name source) source).trans ?_
      rw [channel?_subscribed, if_pos rfl, hchannel]
      split
      · next hsource =>
        have hmem := (h.wired.held hchannel older.id (.outside name)).2 (by
          rw [hsource]
          exact hheld)
        have hne := Nat.ne_of_lt (h.wired.lt_next hchannel _ hmem)
        exact congrArg some (Table.erase_insert_of_ne hne _)
      · rfl
    · refine (hfreed (s.workspace.subscribed name source) other).trans ?_
      rw [channel?_subscribed, if_neg hne]
      exact (hfreed s.workspace other).symm

/-- A listener from outside turns to a source. -/
theorem subscribe {source : Source} {channel : Channel Listener}
    (hchannel : s.workspace.channel? source = some channel) (name : String) :
    (s.subscribe name source).workspace.Connected (s.subscribe name source).subscriptions
      (ledger.listen source (.outside name)) := by
  have hdropped := h.dropSubscription name
  obtain ⟨channel', hchannel', hnext, hchannels⟩ := h.channel?_subscribe hchannel name
  have hnone := held?_dropSubscription s name
  have hheld : (s.subscribe name source).workspace.held? (s.subscribe name source).subscriptions =
      Function.update ((s.dropSubscription name).workspace.held? (s.dropSubscription name).subscriptions)
        (.outside name) (some ⟨source, channel'.next⟩) := by
    -- to insert under a name is to erase what the name held
    rw [hnone, Function.update_idem, subscribe_eq hchannel, hnext]
    dsimp only
    rw [held?_insert]
    congr 1
    split
    · rw [held?_unsubscribe, held?_subscribed]
    · rw [held?_subscribed]
  have hfree : (s.dropSubscription name).workspace.held? (s.dropSubscription name).subscriptions
      (.outside name) = none := by
    rw [hnone, Function.update_self]
  have hhosts : (s.subscribe name source).workspace.hosts.next =
      (s.dropSubscription name).workspace.hosts.next := by
    rw [nextHost_subscribe, nextHost_dropSubscription]
  have hformulas : (s.subscribe name source).workspace.formulas.next =
      (s.dropSubscription name).workspace.formulas.next := by
    rw [nextFormula_subscribe, nextFormula_dropSubscription]
  rw [← Ledger.listen_without]
  exact hdropped.listen hchannel' hfree hchannels hheld hhosts hformulas

end Connected

end Workspace

end Formulary
