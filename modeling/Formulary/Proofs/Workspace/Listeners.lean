import Formulary.Proofs.Event.Rehearsal
import Formulary.Proofs.Workspace.Linked

/-!
# Listeners are accounted for

Whoever listens to a host or to a formula is a formula attached to the host, or holds a subscription that has been
neither cancelled nor dropped. So in any session the listeners can be counted by those who hold subscriptions, and a
subscription that ends takes its own entry out of its channel and leaves all others where they stand
(`Session.Accounted`, `Session.listeners_accounted`).
-/

namespace Formulary

/-- A subscription's entry is gone from the channel, if there still is one, and all other entries stand as they did. -/
structure Workspace.Removes (w w' : Workspace) (listener : Listener) (subscription : Subscription) : Prop where
  entry : ∀ channel, w.channel? subscription.source = some channel → ∃ front back,
    channel.entries = front ++ (subscription.id, listener) :: back ∧
      w'.channel? subscription.source = some ⟨channel.next, front ++ back⟩
  closed : w.channel? subscription.source = none → w'.channel? subscription.source = none
  others : ∀ source, source ≠ subscription.source → w'.channel? source = w.channel? source

namespace Session

open Workspace

/-! ## Who holds what -/

/-- The formulas that names stand for. -/
def liveFormulas (s : Session) : List Nat := s.formulas.entries.map Prod.snd

/-- How many formulas are attached to a host. -/
def attachedTo (s : Session) (hostId : Nat) : Nat :=
  s.liveFormulas.countP fun id => (s.workspace.formula id).attachment.any (·.host = hostId)

/-- How many subscriptions there are to a source. -/
def subscribedTo (s : Session) (source : Source) : Nat :=
  s.subscriptions.entries.countP fun entry => entry.2.source = source

/-- The listeners are those who hold subscriptions. -/
structure Accounted (s : Session) : Prop where
  live : s.liveFormulas.Nodup ∧ ∀ id, id ∈ s.liveFormulas ↔ (s.workspace.formulas.find? id).isSome
  host : ∀ id, (s.workspace.host id).channel.size = s.attachedTo id + s.subscribedTo (.host id)
  formula : ∀ id ∈ s.liveFormulas, (s.workspace.formula id).channel.size = s.subscribedTo (.formula id)
  /-- No two entries of a channel have one number. -/
  distinct : ∀ source channel, s.workspace.channel? source = some channel → (channel.entries.map Prod.fst).Nodup
  cancelled : ∀ name subscription, s.subscriptions.find? name = some subscription →
    ∀ command ∈ [Command.cancel name, .dropSubscription name],
      Removes s.workspace (s.step command).1.workspace (.outside name) subscription
  /-- A formula that is attached elsewhere, or dropped, is detached first. -/
  detached : ∀ id attachment, (s.workspace.formula id).attachment = some attachment →
    Removes s.workspace (s.workspace.detach id) (.formula id) ⟨.host attachment.host, attachment.subscription⟩

/-- What a formula holds at its host. -/
def holdingOf (s : Session) (id : Nat) : Option (Listener × Subscription) :=
  (s.workspace.formula id).attachment.map fun attachment =>
    (.formula id, ⟨.host attachment.host, attachment.subscription⟩)

/-- Who holds which subscription. -/
def holdings (s : Session) : List (Listener × Subscription) :=
  s.liveFormulas.filterMap s.holdingOf ++ s.subscriptions.entries.map fun entry => (.outside entry.1, entry.2)

theorem held?_formula (s : Session) (id : Nat) :
    s.workspace.held? s.subscriptions (.formula id) = (s.holdingOf id).map Prod.snd := by
  rw [holdingOf, Option.map_map, Workspace.formula, held?]
  cases s.workspace.formulas.find? id with
  | none => rfl
  | some f => rfl

theorem fst_of_holdingOf {s : Session} {id : Nat} {holding : Listener × Subscription}
    (h : s.holdingOf id = some holding) : holding.1 = .formula id := by
  obtain ⟨attachment, -, rfl⟩ := Option.map_eq_some_iff.1 h
  rfl

theorem isSome_of_holdingOf {s : Session} {id : Nat} {holding : Listener × Subscription}
    (h : s.holdingOf id = some holding) : (s.workspace.formulas.find? id).isSome := by
  cases hf : s.workspace.formulas.find? id with
  | some f => rfl
  | none =>
    rw [holdingOf, Workspace.formula, hf] at h
    exact absurd h.symm (Option.some_ne_none _)

namespace Linked

variable {s : Session} (h : s.Linked)

include h

theorem mem_liveFormulas_iff {id : Nat} : id ∈ s.liveFormulas ↔ (s.workspace.formulas.find? id).isSome := by
  constructor
  · intro hid
    obtain ⟨⟨name, id⟩, hentry, rfl⟩ := List.mem_map.1 hid
    exact h.named.formula name id (h.formulas.mem_entries_iff.1 hentry)
  · intro hid
    obtain ⟨name, hname⟩ := h.owned id hid
    exact List.mem_map.2 ⟨(name, id), h.formulas.mem_entries_iff.2 hname, rfl⟩

theorem nodup_liveFormulas : s.liveFormulas.Nodup := by
  refine List.Nodup.map_on ?_ h.formulas.of_map
  rintro ⟨name, id⟩ hentry ⟨name', id'⟩ hentry' heq
  obtain rfl : id = id' := heq
  rw [h.named.distinct name name' id (h.formulas.mem_entries_iff.1 hentry) (h.formulas.mem_entries_iff.1 hentry')]

theorem mem_holdings_iff {listener : Listener} {subscription : Subscription} :
    (listener, subscription) ∈ s.holdings ↔ s.workspace.held? s.subscriptions listener = some subscription := by
  rw [holdings, List.mem_append, List.mem_filterMap, List.mem_map]
  cases listener with
  | outside name =>
    constructor
    · rintro (⟨id, -, hholding⟩ | ⟨entry, hentry, heq⟩)
      · exact absurd (fst_of_holdingOf hholding) Listener.noConfusion
      · obtain ⟨hname, rfl⟩ := Prod.mk.inj heq
        rw [← hname]
        exact h.subscriptions.mem_entries_iff.1 hentry
    · intro hheld
      exact .inr ⟨(name, subscription), h.subscriptions.mem_entries_iff.2 hheld, rfl⟩
  | formula id =>
    rw [held?_formula]
    constructor
    · rintro (⟨id', -, hholding⟩ | ⟨entry, -, heq⟩)
      · obtain rfl := Listener.formula.inj (fst_of_holdingOf hholding)
        rw [hholding, Option.map_some]
      · exact absurd (Prod.mk.inj heq).1 Listener.noConfusion
    · intro hheld
      obtain ⟨⟨listener, subscription⟩, hholding, rfl⟩ := Option.map_eq_some_iff.1 hheld
      obtain rfl := fst_of_holdingOf hholding
      exact .inl ⟨id, h.mem_liveFormulas_iff.2 (isSome_of_holdingOf hholding), hholding⟩

theorem nodup_holdings : s.holdings.Nodup := by
  refine List.Nodup.append ?_ ?_ ?_
  · refine h.nodup_liveFormulas.filterMap fun id id' holding hholding hholding' => ?_
    exact Listener.formula.inj ((fst_of_holdingOf hholding).symm.trans (fst_of_holdingOf hholding'))
  · refine List.Nodup.map (fun entry entry' heq => ?_) h.subscriptions.of_map
    obtain ⟨hname, hsubscription⟩ := Prod.mk.inj heq
    exact Prod.ext (Listener.outside.inj hname) hsubscription
  · intro holding hholding hholding'
    obtain ⟨id, -, hid⟩ := List.mem_filterMap.1 hholding
    obtain ⟨entry, -, rfl⟩ := List.mem_map.1 hholding'
    exact Listener.noConfusion (fst_of_holdingOf hid)

theorem size_eq {source : Source} {channel : Channel Listener}
    (hchannel : s.workspace.channel? source = some channel) :
    channel.size = s.holdings.countP fun holding => holding.2.source = source := by
  obtain ⟨ledger, hconnected⟩ := h.connected
  exact hconnected.wired.size_eq h.nodup_holdings (fun _ _ => h.mem_holdings_iff) hchannel

theorem size_host (id : Nat) :
    (s.workspace.host id).channel.size = s.holdings.countP fun holding => holding.2.source = .host id := by
  obtain ⟨ledger, hconnected⟩ := h.connected
  cases hhost : s.workspace.hosts.find? id with
  | some host =>
    rw [host_of_find? hhost]
    exact h.size_eq (by simp [channel?, hhost])
  | none =>
    -- a number that is held was handed out, and hosts are never taken out of the workspace
    have hnobody : ∀ holding ∈ s.holdings, ¬ decide (holding.2.source = .host id) = true := by
      intro holding hholding hsource
      have hhanded := hconnected.handed _ _ (h.mem_holdings_iff.1 hholding)
      rw [of_decide_eq_true hsource] at hhanded
      have hsome := (hconnected.hosts id).2 hhanded
      rw [hhost] at hsome
      exact absurd hsome Bool.false_ne_true
    rw [List.countP_eq_zero.2 hnobody, Workspace.host, hhost]
    rfl

theorem size_formula {id : Nat} (hid : id ∈ s.liveFormulas) :
    (s.workspace.formula id).channel.size = s.holdings.countP fun holding => holding.2.source = .formula id := by
  obtain ⟨f, hf⟩ := Option.isSome_iff_exists.1 (h.mem_liveFormulas_iff.1 hid)
  have hchannel : s.workspace.channel? (.formula id) = some f.channel.outside := by simp [channel?, hf]
  rw [formula_of_find? hf, ← h.size_eq hchannel]
  exact (List.length_map _).symm

omit h in
/-- Those who hold a subscription to a source are formulas and those outside. -/
theorem countP_holdings (s : Session) (source : Source) :
    (s.holdings.countP fun holding => holding.2.source = source) =
      (s.liveFormulas.countP fun id => (s.workspace.formula id).attachment.any (.host ·.host = source)) +
        s.subscribedTo source := by
  rw [holdings, List.countP_append, List.countP_filterMap, List.countP_map, subscribedTo]
  congr 2
  funext id
  rw [holdingOf]
  cases (s.workspace.formula id).attachment with
  | none => rfl
  | some attachment => rfl

/-! ## Subscriptions that end -/

/-- Who holds a number in a channel gives it up. -/
theorem removes {w' : Workspace} {listener : Listener} {subscription : Subscription}
    (hheld : s.workspace.held? s.subscriptions listener = some subscription)
    (hw' : ∀ source, w'.channel? source = if source = subscription.source then
      (s.workspace.channel? source).map (·.erase subscription.id) else s.workspace.channel? source) :
    Removes s.workspace w' listener subscription where
  entry channel hchannel := by
    obtain ⟨ledger, hconnected⟩ := h.connected
    have hmem := (hconnected.wired.held hchannel subscription.id listener).2 hheld
    obtain ⟨front, back, hentries, herase⟩ :=
      Table.erase_eq_of_nodup (hconnected.wired.nodup hchannel) hmem
    exact ⟨front, back, hentries, by rw [hw', if_pos rfl, hchannel, Option.map_some, herase]⟩
  closed hnone := by rw [hw', if_pos rfl, hnone, Option.map_none]
  others source hne := by rw [hw', if_neg hne]

theorem dropSubscription_removes {name : String} {subscription : Subscription}
    (hname : s.subscriptions.find? name = some subscription) :
    Removes s.workspace (s.dropSubscription name).workspace (.outside name) subscription := by
  refine h.removes hname fun source => ?_
  rw [Session.dropSubscription, hname]
  exact channel?_unsubscribe s.workspace subscription source

theorem detach_removes {id : Nat} {attachment : Attachment}
    (hattachment : (s.workspace.formula id).attachment = some attachment) :
    Removes s.workspace (s.workspace.detach id) (.formula id) ⟨.host attachment.host, attachment.subscription⟩ := by
  refine h.removes ?_ fun source => ?_
  · rw [held?_formula, holdingOf, hattachment]
    rfl
  · rw [channel?_detach hattachment]

theorem accounted : s.Accounted where
  live := ⟨h.nodup_liveFormulas, fun _ => h.mem_liveFormulas_iff⟩
  host id := by
    rw [h.size_host, countP_holdings, attachedTo]
    simp only [Source.host.injEq]
  formula id hid := by
    rw [h.size_formula hid, countP_holdings]
    simp
  distinct source channel hchannel := by
    obtain ⟨ledger, hconnected⟩ := h.connected
    exact hconnected.wired.nodup hchannel
  cancelled name subscription hname command hcommand := by
    have hstep : (s.step command).1 = s.dropSubscription name := by
      simp only [List.mem_cons, List.not_mem_nil, or_false] at hcommand
      rcases hcommand with rfl | rfl
      · exact run_cancel s name
      · rfl
    rw [hstep]
    exact h.dropSubscription_removes hname
  detached _ _ hattachment := h.detach_removes hattachment

end Linked

/-- **No leaks.** After any commands, the listeners of hosts and of formulas are those who hold subscriptions, and so
are the listeners of a single channel, whatever they do when they hear an event. -/
theorem listeners_accounted (commands : List Command) (steps : List Rehearsal.Step) :
    (after commands).Accounted ∧ (Rehearsal.run .start (steps.map .take)).Accounted :=
  ⟨(linked_after commands).accounted, Rehearsal.accounted_run steps⟩

/-- A formula and a listener from outside, after another one has gone. -/
example : ((after [.makeHost "h" .plain .empty, .subscribe "a" (.host "h"),
    .makeFormula "f" "A + 1" .compiled (some "h"), .subscribe "b" (.host "h"), .cancel "a"]).workspace.host
      0).channel.values = [.formula 0, .outside "b"] := by decide

end Session

end Formulary
