import Formulary.Event.Rehearsal
import Formulary.Proofs.Dictionary
import Formulary.Proofs.Workspace.Connected

/-!
# Listeners that react

Whatever listeners do when they hear an event, those in the channel are those whose subscription has not ended, each
under a number of its own (`Rehearsal.accounted_run`). The channel is wired as those of a workspace are, as its
only source, which may be closed.
-/

namespace Formulary

namespace Rehearsal

namespace State

def channel? (state : State) (source : Source) : Option (Channel Formulary.Listener) :=
  if source = .host 0 then state.channel.map Channel.outside else none

def held? (state : State) : Formulary.Listener → Option Subscription
  | .outside label => (state.subscriptions.find? label).map (⟨.host 0, ·⟩)
  | .formula _ => none

/-- Those in the channel are those who have subscribed. -/
structure Linked (state : State) : Prop where
  wired : ∃ ledger, Wired state.channel? state.held? ledger
  distinct : state.subscriptions.Distinct

/-- The channel has as many listeners as there are subscriptions, no two of them under one number, and to end a
subscription is to take its entry out from between the others. -/
structure Accounted (state : State) : Prop where
  size : ∀ channel ∈ state.channel, channel.size = state.subscriptions.entries.length
  distinct : ∀ channel ∈ state.channel, (channel.entries.map Prod.fst).Nodup
  removes : ∀ channel ∈ state.channel, ∀ label id, state.subscriptions.find? label = some id → ∃ front back,
    channel.entries = front ++ (id, label) :: back ∧
      (state.unsubscribe label).channel = some ⟨channel.next, front ++ back⟩

theorem linked_start : start.Linked := by
  have hheld : start.held? = fun _ => none := by
    funext listener
    cases listener <;> rfl
  have hchannel : start.channel? = Function.update (fun _ => none) (.host 0) (some .empty) := by
    refine Function.eq_update_iff.2 ⟨rfl, fun source hne => ?_⟩
    rw [channel?, if_neg hne]
  refine ⟨⟨[], ?_⟩, Dictionary.distinct_empty⟩
  rw [hchannel, hheld]
  exact Wired.noChannels.opened rfl fun _ _ hnone => Option.some_ne_none _ hnone.symm

section Change

variable {state state' : State} {label : String}

theorem held?_outside {id : Nat} (h : state.subscriptions.find? label = some id) :
    state.held? (.outside label) = some ⟨.host 0, id⟩ := by rw [held?, h, Option.map_some]

theorem held?_erase (h : state'.subscriptions = state.subscriptions.erase label) :
    state'.held? = Function.update state.held? (.outside label) none := by
  refine Function.eq_update_iff.2 ⟨?_, fun listener hne => ?_⟩
  · rw [held?, h, Dictionary.find?_erase_self]
    rfl
  · cases listener with
    | formula id => rfl
    | outside other =>
      rw [held?, held?, h, Dictionary.find?_erase_of_ne state.subscriptions fun heq =>
        hne (congrArg Formulary.Listener.outside heq)]

theorem held?_insert {id : Nat} (h : state'.subscriptions = state.subscriptions.insert label id) :
    state'.held? = Function.update state.held? (.outside label) (some ⟨.host 0, id⟩) := by
  refine Function.eq_update_iff.2 ⟨?_, fun listener hne => ?_⟩
  · rw [held?, h, Dictionary.find?_insert_self]
    rfl
  · cases listener with
    | formula id => rfl
    | outside other =>
      rw [held?, held?, h, Dictionary.find?_insert_of_ne state.subscriptions id fun heq =>
        hne (congrArg Formulary.Listener.outside heq)]

theorem channel?_eq_update (state state' : State) : state'.channel? =
    Function.update state.channel? (.host 0) (state'.channel.map Channel.outside) := by
  refine Function.eq_update_iff.2 ⟨rfl, fun source hne => ?_⟩
  rw [channel?, channel?, if_neg hne, if_neg hne]

theorem find?_unsubscribe (state : State) (label : String) :
    (state.unsubscribe label).subscriptions.find? label = none := by
  unfold unsubscribe
  cases hlabel : state.subscriptions.find? label with
  | none => exact hlabel
  | some id => exact Dictionary.find?_erase_self state.subscriptions label

end Change

namespace Linked

variable {state : State} (h : state.Linked)

include h

theorem unsubscribe (label : String) : (state.unsubscribe label).Linked := by
  unfold State.unsubscribe
  cases hlabel : state.subscriptions.find? label with
  | none => exact h
  | some id =>
    obtain ⟨ledger, hwired⟩ := h.wired
    have hunlistened := hwired.unlisten (held?_outside hlabel)
    refine ⟨⟨ledger.without (.outside label), ?_⟩, h.distinct.erase label⟩
    rw [held?_erase rfl]
    convert hunlistened using 1
    funext source
    by_cases heq : source = .host 0
    · simp [channel?, heq, Channel.outside_erase, Function.comp_def]
    · simp [channel?, heq]

/-- The older number of a label is below the new one, so it may as well be given up before. -/
theorem subscribe_eq {channel : Channel String} (hchannel : state.channel = some channel) (label : String)
    (reaction : List Step) : ∃ channel', (state.unsubscribe label).channel = some channel' ∧
      (state.subscribe label reaction).channel = some (channel'.insert label) ∧
      (state.subscribe label reaction).subscriptions =
        (state.unsubscribe label).subscriptions.insert label channel'.next := by
  unfold State.subscribe State.unsubscribe
  rw [hchannel]
  dsimp only
  cases hlabel : state.subscriptions.find? label with
  | none => exact ⟨channel, hchannel, rfl, rfl⟩
  | some id =>
    obtain ⟨ledger, hwired⟩ := h.wired
    have hsource : state.channel? (.host 0) = some channel.outside := by
      rw [channel?, if_pos rfl, hchannel, Option.map_some]
    have hlt : id < channel.next :=
      hwired.lt_next hsource _ ((hwired.held hsource id (.outside label)).2 (held?_outside hlabel))
    refine ⟨channel.erase id, rfl, ?_, rfl⟩
    exact congrArg some (Table.erase_insert_of_ne (Nat.ne_of_lt hlt) label)

theorem subscribe (label : String) (reaction : List Step) : (state.subscribe label reaction).Linked := by
  cases hchannel : state.channel with
  | none =>
    unfold State.subscribe
    rw [hchannel]
    exact h
  | some channel =>
    obtain ⟨channel', hfreed, hinserted, hsubscriptions⟩ := h.subscribe_eq hchannel label reaction
    have hlinked := h.unsubscribe label
    obtain ⟨ledger, hwired⟩ := hlinked.wired
    have hsource : (state.unsubscribe label).channel? (.host 0) = some channel'.outside := by
      rw [channel?, if_pos rfl, hfreed, Option.map_some]
    have hheld : (state.unsubscribe label).held? (.outside label) = none := by
      rw [held?, find?_unsubscribe, Option.map_none]
    refine ⟨⟨ledger.listen (.host 0) (.outside label), ?_⟩, ?_⟩
    · rw [held?_insert hsubscriptions, channel?_eq_update (state.unsubscribe label), hinserted,
        Option.map_some, Channel.outside_insert]
      exact hwired.listen hsource hheld
    · rw [hsubscriptions]
      exact hlinked.distinct.insert label channel'.next

theorem close : Linked { state with channel := none } := by
  obtain ⟨ledger, hwired⟩ := h.wired
  refine ⟨⟨ledger.close (.host 0), ?_⟩, h.distinct⟩
  rw [channel?_eq_update state]
  exact hwired.close (.host 0)

/-- The subscriptions, as the listeners hold them. -/
theorem mem_subscriptions_iff {listener : Formulary.Listener} {subscription : Subscription} :
    (listener, subscription) ∈ (state.subscriptions.entries.map fun entry =>
      (Formulary.Listener.outside entry.1, Subscription.mk (.host 0) entry.2)) ↔
        state.held? listener = some subscription := by
  rw [List.mem_map]
  cases listener with
  | formula id =>
    refine iff_of_false ?_ fun hnone => Option.some_ne_none _ hnone.symm
    rintro ⟨entry, -, heq⟩
    exact Formulary.Listener.noConfusion (Prod.mk.inj heq).1
  | outside label =>
    rw [held?, Option.map_eq_some_iff]
    constructor
    · rintro ⟨⟨label', id⟩, hentry, heq⟩
      obtain ⟨hlabel, rfl⟩ := Prod.mk.inj heq
      obtain rfl := Formulary.Listener.outside.inj hlabel
      exact ⟨id, h.distinct.mem_entries_iff.1 hentry, rfl⟩
    · rintro ⟨id, hid, rfl⟩
      exact ⟨(label, id), h.distinct.mem_entries_iff.2 hid, rfl⟩

theorem accounted : state.Accounted := by
  obtain ⟨ledger, hwired⟩ := h.wired
  have hsource : ∀ channel ∈ state.channel, state.channel? (.host 0) = some channel.outside := by
    intro channel hchannel
    rw [channel?, if_pos rfl, hchannel, Option.map_some]
  have hdistinct : ∀ channel ∈ state.channel, (channel.entries.map Prod.fst).Nodup := by
    intro channel hchannel
    have hnodup := hwired.nodup (hsource channel hchannel)
    rwa [Channel.outside, List.map_map] at hnodup
  constructor
  case size =>
    intro channel hchannel
    have hnodup : (state.subscriptions.entries.map fun entry =>
        (Formulary.Listener.outside entry.1, Subscription.mk (.host 0) entry.2)).Nodup := by
      refine List.Nodup.map (fun entry entry' heq => ?_) h.distinct.of_map
      obtain ⟨hlabel, hid⟩ := Prod.mk.inj heq
      exact Prod.ext (Formulary.Listener.outside.inj hlabel) (Subscription.mk.inj hid).2
    have hsize := hwired.size_eq hnodup (fun _ _ => h.mem_subscriptions_iff) (hsource channel hchannel)
    rw [List.countP_map] at hsize
    simpa [Table.size, Channel.outside, Function.comp_def] using hsize
  case distinct => exact hdistinct
  case removes =>
    intro channel hchannel label id hlabel
    have hmem := (hwired.held (hsource channel hchannel) id (.outside label)).2 (held?_outside hlabel)
    obtain ⟨⟨id', label'⟩, hentry, heq⟩ := List.mem_map.1 hmem
    obtain ⟨rfl, hlabel'⟩ := Prod.mk.inj heq
    obtain rfl := Formulary.Listener.outside.inj hlabel'
    obtain ⟨front, back, hentries, herase⟩ := Table.erase_eq_of_nodup (hdistinct channel hchannel) hentry
    refine ⟨front, back, hentries, ?_⟩
    unfold State.unsubscribe
    rw [hlabel, Option.mem_def.1 hchannel]
    exact congrArg some herase

end Linked

end State

/-- What is done next keeps the channel linked, also while an event is delivered. -/
theorem linked_run {state : State} (h : state.Linked) (tasks : List Task) : (run state tasks).Linked := by
  induction state, tasks using run.induct with
  | case1 state =>
    rw [run]
    exact h
  | case2 state label reaction tasks ih =>
    rw [run]
    exact ih (h.subscribe label reaction)
  | case3 state label tasks ih =>
    rw [run]
    exact ih (h.unsubscribe label)
  | case4 state event tasks ih =>
    rw [run]
    exact ih h
  | case5 state tasks ih =>
    rw [run]
    exact ih h.close
  | case6 state listener event tasks ih =>
    rw [run]
    exact ih ⟨h.wired, h.distinct⟩

theorem accounted_run (steps : List Step) : (run .start (steps.map .take)).Accounted :=
  (linked_run State.linked_start (steps.map .take)).accounted

end Rehearsal

end Formulary
