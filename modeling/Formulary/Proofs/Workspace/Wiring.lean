import Formulary.Proofs.Table
import Formulary.Workspace.Session
import Mathlib.Data.List.Nodup
import Mathlib.Data.List.Perm.Basic
import Mathlib.Logic.Function.Basic

/-!
# Who listens to whom

A ledger says who listens to what, in the order in which they began to. `Wired` compares it with channels that hold
listeners under numbers, and with the numbers that the listeners hold: a channel has the listeners that the
ledger gives it, and each of them under the number that it holds. So what is erased under a number is what the
ledger drops.
-/

namespace Formulary

/-- Who listens to what, in the order in which they began to. -/
abbrev Ledger := List (Source × Listener)

namespace Ledger

def listeners (ledger : Ledger) (source : Source) : List Listener :=
  (ledger.filter fun entry => entry.1 = source).map Prod.snd

/-- A listener stops to listen. -/
def without (ledger : Ledger) (listener : Listener) : Ledger := ledger.filter fun entry => entry.2 ≠ listener

/-- A listener turns to a source. -/
def listen (ledger : Ledger) (source : Source) (listener : Listener) : Ledger :=
  ledger.without listener ++ [(source, listener)]

/-- A source is gone. -/
def close (ledger : Ledger) (source : Source) : Ledger := ledger.filter fun entry => entry.1 ≠ source

variable (ledger : Ledger) (source : Source) (listener : Listener)

theorem mem_listeners {ledger : Ledger} {source : Source} {listener : Listener} :
    listener ∈ ledger.listeners source ↔ (source, listener) ∈ ledger := by
  simp [listeners]

theorem listeners_without :
    (ledger.without listener).listeners source = (ledger.listeners source).filter (· ≠ listener) := by
  rw [listeners, without, listeners, List.filter_map, List.filter_filter, List.filter_filter]
  congr 2
  funext entry
  exact Bool.and_comm _ _

theorem without_without : (ledger.without listener).without listener = ledger.without listener := by
  rw [without, without, List.filter_filter]
  simp

theorem listen_without : (ledger.without listener).listen source listener = ledger.listen source listener := by
  rw [listen, without_without, listen]

theorem listeners_append (ledger' : Ledger) :
    listeners (ledger ++ ledger') source = ledger.listeners source ++ ledger'.listeners source := by
  rw [listeners, List.filter_append, List.map_append]
  rfl

theorem listeners_single (other : Source) :
    listeners [(source, listener)] other = if source = other then [listener] else [] := by
  by_cases h : source = other <;> simp [listeners, h]

theorem listeners_close_self : (ledger.close source).listeners source = [] := by
  rw [listeners, close, List.filter_filter, List.map_eq_nil_iff, List.filter_eq_nil_iff]
  simp

theorem listeners_close_of_ne {other : Source} (h : other ≠ source) :
    (ledger.close source).listeners other = ledger.listeners other := by
  rw [listeners, close, listeners, List.filter_filter]
  congr 1
  refine List.filter_congr fun entry _ => ?_
  by_cases heq : entry.1 = other
  · simp [heq, h]
  · simp [heq]

/-- Each listener listens to one source. -/
def Unique : Prop := (ledger.map Prod.snd).Nodup

variable {ledger}

theorem Unique.without (h : ledger.Unique) : (ledger.without listener).Unique :=
  List.Nodup.sublist (List.filter_sublist.map _) h

theorem Unique.close (h : ledger.Unique) : (ledger.close source).Unique :=
  List.Nodup.sublist (List.filter_sublist.map _) h

theorem Unique.listen (h : ledger.Unique) : (ledger.listen source listener).Unique := by
  unfold Unique Ledger.listen
  rw [List.map_append]
  refine List.Nodup.append (h.without listener) (List.nodup_singleton _) ?_
  intro other hother hlistener
  obtain ⟨entry, hentry, rfl⟩ := List.mem_map.1 hother
  have hne := (List.mem_filter.1 hentry).2
  simp_all

end Ledger

theorem update_eq_some {α β : Type} [DecidableEq α] {f : α → Option β} {a b : α} {value : Option β} {found : β}
    (h : Function.update f a value b = some found) :
    (b = a ∧ value = some found) ∨ (b ≠ a ∧ f b = some found) := by
  by_cases heq : b = a
  · rw [heq, Function.update_self] at h
    exact .inl ⟨heq, h⟩
  · rw [Function.update_of_ne heq] at h
    exact .inr ⟨heq, h⟩

/-- The channel of a source has these listeners, under the numbers that they hold. -/
structure WiredAt (held? : Listener → Option Subscription) (source : Source) (listeners : List Listener)
    (channel : Channel Listener) : Prop where
  values : channel.values = listeners
  nodup : (channel.entries.map Prod.fst).Nodup
  lt_next : ∀ entry ∈ channel.entries, entry.1 < channel.next
  held : ∀ id listener, (id, listener) ∈ channel.entries ↔ held? listener = some ⟨source, id⟩

namespace WiredAt

variable {held? : Listener → Option Subscription} {source : Source} {listeners : List Listener}
  {channel : Channel Listener}

theorem empty (hheld : ∀ listener id, held? listener ≠ some ⟨source, id⟩) : WiredAt held? source [] .empty where
  values := rfl
  nodup := List.nodup_nil
  lt_next _ hentry := absurd hentry List.not_mem_nil
  held id listener := ⟨fun hmem => absurd hmem List.not_mem_nil, fun hlistener =>
    absurd hlistener (hheld listener id)⟩

variable (h : WiredAt held? source listeners channel)

include h

theorem notMem_entries {listener : Listener} (hnot : ∀ id, held? listener ≠ some ⟨source, id⟩) (id : Nat) :
    (id, listener) ∉ channel.entries := fun hmem => hnot id ((h.held id listener).1 hmem)

theorem notMem {listener : Listener} (hnot : ∀ id, held? listener ≠ some ⟨source, id⟩) :
    listener ∉ listeners := by
  rw [← h.values]
  intro hmem
  obtain ⟨entry, hentry, rfl⟩ := List.mem_map.1 hmem
  exact h.notMem_entries hnot entry.1 hentry

/-- A channel has nothing to do with a listener that holds no number of its source, before or after. -/
theorem update {listener : Listener} {subscription? : Option Subscription}
    (hbefore : ∀ id, held? listener ≠ some ⟨source, id⟩) (hafter : ∀ id, subscription? ≠ some ⟨source, id⟩) :
    WiredAt (Function.update held? listener subscription?) source listeners channel := by
  refine ⟨h.values, h.nodup, h.lt_next, fun id other => ?_⟩
  by_cases heq : other = listener
  · rw [heq, Function.update_self]
    exact ⟨fun hmem => absurd hmem (h.notMem_entries hbefore id), fun hother => absurd hother (hafter id)⟩
  · rw [Function.update_of_ne heq]
    exact h.held id other

/-- To erase a number is to drop who holds it. -/
theorem values_erase {listener : Listener} {id : Nat} (hheld : held? listener = some ⟨source, id⟩) :
    (channel.erase id).values = listeners.filter (· ≠ listener) := by
  have hmem := (h.held id listener).2 hheld
  rw [← h.values, Table.values, Table.values, Table.erase, List.filter_map]
  congr 1
  refine List.filter_congr fun entry hentry => ?_
  -- no two entries of a channel have one number
  have hinj := List.inj_on_of_nodup_map h.nodup hentry hmem
  by_cases heq : entry.1 = id
  · obtain rfl := hinj heq
    simp
  · have hne : entry.2 ≠ listener := by
      intro hlistener
      have hentry' : (entry.1, listener) ∈ channel.entries := by rwa [← hlistener]
      have := (h.held _ _).1 hentry'
      rw [hheld] at this
      exact heq (congrArg Subscription.id (Option.some.inj this)).symm
    simp [heq, hne]

theorem erase {listener : Listener} {id : Nat} (hheld : held? listener = some ⟨source, id⟩) :
    WiredAt (Function.update held? listener none) source (listeners.filter (· ≠ listener))
      (channel.erase id) where
  values := h.values_erase hheld
  nodup := List.Nodup.sublist (List.filter_sublist.map _) h.nodup
  lt_next entry hentry := h.lt_next entry (List.mem_filter.1 hentry).1
  held number other := by
    have hmem := (h.held id listener).2 hheld
    rw [Table.erase, List.mem_filter, h.held]
    by_cases heq : other = listener
    · rw [heq, Function.update_self, hheld]
      simp +contextual
    · rw [Function.update_of_ne heq]
      refine ⟨And.left, fun hother => ⟨hother, bne_iff_ne.2 fun hnumber => heq ?_⟩⟩
      have hentry := (h.held number other).2 hother
      exact congrArg Prod.snd (List.inj_on_of_nodup_map h.nodup hentry hmem hnumber)

theorem insert {listener : Listener} (hheld : held? listener = none) :
    WiredAt (Function.update held? listener (some ⟨source, channel.next⟩)) source (listeners ++ [listener])
      (channel.insert listener) where
  values := by rw [Table.values_insert, h.values]
  nodup := by
    rw [Table.insert, List.map_append]
    refine List.Nodup.append h.nodup (List.nodup_singleton _) fun number hnumber hnext => ?_
    obtain ⟨entry, hentry, rfl⟩ := List.mem_map.1 hnumber
    have := h.lt_next entry hentry
    rw [List.mem_singleton.1 hnext] at this
    exact Nat.lt_irrefl _ this
  lt_next entry hentry := by
    rcases List.mem_append.1 hentry with hentry | hentry
    · exact Nat.lt_succ_of_lt (h.lt_next entry hentry)
    · rw [List.mem_singleton.1 hentry]
      exact Nat.lt_succ_self _
  held number other := by
    rw [Table.insert, List.mem_append, List.mem_singleton, Prod.mk.injEq]
    by_cases heq : other = listener
    · rw [heq, Function.update_self, Option.some_inj, Subscription.mk.injEq]
      have hnot := h.notMem_entries (fun id => hheld ▸ (Option.some_ne_none _).symm) number
      exact ⟨fun hmem => ⟨rfl, (hmem.resolve_left hnot).1.symm⟩, fun hnumber => .inr ⟨hnumber.2.symm, rfl⟩⟩
    · rw [Function.update_of_ne heq, h.held]
      exact ⟨fun hmem => hmem.resolve_right fun hnumber => heq hnumber.2, .inl⟩

end WiredAt

/-- The channels have the listeners of the ledger, under the numbers that these hold. -/
structure Wired (channel? : Source → Option (Channel Listener)) (held? : Listener → Option Subscription)
    (ledger : Ledger) : Prop where
  values : ∀ {source channel}, channel? source = some channel → channel.values = ledger.listeners source
  closed : ∀ {source}, channel? source = none → ledger.listeners source = []
  nodup : ∀ {source channel}, channel? source = some channel → (channel.entries.map Prod.fst).Nodup
  lt_next : ∀ {source channel}, channel? source = some channel →
    ∀ entry ∈ channel.entries, entry.1 < channel.next
  held : ∀ {source channel}, channel? source = some channel →
    ∀ id listener, (id, listener) ∈ channel.entries ↔ held? listener = some ⟨source, id⟩

namespace Wired

variable {channel? : Source → Option (Channel Listener)} {held? : Listener → Option Subscription}
  {ledger : Ledger}

theorem of_wiredAt
    (hsome : ∀ {source channel}, channel? source = some channel →
      WiredAt held? source (ledger.listeners source) channel)
    (hnone : ∀ {source}, channel? source = none → ledger.listeners source = []) :
    Wired channel? held? ledger where
  values hchannel := (hsome hchannel).values
  closed := hnone
  nodup hchannel := (hsome hchannel).nodup
  lt_next hchannel := (hsome hchannel).lt_next
  held hchannel := (hsome hchannel).held

/-- Where there is no channel, nobody listens. -/
theorem noChannels : Wired (fun _ => none) (fun _ => none) [] :=
  .of_wiredAt (fun hchannel => absurd hchannel.symm (Option.some_ne_none _)) fun _ => rfl

variable (h : Wired channel? held? ledger)

include h

theorem wiredAt {source : Source} {channel : Channel Listener} (hchannel : channel? source = some channel) :
    WiredAt held? source (ledger.listeners source) channel :=
  ⟨h.values hchannel, h.nodup hchannel, h.lt_next hchannel, h.held hchannel⟩

theorem held_of_mem {source : Source} {listener : Listener} (hmem : (source, listener) ∈ ledger) :
    ∃ channel id, channel? source = some channel ∧ held? listener = some ⟨source, id⟩ := by
  have hlisten := Ledger.mem_listeners.2 hmem
  cases hchannel : channel? source with
  | none =>
    rw [h.closed hchannel] at hlisten
    exact absurd hlisten List.not_mem_nil
  | some channel =>
    rw [← h.values hchannel, Table.values, List.mem_map] at hlisten
    obtain ⟨⟨id, listener⟩, hentry, rfl⟩ := hlisten
    exact ⟨channel, id, rfl, (h.held hchannel id listener).1 hentry⟩

/-- Who holds no number does not listen. -/
theorem without_of_none {listener : Listener} (hnone : held? listener = none) :
    ledger.without listener = ledger := by
  refine List.filter_eq_self.2 fun entry hentry => ?_
  obtain ⟨source, other⟩ := entry
  obtain ⟨channel, id, -, hheld⟩ := h.held_of_mem hentry
  refine decide_eq_true fun heq => ?_
  have heq : other = listener := heq
  rw [heq, hnone] at hheld
  exact absurd hheld (Option.some_ne_none _).symm

/-- The entries of a channel are the subscriptions to it, by any list of who holds which. -/
theorem entries_perm {holdings : List (Listener × Subscription)} (hnodup : holdings.Nodup)
    (hholdings : ∀ listener subscription, (listener, subscription) ∈ holdings ↔ held? listener = some subscription)
    {source : Source} {channel : Channel Listener} (hchannel : channel? source = some channel) :
    channel.entries.Perm ((holdings.filter fun holding => holding.2.source = source).map fun holding =>
      (holding.2.id, holding.1)) := by
  refine (List.perm_ext_iff_of_nodup (h.nodup hchannel).of_map ?_).2 fun entry => ?_
  · refine List.Nodup.map_on ?_ (hnodup.filter _)
    rintro ⟨listener, found, id⟩ hholding ⟨listener', found', id'⟩ hholding' heq
    obtain rfl : found = source := of_decide_eq_true (List.mem_filter.1 hholding).2
    obtain rfl : found' = found := of_decide_eq_true (List.mem_filter.1 hholding').2
    obtain ⟨rfl, rfl⟩ := Prod.mk.inj heq
    rfl
  · obtain ⟨id, listener⟩ := entry
    rw [h.held hchannel, ← hholdings, List.mem_map]
    constructor
    · intro hholding
      exact ⟨(listener, ⟨source, id⟩), List.mem_filter.2 ⟨hholding, decide_eq_true rfl⟩, rfl⟩
    · rintro ⟨⟨listener', subscription⟩, hholding, heq⟩
      obtain ⟨hholding, hsource⟩ := List.mem_filter.1 hholding
      obtain ⟨rfl, rfl⟩ := Prod.mk.inj heq
      rw [← of_decide_eq_true hsource]
      exact hholding

/-- A channel has as many listeners as there are subscriptions to it. -/
theorem size_eq {holdings : List (Listener × Subscription)} (hnodup : holdings.Nodup)
    (hholdings : ∀ listener subscription, (listener, subscription) ∈ holdings ↔ held? listener = some subscription)
    {source : Source} {channel : Channel Listener} (hchannel : channel? source = some channel) :
    channel.size = holdings.countP fun holding => holding.2.source = source := by
  rw [Table.size, (h.entries_perm hnodup hholdings hchannel).length_eq, List.length_map,
    List.countP_eq_length_filter]

/-- A listener gives up its number. -/
theorem unlisten {listener : Listener} {source : Source} {id : Nat}
    (hheld : held? listener = some ⟨source, id⟩) :
    Wired (fun other => if other = source then (channel? other).map (·.erase id) else channel? other)
      (Function.update held? listener none) (ledger.without listener) := by
  refine .of_wiredAt (fun {other channel} hother => ?_) (fun {other} hother => ?_)
  · rw [Ledger.listeners_without]
    by_cases heq : other = source
    · rw [if_pos heq, heq, Option.map_eq_some_iff] at hother
      obtain ⟨before, hbefore, rfl⟩ := hother
      rw [heq]
      exact (h.wiredAt hbefore).erase hheld
    · -- the listener is not in the channel of another source
      have hnot : ∀ number, held? listener ≠ some ⟨other, number⟩ := by
        intro number hother'
        rw [hheld] at hother'
        exact heq (congrArg Subscription.source (Option.some.inj hother')).symm
      rw [if_neg heq] at hother
      have hat := h.wiredAt hother
      rw [List.filter_eq_self.2 fun other' hother' => decide_eq_true (ne_of_mem_of_not_mem hother' (hat.notMem hnot))]
      exact hat.update hnot fun number => (Option.some_ne_none _).symm
  · rw [Ledger.listeners_without]
    have hnone : channel? other = none := by
      split at hother
      · exact Option.map_eq_none_iff.1 hother
      · exact hother
    rw [h.closed hnone, List.filter_nil]

/-- A listener that does not listen to anything takes the next number of a channel. -/
theorem listen {source : Source} {channel : Channel Listener} (hchannel : channel? source = some channel)
    {listener : Listener} (hheld : held? listener = none) :
    Wired (Function.update channel? source (some (channel.insert listener)))
      (Function.update held? listener (some ⟨source, channel.next⟩)) (ledger.listen source listener) := by
  have hlisteners : ∀ other, (ledger.listen source listener).listeners other =
      ledger.listeners other ++ if source = other then [listener] else [] := by
    intro other
    rw [Ledger.listen, h.without_of_none hheld, Ledger.listeners_append, Ledger.listeners_single]
  refine .of_wiredAt (fun {other channel'} hother => ?_) (fun {other} hother => ?_)
  · rw [hlisteners]
    rcases update_eq_some hother with ⟨rfl, hnew⟩ | ⟨hne, hother⟩
    · rw [if_pos rfl, ← Option.some.inj hnew]
      exact (h.wiredAt hchannel).insert hheld
    · rw [if_neg (Ne.symm hne), List.append_nil]
      exact (h.wiredAt hother).update (fun number => hheld ▸ (Option.some_ne_none _).symm)
        fun number hsource => hne (congrArg Subscription.source (Option.some.inj hsource)).symm
  · have hne : other ≠ source := by
      rintro rfl
      rw [Function.update_self] at hother
      exact absurd hother (Option.some_ne_none _)
    rw [Function.update_of_ne hne] at hother
    rw [hlisteners, if_neg (Ne.symm hne), h.closed hother, List.append_nil]

/-- A source comes up that nobody has listened to. -/
theorem opened {source : Source} (hchannel : channel? source = none)
    (hheld : ∀ listener id, held? listener ≠ some ⟨source, id⟩) :
    Wired (Function.update channel? source (some .empty)) held? ledger := by
  refine .of_wiredAt (fun {other channel} hother => ?_) (fun {other} hother => h.closed ?_)
  · rcases update_eq_some hother with ⟨rfl, hnew⟩ | ⟨-, hother⟩
    · rw [h.closed hchannel, ← Option.some.inj hnew]
      exact .empty hheld
    · exact h.wiredAt hother
  · by_cases heq : other = source
    · rw [heq, hchannel]
    · rwa [Function.update_of_ne heq] at hother

theorem close (source : Source) : Wired (Function.update channel? source none) held? (ledger.close source) := by
  refine .of_wiredAt (fun {other channel} hother => ?_) (fun {other} hother => ?_)
  · rcases update_eq_some hother with ⟨-, hnone⟩ | ⟨hne, hother⟩
    · exact absurd hnone.symm (Option.some_ne_none _)
    · rw [Ledger.listeners_close_of_ne ledger source hne]
      exact h.wiredAt hother
  · by_cases heq : other = source
    · rw [heq, Ledger.listeners_close_self]
    · rw [Function.update_of_ne heq] at hother
      rw [Ledger.listeners_close_of_ne ledger source heq, h.closed hother]

end Wired

end Formulary
