import Formulary.Proofs.Workspace.Session

/-!
# Who hears of an event

Whoever listens to a host hears each of its events once, in the order in which they began to listen
(`events_delivered_once`), and what a formula hears it passes on to those who listen to the formula.
-/

namespace Formulary

theorem flatMap_eq_of_nodup {α β : Type} [DecidableEq α] {xs : List α} (hxs : xs.Nodup) {f : α → List β} (a : α)
    (hothers : ∀ x ∈ xs, x ≠ a → f x = []) : xs.flatMap f = if a ∈ xs then f a else [] := by
  induction xs with
  | nil => rfl
  | cons x xs ih =>
    obtain ⟨hx, hxs⟩ := List.nodup_cons.1 hxs
    rw [List.flatMap_cons, ih hxs fun y hy => hothers y (List.mem_cons_of_mem x hy)]
    by_cases heq : x = a
    · rw [heq, if_neg (heq ▸ hx), if_pos List.mem_cons_self, List.append_nil]
    · have hmem : a ∈ x :: xs ↔ a ∈ xs := by simp [Ne.symm heq]
      rw [hothers x List.mem_cons_self heq, List.nil_append]
      simp only [hmem]

namespace Ledger

/-- What someone listens to. -/
def sourceOf? (ledger : Ledger) (listener : Listener) : Option Source :=
  (ledger.find? fun entry => entry.2 = listener).map Prod.fst

/-- What a listener from outside hears when a host publishes an event. -/
def hears (ledger : Ledger) (name : String) (hostId : Nat) (event : ChangeEvent) : List ChangeEvent :=
  match ledger.sourceOf? (.outside name) with
  | some (.host id) => if id = hostId then [event] else []
  | some (.formula id) => if ledger.sourceOf? (.formula id) = some (.host hostId) then event.forwarded else []
  | none => []

variable {ledger : Ledger}

theorem sourceOf?_eq_some_iff (h : ledger.Unique) {listener : Listener} {source : Source} :
    ledger.sourceOf? listener = some source ↔ (source, listener) ∈ ledger := by
  constructor
  · intro hsource
    obtain ⟨entry, hentry, rfl⟩ := Option.map_eq_some_iff.1 hsource
    have hlistener : entry.2 = listener := by simpa using List.find?_some hentry
    rw [← hlistener]
    exact List.mem_of_find?_eq_some hentry
  · intro hmem
    cases hfind : ledger.find? fun entry => entry.2 = listener with
    | none => exact absurd (decide_eq_true rfl) (List.find?_eq_none.1 hfind _ hmem)
    | some entry =>
      have hlistener : entry.2 = listener := by simpa using List.find?_some hfind
      have hsame := List.inj_on_of_nodup_map h (List.mem_of_find?_eq_some hfind) hmem hlistener
      rw [sourceOf?, hfind, hsame]
      rfl

theorem sourceOf?_eq_none_iff {listener : Listener} :
    ledger.sourceOf? listener = none ↔ ∀ source, (source, listener) ∉ ledger := by
  rw [sourceOf?, Option.map_eq_none_iff, List.find?_eq_none]
  constructor
  · intro h source hmem
    exact h _ hmem (by simp)
  · intro h entry hentry hlistener
    have hlistener : entry.2 = listener := by simpa using hlistener
    exact h entry.1 (hlistener ▸ hentry)

theorem nodup_listeners (h : ledger.Unique) (source : Source) : (ledger.listeners source).Nodup :=
  List.Nodup.sublist (List.filter_sublist.map _) h

theorem mem_listeners_iff (h : ledger.Unique) {listener : Listener} {source : Source} :
    listener ∈ ledger.listeners source ↔ ledger.sourceOf? listener = some source := by
  rw [mem_listeners, sourceOf?_eq_some_iff h]

theorem mem_outsiders_iff (h : ledger.Unique) {name : String} {source : Source} :
    name ∈ ledger.outsiders source ↔ ledger.sourceOf? (.outside name) = some source := by
  rw [← mem_listeners_iff h, outsiders, List.mem_filterMap]
  constructor
  · rintro ⟨listener, hlistener, heq⟩
    cases listener with
    | outside other => exact Option.some.inj heq ▸ hlistener
    | formula id => exact absurd heq.symm (Option.some_ne_none _)
  · intro hmem
    exact ⟨.outside name, hmem, rfl⟩

theorem nodup_outsiders (h : ledger.Unique) (source : Source) : (ledger.outsiders source).Nodup := by
  refine (nodup_listeners h source).filterMap fun listener other name hname hname' => ?_
  cases listener <;> cases other <;> simp_all

/-- What one listener has of an event that is passed on. -/
theorem filter_passedOn (h : ledger.Unique) (source : Source) (name : String) (event : ChangeEvent) :
    (((ledger.outsiders source).map (·, event)).filter fun entry => entry.1 = name) =
      if ledger.sourceOf? (.outside name) = some source then [(name, event)] else [] := by
  rw [List.map_eq_flatMap, List.filter_flatMap, flatMap_eq_of_nodup (nodup_outsiders h source) name]
  · simp [mem_outsiders_iff h]
  · intro other _ hne
    simp [hne]

/-- What one listener has of an event that another one hears. -/
theorem filter_heardThrough (h : ledger.Unique) (name : String) (event : ChangeEvent) (listener : Listener) :
    ((ledger.heardThrough event listener).filter fun entry => entry.1 = name) = match listener with
      | .outside other => if other = name then [(name, event)] else []
      | .formula id =>
        if ledger.sourceOf? (.outside name) = some (.formula id) then event.forwarded.map (name, ·) else [] := by
  cases listener with
  | outside other =>
    by_cases heq : other = name <;> simp [heardThrough, heq]
  | formula id =>
    rw [heardThrough, List.filter_flatMap]
    simp only [filter_passedOn h]
    split
    · exact List.map_eq_flatMap.symm
    · simp

/-- **Once.** What one listener has of the deliveries of an event. -/
theorem filter_deliveries (h : ledger.Unique) (name : String) (hostId : Nat) (event : ChangeEvent) :
    ((ledger.deliveries hostId event).filter fun entry => entry.1 = name) =
      (ledger.hears name hostId event).map (name, ·) := by
  have hnodup := nodup_listeners h (.host hostId)
  rw [deliveries, List.filter_flatMap]
  simp only [filter_heardThrough h]
  unfold hears
  -- the name has one source at most: a host, or a formula that may listen to the host
  cases hsource : ledger.sourceOf? (.outside name) with
  | none =>
    rw [flatMap_eq_of_nodup hnodup (.outside name)]
    · simp [mem_listeners_iff h, hsource]
    · intro listener _ hne
      cases listener with
      | formula id => exact if_neg (Option.some_ne_none _).symm
      | outside other => exact if_neg fun heq => hne (congrArg Listener.outside heq)
  | some source =>
    cases source with
    | host id =>
      rw [flatMap_eq_of_nodup hnodup (.outside name)]
      · by_cases heq : id = hostId <;> simp [mem_listeners_iff h, hsource, heq]
      · intro listener _ hne
        cases listener with
        | formula id => exact if_neg fun heq => Source.noConfusion (Option.some.inj heq)
        | outside other => exact if_neg fun heq => hne (congrArg Listener.outside heq)
    | formula id =>
      rw [flatMap_eq_of_nodup hnodup (.formula id)]
      · by_cases heq : ledger.sourceOf? (.formula id) = some (.host hostId) <;> simp [mem_listeners_iff h, heq]
      · intro listener hlistener hne
        cases listener with
        | formula other =>
          exact if_neg fun heq => hne (congrArg Listener.formula (Source.formula.inj (Option.some.inj heq)).symm)
        | outside other =>
          refine if_neg fun heq => ?_
          rw [heq, mem_listeners_iff h, hsource] at hlistener
          exact Source.noConfusion (Option.some.inj hlistener)

/-! ### Who does not listen -/

theorem mem_of_mem_listen {source other : Source} {listener listener' : Listener}
    (hmem : (other, listener') ∈ ledger.listen source listener) (hne : listener' ≠ listener) :
    (other, listener') ∈ ledger := by
  rcases List.mem_append.1 hmem with hmem | hmem
  · exact (List.mem_filter.1 hmem).1
  · exact absurd (congrArg Prod.snd (List.mem_singleton.1 hmem)) hne

theorem mem_of_mem_drop {entry : Source × Listener} {id : Option Nat} (hmem : entry ∈ ledger.drop id) :
    entry ∈ ledger := by
  cases id with
  | none => exact hmem
  | some id => exact (List.mem_filter.1 (List.mem_filter.1 hmem).1).1

theorem outside_ne_formula (name : String) (id : Nat) : Listener.outside name ≠ .formula id := by simp

/-- Nobody from outside begins to listen by a command that is not theirs. -/
theorem mem_of_mem_after {s s' : Session} {command : Command} {name : String} {source : Source}
    (hmem : (source, .outside name) ∈ ledger.after s s' command)
    (hcommand : ∀ source, command ≠ .subscribe name source) : (source, .outside name) ∈ ledger := by
  cases command with
  | makeHost | countListeners | dropHost | atHost => exact hmem
  | makeFormula _ _ _ host =>
    cases host with
    | none => exact mem_of_mem_drop hmem
    | some host =>
      unfold after at hmem
      dsimp only at hmem
      split at hmem
      · exact mem_of_mem_listen (mem_of_mem_drop hmem) (outside_ne_formula name _)
      · exact hmem
  | subscribe other =>
    unfold after at hmem
    dsimp only at hmem
    split at hmem
    · refine mem_of_mem_listen hmem fun heq => ?_
      rw [Listener.outside.inj heq] at hcommand
      exact hcommand _ rfl
    · exact hmem
  | cancel | dropSubscription => exact (List.mem_filter.1 hmem).1
  | dropFormula => exact mem_of_mem_drop hmem
  | atFormula _ command =>
    unfold after at hmem
    dsimp only at hmem
    split at hmem
    · unfold afterAtFormula at hmem
      split at hmem
      · exact (List.mem_filter.1 hmem).1
      · split at hmem
        · exact mem_of_mem_listen hmem (outside_ne_formula name _)
        · exact hmem
      · unfold Workspace.settled at hmem
        split at hmem
        · exact mem_of_mem_listen hmem (outside_ne_formula name _)
        · exact hmem
    · exact hmem

end Ledger

/-! ## What a step has who hear -/

namespace Workspace

theorem Tells.heard {w w' : Workspace} {heard : List (String × ChangeEvent)} (h : Tells w w' heard) :
    (w'.journal.extract w.journal.size).toList.filterMap Entry.delivery? = heard := by
  obtain ⟨entries, hjournal, hheard⟩ := h
  have hsize : w'.journal.size = w.journal.size + entries.length := by
    rw [← Array.length_toList, hjournal, List.length_append, Array.length_toList]
  rw [Array.toList_extract, hjournal, hsize, List.extract_eq_take_drop, ← Array.length_toList, List.drop_left,
    Nat.add_sub_cancel_left, List.take_length, hheard]

/-- Formulas listen to the hosts that they are attached to. -/
theorem Connected.sourceOf?_formula {w : Workspace} {subscriptions : Dictionary Subscription} {ledger : Ledger}
    (h : w.Connected subscriptions ledger) (hostId id : Nat) :
    ledger.sourceOf? (.formula id) = some (.host hostId) ↔
      ∃ f, w.formulas.find? id = some f ∧ f.attachment.map Attachment.host = some hostId := by
  rw [Ledger.sourceOf?_eq_some_iff h.unique]
  constructor
  · intro hmem
    obtain ⟨channel, number, -, hheld⟩ := h.wired.held_of_mem hmem
    obtain ⟨f, hf, hattachment⟩ := Option.bind_eq_some_iff.1 hheld
    obtain ⟨attachment, hattachment, heq⟩ := Option.map_eq_some_iff.1 hattachment
    refine ⟨f, hf, ?_⟩
    rw [hattachment]
    exact congrArg some (Source.host.inj (congrArg Subscription.source heq))
  · rintro ⟨f, hf, hhost⟩
    obtain ⟨attachment, hattachment, rfl⟩ := Option.map_eq_some_iff.1 hhost
    obtain ⟨host, hhost, hmem⟩ := h.exists_attached hf hattachment
    rw [← host_of_find? hhost, h.values_host] at hmem
    exact Ledger.mem_listeners.1 hmem

end Workspace

namespace Session

section Valid

variable {s : Session} {ledger : Ledger} (h : s.Valid ledger) {command : Command} (hplain : command.Plain)

include h hplain

theorem Valid.step : (s.step command).1.Valid (ledger.after s (s.step command).1 command) :=
  (h.perform hplain).valid

theorem Valid.heard : (s.step command).2.2.filterMap Entry.delivery? = (s.published command).flatMap
    fun entry => (ledger.after s (s.step command).1 command).deliveries entry.1 entry.2 :=
  (h.perform hplain).tells.heard

theorem Valid.heard_by (name : String) :
    ((s.step command).2.2.filterMap Entry.delivery?).filter (fun entry => entry.1 = name) =
      (s.published command).flatMap fun entry =>
        ((ledger.after s (s.step command).1 command).hears name entry.1 entry.2).map (name, ·) := by
  rw [h.heard hplain, List.filter_flatMap]
  simp only [Ledger.filter_deliveries (h.step hplain).connected.unique]

end Valid

/-- What is heard while commands are carried out. -/
def heardIn (s : Session) : List Command → List (String × ChangeEvent)
  | [] => []
  | command :: commands =>
    (s.step command).2.2.filterMap Entry.delivery? ++ heardIn (s.step command).1 commands

/-- Who does not listen hears nothing until they subscribe. -/
theorem Valid.silent {s : Session} {ledger : Ledger} (h : s.Valid ledger) {name : String}
    (hnone : ledger.sourceOf? (.outside name) = none) {later : List Command}
    (hlater : ∀ other ∈ later, other.Plain ∧ ∀ source, other ≠ .subscribe name source) :
    ∀ entry ∈ s.heardIn later, entry.1 ≠ name := by
  induction later generalizing s ledger with
  | nil => exact fun _ hentry => absurd hentry List.not_mem_nil
  | cons command later ih =>
    obtain ⟨hplain, hcommand⟩ := hlater command List.mem_cons_self
    have hafter : (ledger.after s (s.step command).1 command).sourceOf? (.outside name) = none := by
      rw [Ledger.sourceOf?_eq_none_iff] at hnone ⊢
      exact fun source hmem => hnone source (Ledger.mem_of_mem_after hmem hcommand)
    intro entry hentry
    rcases List.mem_append.1 hentry with hentry | hentry
    · have hheard := h.heard_by hplain name
      unfold Ledger.hears at hheard
      rw [hafter] at hheard
      intro heq
      have hmem : entry ∈ ((s.step command).2.2.filterMap Entry.delivery?).filter fun entry => entry.1 = name :=
        List.mem_filter.2 ⟨hentry, decide_eq_true heq⟩
      rw [hheard] at hmem
      simp at hmem
    · exact ih (h.step hplain) hafter (fun other hother => hlater other (List.mem_cons_of_mem command hother))
        entry hentry

theorem ledgerAfter_snoc (commands : List Command) (command : Command) :
    ledgerAfter (commands ++ [command]) = (ledgerAfter commands).after (after commands)
      ((after commands).step command).1 command := by
  unfold ledgerAfter after
  rw [runFrom_append]
  rfl

end Session

/-- **Deliveries.** Whatever commands have been given, those hear an event that a command has a host publish who
listen to the host by then, in the order in which they began to; a formula among them passes it on to those who
listen to the formula. So each listener from outside hears of it once, or as the formula that it listens to
forwards it, or not at all. Formulas listen to the hosts that they are attached to, and who has cancelled hears
nothing until they subscribe again. -/
theorem events_delivered_once (commands : List Command) (command : Command)
    (hplain : ∀ other ∈ commands ++ [command], other.Plain) :
    let s := Session.after commands
    let ledger := Session.ledgerAfter (commands ++ [command])
    let heard := (s.step command).2.2.filterMap Entry.delivery?
    heard = (s.published command).flatMap (fun entry => ledger.deliveries entry.1 entry.2) ∧
      (∀ name, heard.filter (fun entry => entry.1 = name) = (s.published command).flatMap
        fun entry => (ledger.hears name entry.1 entry.2).map (name, ·)) ∧
      (∀ hostId id, ledger.sourceOf? (.formula id) = some (.host hostId) ↔
        ∃ f, (s.step command).1.workspace.formulas.find? id = some f ∧
          f.attachment.map Attachment.host = some hostId) ∧
      ∀ name, command = .cancel name ∨ command = .dropSubscription name → ∀ later : List Command,
        (∀ other ∈ later, other.Plain ∧ ∀ source, other ≠ .subscribe name source) →
          ∀ entry ∈ (s.step command).1.heardIn later, entry.1 ≠ name := by
  have hvalid := Session.valid_after fun other hother => hplain other (List.mem_append_left _ hother)
  have hcommand := hplain command (List.mem_append_right _ List.mem_cons_self)
  have hstep := hvalid.step hcommand
  dsimp only
  rw [Session.ledgerAfter_snoc]
  refine ⟨hvalid.heard hcommand, hvalid.heard_by hcommand, hstep.connected.sourceOf?_formula,
    fun name hname later hlater => hstep.silent ?_ hlater⟩
  have hafter : (Session.ledgerAfter commands).after (Session.after commands)
      ((Session.after commands).step command).1 command =
        (Session.ledgerAfter commands).without (.outside name) := by
    rcases hname with rfl | rfl <;> rfl
  rw [hafter, Ledger.sourceOf?_eq_none_iff]
  intro source hmem
  exact absurd rfl (of_decide_eq_true (List.mem_filter.1 hmem).2)

/-- A sheet with a formula attached, a listener to each, and one who has ceased to listen. -/
def watchedSheet : List Command :=
  [.makeHost "sheet" .plain .empty, .makeFormula "total" "x" .direct (some "sheet"),
    .subscribe "watcher" (.host "sheet"), .subscribe "reader" (.formula "total"),
    .subscribe "former" (.host "sheet"), .cancel "former"]

theorem plain_watchedSheet : ∀ command ∈ watchedSheet, command.Plain := by
  have hlength : "x".length ≤ 2 ^ 64 := by decide
  simp only [watchedSheet, List.forall_mem_cons]
  exact ⟨⟨⟨rfl, rfl, rfl⟩, Workspace.named_empty⟩, hlength, trivial, trivial, trivial, trivial,
    fun _ hnone => absurd hnone List.not_mem_nil⟩

theorem events_delivered_once_reader :
    (∀ command ∈ watchedSheet ++ [.atHost "sheet" (.setVariable "x" .empty)], command.Plain) ∧
      ((Session.after watchedSheet).step (.atHost "sheet" (.setVariable "x" .empty))).2.2.filterMap
        Entry.delivery? = [("reader", .namespaceChanged "x"), ("reader", .dependentChanged none),
          ("watcher", .namespaceChanged "x")] := by
  have hplain : ∀ command ∈ watchedSheet ++ [.atHost "sheet" (.setVariable "x" .empty)], command.Plain := by
    intro command hcommand
    rcases List.mem_append.1 hcommand with hcommand | hcommand
    · exact plain_watchedSheet command hcommand
    · rw [List.mem_singleton.1 hcommand]
      trivial
  exact ⟨hplain, (events_delivered_once watchedSheet _ hplain).1.trans (by decide)⟩

end Formulary
