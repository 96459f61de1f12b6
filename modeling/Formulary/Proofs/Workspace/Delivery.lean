import Formulary.Proofs.Table
import Formulary.Workspace.Basic

/-!
# Deliveries

What the publication of an event does to a workspace: every listener of the host hears it, each in turn, and the
formulas among them are marked if it outdates their code (`publish_notifies`). Nothing else changes.
-/

namespace Formulary

/-- Who hears which event in this entry. -/
def Entry.delivery? : Entry → Option (String × ChangeEvent)
  | .delivered subscription event => some (subscription, event)
  | .requested _ _ | .counted _ _ | .parsed _ => none

namespace Workspace

/-! ## What is found after a change -/

section Find

variable (w : Workspace)

@[simp] theorem formulas_updateHost (id : Nat) (change : Host → Host) :
    (w.updateHost id change).formulas = w.formulas := rfl

theorem find?_updateHost (id : Nat) (change : Host → Host) (other : Nat) :
    (w.updateHost id change).hosts.find? other =
      (w.hosts.find? other).map fun host => if other = id then change host else host := by
  rw [updateHost, Table.find?_modify]
  split <;> simp

theorem find?_updateFormula (id : Nat) (change : Formula → Formula) (other : Nat) :
    (w.updateFormula id change).formulas.find? other =
      (w.formulas.find? other).map fun f => if other = id then change f else f := by
  rw [updateFormula, Table.find?_modify]
  split <;> simp

variable {w}

theorem host_of_find? {id : Nat} {host : Host} (h : w.hosts.find? id = some host) : w.host id = host := by
  rw [Workspace.host, h]
  rfl

theorem formula_of_find? {id : Nat} {f : Formula} (h : w.formulas.find? id = some f) : w.formula id = f := by
  rw [Workspace.formula, h]
  rfl

end Find

/-! ## The journal -/

/-- The journal has gone on, with these deliveries. -/
def Tells (w w' : Workspace) (heard : List (String × ChangeEvent)) : Prop :=
  ∃ entries, w'.journal.toList = w.journal.toList ++ entries ∧ entries.filterMap Entry.delivery? = heard

namespace Tells

variable {w w' w'' : Workspace} {heard heard' : List (String × ChangeEvent)}

theorem refl (w : Workspace) : Tells w w [] := ⟨[], (List.append_nil _).symm, rfl⟩

theorem of_journal_eq (h : w'.journal = w.journal) : Tells w w' [] :=
  ⟨[], by rw [h, List.append_nil], rfl⟩

theorem trans (h : Tells w w' heard) (h' : Tells w' w'' heard') : Tells w w'' (heard ++ heard') := by
  obtain ⟨entries, hjournal, rfl⟩ := h
  obtain ⟨entries', hjournal', rfl⟩ := h'
  refine ⟨entries ++ entries', ?_, List.filterMap_append⟩
  rw [hjournal', hjournal, List.append_assoc]

theorem record (w : Workspace) (entry : Entry) : Tells w (w.record entry) entry.delivery?.toList := by
  refine ⟨[entry], Array.toList_push, ?_⟩
  cases h : entry.delivery? <;> simp [h]

end Tells

/-! ## Publication -/

/-- What comes of an event when a listener hears it. -/
def heardThrough (w : Workspace) (event : ChangeEvent) : Listener → List (String × ChangeEvent)
  | .outside subscription => [(subscription, event)]
  | .formula id => event.forwarded.flatMap fun event => (w.formula id).channel.values.map (·, event)

/-- What comes of an event when a host publishes it. -/
def heardFrom (w : Workspace) (id : Nat) (event : ChangeEvent) : List (String × ChangeEvent) :=
  (w.host id).channel.values.flatMap (w.heardThrough event)

/-- Formulas have been marked as outdated, events have been delivered, and nothing else has happened. -/
structure Notifies (w w' : Workspace) (marked : Nat → Bool) (heard : List (String × ChangeEvent)) : Prop where
  hosts : w'.hosts = w.hosts
  next : w'.formulas.next = w.formulas.next
  find? : ∀ id, w'.formulas.find? id =
    (w.formulas.find? id).map fun f => { f with outdated := f.outdated || marked id }
  tells : Tells w w' heard

namespace Notifies

variable {w w' w'' : Workspace} {marked marked' : Nat → Bool} {heard heard' : List (String × ChangeEvent)}

theorem refl (w : Workspace) : Notifies w w (fun _ => false) [] where
  hosts := rfl
  next := rfl
  find? id := by cases w.formulas.find? id <;> simp
  tells := .refl w

theorem trans (h : Notifies w w' marked heard) (h' : Notifies w' w'' marked' heard') :
    Notifies w w'' (fun id => marked id || marked' id) (heard ++ heard') where
  hosts := h'.hosts.trans h.hosts
  next := h'.next.trans h.next
  find? id := by
    rw [h'.find?, h.find?, Option.map_map]
    congr 1
    funext f
    simp [Bool.or_assoc]
  tells := h.tells.trans h'.tells

theorem of_eq (h : Notifies w w' marked heard) (hmarked : ∀ id, marked id = marked' id)
    (hheard : heard = heard') : Notifies w w' marked' heard' := by
  rw [← funext hmarked, ← hheard]
  exact h

theorem record (w : Workspace) (entry : Entry) :
    Notifies w (w.record entry) (fun _ => false) entry.delivery?.toList :=
  { refl w with tells := .record w entry }

theorem channel_formula (h : Notifies w w' marked heard) (id : Nat) :
    (w'.formula id).channel = (w.formula id).channel := by
  rw [formula, formula, h.find?]
  cases w.formulas.find? id <;> rfl

theorem heardThrough_eq (h : Notifies w w' marked heard) (event : ChangeEvent) :
    w'.heardThrough event = w.heardThrough event := by
  funext listener
  cases listener with
  | outside => rfl
  | formula id => simp only [heardThrough, h.channel_formula]

end Notifies

/-- Listeners of a formula hear an event, one after the other. -/
theorem deliverFrom_notifies (w : Workspace) (id : Nat) (event : ChangeEvent) :
    Notifies w (w.deliverFrom id event) (fun _ => false) ((w.formula id).channel.values.map (·, event)) := by
  unfold deliverFrom
  generalize (w.formula id).channel.values = subscriptions
  induction subscriptions generalizing w with
  | nil => exact .refl w
  | cons subscription subscriptions ih =>
    exact (Notifies.record w (.delivered subscription event)).trans (ih _)

theorem mark_notifies (w : Workspace) (id : Nat) (outdates : Bool) :
    Notifies w (if outdates then w.updateFormula id ({ · with outdated := true }) else w)
      (fun other => outdates && other == id) [] := by
  cases outdates with
  | false => exact .refl w
  | true =>
    refine ⟨rfl, rfl, fun other => ?_, .of_journal_eq rfl⟩
    rw [if_pos rfl, find?_updateFormula]
    congr 1
    funext f
    by_cases h : other = id
    · simp [h]
    · rw [if_neg h, beq_false_of_ne h]
      simp

/-- A listener hears an event. -/
theorem deliver_notifies (w : Workspace) (event : ChangeEvent) (listener : Listener) :
    Notifies w (deliver event w listener)
      (fun id => event.outdatesCode && listener == .formula id) (w.heardThrough event listener) := by
  cases listener with
  | outside subscription =>
    refine (Notifies.record w (.delivered subscription event)).of_eq (fun id => ?_) rfl
    have hne : (Listener.outside subscription == .formula id) = false := by simp
    rw [hne, Bool.and_false]
  | formula id =>
    have hforward : ∀ events : List ChangeEvent, ∀ w' : Workspace, Notifies w' (events.foldl
        (fun w event => w.deliverFrom id event) w') (fun _ => false)
        (events.flatMap fun event => (w'.formula id).channel.values.map (·, event)) := by
      intro events
      induction events with
      | nil => exact .refl
      | cons event events ih =>
        intro w'
        have hfirst := w'.deliverFrom_notifies id event
        have hrest := ih (w'.deliverFrom id event)
        simp only [hfirst.channel_formula] at hrest
        exact hfirst.trans hrest
    have hmark := w.mark_notifies id event.outdatesCode
    refine (hmark.trans (hforward event.forwarded _)).of_eq (fun other => ?_) ?_
    · rw [Bool.or_false]
      congr 1
      by_cases h : other = id
      · simp [h]
      · rw [beq_false_of_ne h, beq_false_of_ne fun heq => h (Listener.formula.inj heq).symm]
    · simp only [hmark.channel_formula]
      rfl

/-- **Publication.** All who listen to the host hear the event, in the order in which they subscribed, and the
formulas among them are marked if it outdates code. -/
theorem publish_notifies (w : Workspace) (id : Nat) (event : ChangeEvent) :
    Notifies w (w.publish id event)
      (fun other => event.outdatesCode && (w.host id).channel.values.contains (.formula other))
      (w.heardFrom id event) := by
  -- through all workspaces on the way, in which whoever hears the event passes it on as before
  have hlisteners : ∀ listeners : List Listener, ∀ w' : Workspace,
      w'.heardThrough event = w.heardThrough event →
      Notifies w' (listeners.foldl (deliver event) w')
        (fun other => event.outdatesCode && listeners.contains (.formula other))
        (listeners.flatMap (w.heardThrough event)) := by
    intro listeners
    induction listeners with
    | nil =>
      intro w' _
      simpa using Notifies.refl w'
    | cons listener listeners ih =>
      intro w' hsame
      have hfirst := deliver_notifies w' event listener
      refine (hfirst.trans (ih _ ((hfirst.heardThrough_eq event).trans hsame))).of_eq (fun other => ?_) ?_
      · rw [List.contains_cons, Bool.and_or_distrib_left, BEq.comm]
      · rw [hsame, List.flatMap_cons]
  exact hlisteners _ w rfl

end Workspace

end Formulary
