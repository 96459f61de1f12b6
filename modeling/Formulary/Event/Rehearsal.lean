import Formulary.Dictionary
import Formulary.Event.Basic

/-!
# Rehearsals

One channel whose listeners react: at the first event that it hears, a listener takes some steps, which may
subscribe and unsubscribe others, publish events and close the channel. An event goes to those who
listen when it is published, also to those who unsubscribe before it reaches them, and an event
published in a reaction is delivered before the one that caused it goes on.

Each reaction is taken once, so a rehearsal ends: `run` counts the steps left, and then the deliveries.
-/

namespace Formulary

namespace Rehearsal

inductive Step where
  /-- Subscribes a listener, in the place of one with the same label. -/
  | subscribe (label : String) (reaction : List Step)
  /-- Ends the subscription with a label. -/
  | unsubscribe (label : String)
  | publish (event : ChangeEvent)
  | close

structure Listener where
  id : Nat
  label : String

/-- The channel, until it is closed, and the subscriptions and reactions that are left. -/
structure State where
  /-- The labels of the listeners. -/
  channel : Option (Channel String)
  subscriptions : Dictionary Nat
  /-- The reactions not taken yet, by the number of the listener. -/
  reactions : List (Nat × List Step)
  /-- Who heard what. -/
  heard : Array (String × ChangeEvent)

/-- What is to be done next. -/
inductive Task where
  | take (step : Step)
  | deliver (listener : Listener) (event : ChangeEvent)

mutual

/-- The number of a step and all steps in its reaction. -/
def Step.weight : Step → Nat
  | subscribe _ reaction => weightAll reaction + 1
  | _ => 1

def Step.weightAll : List Step → Nat
  | [] => 0
  | step :: rest => step.weight + weightAll rest

end

def reactionsWeight (reactions : List (Nat × List Step)) : Nat :=
  (reactions.map fun entry => Step.weightAll entry.2).sum

def Task.weight : Task → Nat
  | take step => step.weight
  | deliver _ _ => 0

def Task.deliveries : Task → Nat
  | take _ => 0
  | deliver _ _ => 1

def tasksWeight (tasks : List Task) : Nat := (tasks.map Task.weight).sum

def tasksDeliveries (tasks : List Task) : Nat := (tasks.map Task.deliveries).sum

namespace State

def start : State := ⟨some .empty, .empty, [], #[]⟩

/-- Ends a subscription, if there is one with the label. -/
def unsubscribe (state : State) (label : String) : State :=
  match state.subscriptions.find? label with
  | none => state
  | some id =>
    { state with
      channel := state.channel.map (·.erase id)
      subscriptions := state.subscriptions.erase label }

/-- Subscribes a listener, and then ends the subscription of an earlier one with the same label. -/
def subscribe (state : State) (label : String) (reaction : List Step) : State :=
  match state.channel with
  | none => state
  | some channel =>
    let freed := { state with channel := some (channel.insert label) }.unsubscribe label
    { freed with
      subscriptions := freed.subscriptions.insert label channel.next
      reactions := (channel.next, reaction) :: freed.reactions }

/-- Those who listen now. -/
def listeners (state : State) : List Listener :=
  match state.channel with
  | none => []
  | some channel => channel.entries.map fun entry => ⟨entry.1, entry.2⟩

/-- The listener's reaction, as long as it has not been taken. -/
def reactionOf (state : State) (id : Nat) : List Step := (state.reactions.lookup id).getD []

/-- A listener hears an event and takes its reaction. -/
def hear (state : State) (listener : Listener) (event : ChangeEvent) : State :=
  { state with
    reactions := state.reactions.filter fun entry => entry.1 != listener.id
    heard := state.heard.push (listener.label, event) }

theorem reactions_unsubscribe (state : State) (label : String) :
    (state.unsubscribe label).reactions = state.reactions := by
  unfold unsubscribe
  split <;> rfl

theorem reactionsWeight_subscribe_le (state : State) (label : String) (reaction : List Step) :
    reactionsWeight (state.subscribe label reaction).reactions
      ≤ Step.weightAll reaction + reactionsWeight state.reactions := by
  unfold subscribe
  split
  · omega
  · simp [reactionsWeight, reactions_unsubscribe]

theorem reactionsWeight_filter_add_le (reactions : List (Nat × List Step)) (id : Nat) :
    reactionsWeight (reactions.filter fun entry => entry.1 != id)
      + Step.weightAll ((reactions.lookup id).getD []) ≤ reactionsWeight reactions := by
  induction reactions with
  | nil => simp [reactionsWeight, Step.weightAll]
  | cons entry rest ih =>
    obtain ⟨key, reaction⟩ := entry
    by_cases h : key = id
    · subst h
      simp only [reactionsWeight, List.filter_cons, List.lookup_cons_self, List.map_cons,
        List.sum_cons, Option.getD_some, bne_self_eq_false, Bool.false_eq_true, if_false] at ih ⊢
      omega
    · have hne : (key != id) = true := by simpa using h
      have hlookup : (id == key) = false := by simpa using Ne.symm h
      simp only [reactionsWeight, List.filter_cons, List.lookup_cons, hne, hlookup, if_true,
        List.map_cons, List.sum_cons] at ih ⊢
      omega

end State

theorem tasksWeight_take_append (reaction : List Step) (tasks : List Task) :
    tasksWeight (reaction.map Task.take ++ tasks) = Step.weightAll reaction + tasksWeight tasks := by
  induction reaction with
  | nil => simp [Step.weightAll]
  | cons step rest ih =>
    simp only [tasksWeight, List.map_cons, List.cons_append, List.sum_cons, Task.weight,
      Step.weightAll] at ih ⊢
    omega

theorem tasksDeliveries_take_append (reaction : List Step) (tasks : List Task) :
    tasksDeliveries (reaction.map Task.take ++ tasks) = tasksDeliveries tasks := by
  induction reaction with
  | nil => rfl
  | cons step rest ih => simpa [tasksDeliveries, Task.deliveries] using ih

theorem tasksWeight_deliver_append (listeners : List Listener) (event : ChangeEvent)
    (tasks : List Task) :
    tasksWeight (listeners.map (Task.deliver · event) ++ tasks) = tasksWeight tasks := by
  induction listeners with
  | nil => rfl
  | cons listener rest ih => simpa [tasksWeight, Task.weight] using ih

/-- Does what is to be done, in order, and what that causes before the rest. -/
def run (state : State) : List Task → State
  | [] => state
  | .take (.subscribe label reaction) :: tasks => run (state.subscribe label reaction) tasks
  | .take (.unsubscribe label) :: tasks => run (state.unsubscribe label) tasks
  | .take (.publish event) :: tasks => run state (state.listeners.map (Task.deliver · event) ++ tasks)
  | .take .close :: tasks => run { state with channel := none } tasks
  | .deliver listener event :: tasks =>
    run (state.hear listener event) ((state.reactionOf listener.id).map Task.take ++ tasks)
termination_by tasks => (reactionsWeight state.reactions + tasksWeight tasks, tasksDeliveries tasks)
decreasing_by
  · have := state.reactionsWeight_subscribe_le label reaction
    simp only [tasksWeight, List.map_cons, List.sum_cons, Task.weight, Step.weight]
    exact Prod.Lex.left _ _ (by omega)
  · simp only [State.reactions_unsubscribe, tasksWeight, List.map_cons, List.sum_cons, Task.weight,
      Step.weight]
    exact Prod.Lex.left _ _ (by omega)
  · rw [tasksWeight_deliver_append]
    simp only [tasksWeight, List.map_cons, List.sum_cons, Task.weight, Step.weight]
    exact Prod.Lex.left _ _ (by omega)
  · simp only [tasksWeight, List.map_cons, List.sum_cons, Task.weight, Step.weight]
    exact Prod.Lex.left _ _ (by omega)
  · have hle := State.reactionsWeight_filter_add_le state.reactions listener.id
    rw [tasksWeight_take_append, tasksDeliveries_take_append]
    simp only [State.hear, State.reactionOf, tasksWeight, tasksDeliveries, List.map_cons,
      List.sum_cons, Task.weight, Task.deliveries] at hle ⊢
    rcases Nat.lt_or_eq_of_le hle with hlt | heq
    · exact Prod.Lex.left _ _ (by omega)
    · have : reactionsWeight (state.reactions.filter fun entry => entry.1 != listener.id)
          + (Step.weightAll ((state.reactions.lookup listener.id).getD [])
            + (tasks.map Task.weight).sum)
          = reactionsWeight state.reactions + (0 + (tasks.map Task.weight).sum) := by omega
      rw [this]
      exact Prod.Lex.right _ (by omega)

/-- One step and all that it causes. -/
def State.after (state : State) (step : Step) : State := run state [.take step]

/-- The number of listeners, as long as the channel is open. -/
def State.listenerCount? (state : State) : Option Nat := state.channel.map Table.size

end Rehearsal

end Formulary
