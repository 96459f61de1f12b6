import Formulary.Natural
import Formulary.Table

/-!
# Change events

What a sheet says when it changes, and what a formula says on when it hears it. An event goes to the
listeners of a channel in the order in which they subscribed.
-/

namespace Formulary

inductive ChangeEvent where
  /-- A name came or went: compiled formulas must be compiled again. -/
  | namespaceChanged (name : String)
  /-- A value changed: compiled formulas stay valid, but their results may differ. -/
  | dependentChanged (name : Option String)
deriving DecidableEq, Repr

namespace ChangeEvent

def describe : ChangeEvent → String
  | namespaceChanged name => "namespace " ++ name
  | dependentChanged none => "dependent"
  | dependentChanged (some name) => "dependent " ++ name

/-- What the listeners of a formula hear when its context publishes an event. -/
def forwarded : ChangeEvent → List ChangeEvent
  | namespaceChanged name => [namespaceChanged name, dependentChanged none]
  | dependentChanged name => [dependentChanged name]

/-- Whether a formula must be compiled again after the event. -/
def outdatesCode : ChangeEvent → Bool
  | namespaceChanged _ => true
  | dependentChanged _ => false

end ChangeEvent

/-- Listeners, each under the number of its subscription. -/
abbrev Channel (α : Type) := Table α

def Channel.describe {α : Type} (channel : Channel α) : String :=
  "EventChannel \x7b listeners: " ++ toString channel.size ++ " \x7d"

/-- A subscription, as long as nobody has cancelled it. -/
def activeSubscription : String := "Subscription \x7b active: true \x7d"

end Formulary
