import Formulary.Workspace.Formula

/-!
# Sessions

A workspace whose hosts, formulas and subscriptions have names, and the commands that may be given in it. Each
command has one reply. A name given anew stands for the new thing; a formula or a subscription that has
lost its name so is dropped, while a host stays with the formulas attached to it.
-/

namespace Formulary

/-- What a subscription is to. -/
inductive Source where
  | host (id : Nat)
  | formula (id : Nat)
deriving DecidableEq, Repr

structure Subscription where
  source : Source
  /-- The number under which the source's channel has it. -/
  id : Nat
deriving DecidableEq, Repr

structure Session where
  workspace : Workspace
  hosts : Dictionary Nat
  formulas : Dictionary Nat
  subscriptions : Dictionary Subscription

abbrev SessionM := StateM Session

/-- The name of a host or of a formula. -/
inductive SourceName where
  | host (name : String)
  | formula (name : String)
deriving DecidableEq, Repr

inductive HostCommand where
  | setVariable (name : String) (value : Value)
  | removeVariable (name : String)
  | readVariable (name : String)
  | register (f : Function)
  | publish (event : ChangeEvent)

inductive FormulaCommand where
  | setSource (source : String)
  /-- Attaches the formula to the host of a name, or to none. -/
  | setHost (host : Option String)
  | setStrategy (strategy : Strategy)
  | invalidate
  | invalidateCode
  | readSource
  | hasHost
  | describe
  | readTree
  | readCompiled
  | hasAggregates
  | evaluate (strategy : Strategy) (bindings : Bindings)
  | run (bindings : Bindings)
  | callCompiled (host : String) (bindings : Bindings)
  | references

inductive Command where
  | makeHost (name : String) (setup : HostSetup) (sheet : Sheet)
  | makeFormula (name : String) (source : String) (strategy : Strategy) (host : Option String)
  | subscribe (name : String) (source : SourceName)
  | cancel (name : String)
  | dropSubscription (name : String)
  | countListeners (source : SourceName)
  | dropFormula (name : String)
  | dropHost (name : String)
  | atHost (name : String) (command : HostCommand)
  | atFormula (name : String) (command : FormulaCommand)

inductive Reply where
  | done
  /-- Nothing has the name. -/
  | unknown (name : String)
  | flag (holds : Bool)
  | text (text : String)
  | strategy (strategy : Strategy)
  | variable (value : Option Value)
  | listeners (count : Nat) (description : String)
  | tree (found : Except FormulaError (Option Expr))
  | compiled (found : Except FormulaError (Option Compiled))
  | value (result : Except FormulaError Value)
  /-- No value if there was nothing to run. -/
  | valueIfAny (result : Except FormulaError (Option Value))
  | references (found : Except FormulaError References)

namespace Session

def empty : Session := ⟨.empty, .empty, .empty, .empty⟩

instance : Inhabited Session := ⟨empty⟩

def within {α : Type} (compute : WorkspaceM α) : SessionM α := fun s =>
  let (result, after) := compute.run s.workspace
  (result, { s with workspace := after })

/-- Changes the workspace, with no more to say. -/
def changing (change : Workspace → Workspace) : SessionM Reply := do
  within (modify change)
  pure .done

/-- Answers with a result of the workspace. -/
def answering {α : Type} (reply : Except FormulaError α → Reply) (compute : Answer WorkspaceM α) :
    SessionM Reply := do
  return reply (← within compute.run)

def findSource? (s : Session) : SourceName → Option Source
  | .host name => (s.hosts.find? name).map .host
  | .formula name => (s.formulas.find? name).map .formula

/-- Takes a subscription out of its channel. -/
def unsubscribe (w : Workspace) (subscription : Subscription) : Workspace :=
  match subscription.source with
  | .host id => w.updateHost id fun host =>
    { host with channel := host.channel.erase subscription.id }
  | .formula id => w.updateFormula id fun f =>
    { f with channel := f.channel.erase subscription.id }

/-- Makes a subscription under a name, and then drops an older one of that name. -/
def subscribe (s : Session) (name : String) (source : Source) : Session :=
  let (workspace, id) := match source with
    | .host id => (s.workspace.updateHost id fun host =>
        { host with channel := host.channel.insert (.outside name) },
        (s.workspace.host id).channel.next)
    | .formula id => (s.workspace.updateFormula id fun f =>
        { f with channel := f.channel.insert name },
        (s.workspace.formula id).channel.next)
  let freed := match s.subscriptions.find? name with
    | some older => unsubscribe workspace older
    | none => workspace
  { s with workspace := freed, subscriptions := s.subscriptions.insert name ⟨source, id⟩ }

/-- Drops a subscription. -/
def dropSubscription (s : Session) (name : String) : Session :=
  match s.subscriptions.find? name with
  | none => s
  | some subscription =>
    { s with
      workspace := unsubscribe s.workspace subscription
      subscriptions := s.subscriptions.erase name }

def dropFormula (s : Session) (name : String) : Session :=
  match s.formulas.find? name with
  | none => s
  | some id =>
    { s with workspace := s.workspace.dropFormula id, formulas := s.formulas.erase name }

def makeHost (s : Session) (name : String) (setup : HostSetup) (sheet : Sheet) : Session :=
  { s with
    workspace := s.workspace.addHost setup sheet
    hosts := s.hosts.insert name s.workspace.hosts.next }

/-- Makes a formula under a name, and then drops an older one of that name. -/
def makeFormula (s : Session) (name source : String) (strategy : Strategy) (hostId : Option Nat) :
    Session :=
  let made := { s with workspace := s.workspace.addFormula source strategy hostId }
  let freed := made.dropFormula name
  { freed with formulas := freed.formulas.insert name s.workspace.formulas.next }

def listenersOf (s : Session) : Source → Reply
  | .host id =>
    let channel := (s.workspace.host id).channel
    .listeners channel.size channel.describe
  | .formula id =>
    let channel := (s.workspace.formula id).channel
    .listeners channel.size channel.describe

def performAtHost (id : Nat) : HostCommand → SessionM Reply
  | .setVariable name value => do
    within ((Workspace.access id).setVariable name value)
    pure .done
  | .removeVariable name => within do
    let sheet := ((← get).host id).sheet
    (Workspace.access id).removeVariable name
    pure (.variable (sheet.variables.find? name))
  | .readVariable name => within do
    return .variable (((← get).host id).sheet.variables.find? name)
  | .register f => do
    within ((Workspace.access id).register f)
    pure .done
  | .publish event => changing (·.publish id event)

def performAtFormula (id : Nat) : FormulaCommand → SessionM Reply
  | .setSource source => changing (·.setSource id source)
  | .setHost none => changing (·.setHost id none)
  | .setHost (some name) => do
    match (← get).hosts.find? name with
    | some hostId => changing (·.setHost id (some hostId))
    | none => pure (.unknown name)
  | .setStrategy strategy => do
    within (modify (·.setStrategy id strategy))
    pure (.strategy strategy)
  | .invalidate => changing (·.invalidate id)
  | .invalidateCode => changing (·.invalidateCode id)
  | .readSource => within do return .text ((← get).formula id).source
  | .hasHost => within do return .flag ((← get).formula id).attachment.isSome
  | .describe => within do return .text ((← get).formula id).describe
  | .readTree => answering .tree (Workspace.tree id)
  | .readCompiled => answering .compiled (Workspace.compiled id)
  | .hasAggregates => within do return .flag (← Workspace.hasAggregates id)
  | .evaluate strategy bindings => answering .value (Workspace.evaluate id strategy bindings)
  | .run bindings => answering .value (Workspace.run id bindings)
  | .callCompiled name bindings => do
    match (← get).hosts.find? name with
    | some hostId => answering .valueIfAny (Workspace.callCompiled id hostId bindings)
    | none => pure (.unknown name)
  | .references => answering .references (Workspace.references id)

/-- Carries out a command. -/
def perform : Command → SessionM Reply
  | .makeHost name setup sheet => do
    modify (·.makeHost name setup sheet)
    pure .done
  | .makeFormula name source strategy none => do
    modify (·.makeFormula name source strategy none)
    pure .done
  | .makeFormula name source strategy (some host) => do
    match (← get).hosts.find? host with
    | some hostId =>
      modify (·.makeFormula name source strategy (some hostId))
      pure .done
    | none => pure (.unknown host)
  | .subscribe name source => do
    match (← get).findSource? source with
    | some source =>
      modify (·.subscribe name source)
      pure .done
    | none => pure (.unknown name)
  | .cancel name => do
    if (← get).subscriptions.contains name then
      modify (·.dropSubscription name)
      pure (.text activeSubscription)
    else pure (.unknown name)
  | .dropSubscription name => do
    let known := (← get).subscriptions.contains name
    modify (·.dropSubscription name)
    pure (.flag known)
  | .countListeners source => do
    let s ← get
    match s.findSource? source, source with
    | some source, _ => pure (s.listenersOf source)
    | none, .host name | none, .formula name => pure (.unknown name)
  | .dropFormula name => do
    let known := (← get).formulas.contains name
    modify (·.dropFormula name)
    pure (.flag known)
  | .dropHost name => do
    let s ← get
    set { s with hosts := s.hosts.erase name }
    pure (.flag (s.hosts.contains name))
  | .atHost name command => do
    match (← get).hosts.find? name with
    | some id => performAtHost id command
    | none => pure (.unknown name)
  | .atFormula name command => do
    match (← get).formulas.find? name with
    | some id => performAtFormula id command
    | none => pure (.unknown name)

/-- Carries out a command, and gives what it put in the journal with the reply. -/
def step (s : Session) (command : Command) : Session × Reply × List Entry :=
  let (reply, after) := (perform command).run s
  (after, reply, (after.workspace.journal.extract s.workspace.journal.size).toList)

end Session

end Formulary
