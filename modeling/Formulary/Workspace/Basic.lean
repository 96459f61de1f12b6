import Formulary.Compiled
import Formulary.Sheet.Basic

/-!
# Workspaces

A workspace holds hosts, which are sheets that others listen to, and formulas, each attached to at most one
host. All that happens in it is put in a journal, as far as its hosts are traced.

What a host publishes goes to its listeners in order. A formula that hears that the namespace has changed
marks its code as outdated; it passes every event on to its own listeners.
-/

namespace Formulary

/-- How a formula finds its value. -/
inductive Strategy where
  | compiled
  | direct
  | flattened
deriving DecidableEq, Repr

def Strategy.describe : Strategy → String
  | compiled => "Compiled"
  | direct => "Direct"
  | flattened => "Postfix"

/-- Whether the requests to a host are put in the journal, and the label they have there. -/
inductive Tracing where
  | silent
  | traced (label : Option String)
deriving DecidableEq, Repr

/-- What happens in a workspace. -/
inductive Entry where
  | requested (label : Option String) (request : Request)
  | counted (functionName : String) (calls : Nat)
  | parsed (source : String)
  | delivered (subscription : String) (event : ChangeEvent)
deriving DecidableEq, Repr

def Entry.describe : Entry → String
  | requested none request => request.describe
  | requested (some label) request => label ++ ": " ++ request.describe
  | counted functionName calls => "tick " ++ functionName ++ " " ++ toString calls
  | parsed source => "parse " ++ source
  | delivered subscription event => "event " ++ subscription ++ " " ++ event.describe

/-- How a host differs from its sheet. -/
structure HostSetup where
  tracing : Tracing
  /-- The host resolves only what every context must, and its sheet is not looked at. -/
  minimal : Bool
  /-- Code in place of that of the sheet, by the name of the variable. -/
  code : Dictionary String
  /-- Variables for which there is no code. -/
  failing : List String

namespace HostSetup

/-- An untraced sheet as it is. -/
def plain : HostSetup := ⟨.silent, false, .empty, []⟩

instance : Inhabited HostSetup := ⟨plain⟩

end HostSetup

inductive Listener where
  /-- Someone outside of the workspace, who has the events put in the journal. -/
  | outside (subscription : String)
  | formula (id : Nat)
deriving DecidableEq, Repr

/-- A sheet with its listeners. -/
structure Host where
  setup : HostSetup
  sheet : Sheet
  channel : Channel Listener

instance : Inhabited Host := ⟨⟨default, default, default⟩⟩

/-- Where a formula is attached: a host, and the formula's subscription there. -/
structure Attachment where
  host : Nat
  subscription : Nat
deriving DecidableEq, Repr

structure Formula where
  source : String
  strategy : Strategy
  attachment : Option Attachment
  /-- The tree or the error found by the last reading of the source, while it counts; no tree if the source
  is blank. -/
  tree : Option (Except FormulaError (Option Expr))
  /-- Likewise for the compiled form. -/
  compiled : Option (Except FormulaError (Option Compiled))
  /-- The compiled form counts no longer. -/
  outdated : Bool
  /-- The subscriptions to the formula. -/
  channel : Channel String

namespace Formula

def ofSource (source : String) (strategy : Strategy) : Formula :=
  ⟨source, strategy, none, none, none, false, .empty⟩

instance : Inhabited Formula := ⟨ofSource "" .compiled⟩

def describe (f : Formula) : String :=
  "Formula \x7b source: " ++ quotedText f.source ++ ", options: FormulaOptions \x7b strategy: "
    ++ f.strategy.describe ++ " \x7d, has_context: "
    ++ (if f.attachment.isSome then "true" else "false") ++ " \x7d"

end Formula

structure Workspace where
  hosts : Table Host
  formulas : Table Formula
  journal : Array Entry

namespace Workspace

def empty : Workspace := ⟨.empty, .empty, #[]⟩

instance : Inhabited Workspace := ⟨empty⟩

def host (w : Workspace) (id : Nat) : Host := (w.hosts.find? id).getD default

def formula (w : Workspace) (id : Nat) : Formula := (w.formulas.find? id).getD default

def record (w : Workspace) (entry : Entry) : Workspace := { w with journal := w.journal.push entry }

def updateHost (w : Workspace) (id : Nat) (change : Host → Host) : Workspace :=
  { w with hosts := w.hosts.modify id change }

def updateFormula (w : Workspace) (id : Nat) (change : Formula → Formula) : Workspace :=
  { w with formulas := w.formulas.modify id change }

/-- The host gets the number `hosts.next`. -/
def addHost (w : Workspace) (setup : HostSetup) (sheet : Sheet) : Workspace :=
  { w with hosts := w.hosts.insert ⟨setup, sheet, .empty⟩ }

/-- The listeners of a formula hear an event. -/
def deliverFrom (w : Workspace) (id : Nat) (event : ChangeEvent) : Workspace :=
  (w.formula id).channel.values.foldl (fun w subscription => w.record (.delivered subscription event)) w

/-- A listener hears an event. -/
def deliver (event : ChangeEvent) (w : Workspace) : Listener → Workspace
  | .outside subscription => w.record (.delivered subscription event)
  | .formula id =>
    let marked := if event.outdatesCode then w.updateFormula id ({ · with outdated := true }) else w
    event.forwarded.foldl (fun w event => w.deliverFrom id event) marked

/-- All who listen to a host hear an event. -/
def publish (w : Workspace) (id : Nat) (event : ChangeEvent) : Workspace :=
  (w.host id).channel.values.foldl (deliver event) w

end Workspace

/-- A computation in a workspace. -/
abbrev WorkspaceM := StateM Workspace

namespace Workspace

def notice (w : Workspace) (id : Nat) : Notice → Workspace
  | .changed event => w.publish id event
  | .counted functionName calls => w.record (.counted functionName calls)

/-- Access to the sheet of a host, with the host's listeners to hear of its changes. -/
def access (id : Nat) : SheetAccess WorkspaceM where
  read := do return ((← get).host id).sheet
  update change := modify (·.updateHost id fun host => { host with sheet := change host.sheet })
  announce note := modify (·.notice id note)

/-- Puts a request to a host in the journal if the host is traced. -/
def recordRequest (tracing : Tracing) (request : Request) : WorkspaceM Unit :=
  match tracing with
  | .silent => pure ()
  | .traced label => modify (·.record (.requested label request))

/-- A host of some setup as a context. -/
def contextOf (id : Nat) (setup : HostSetup) : Context WorkspaceM :=
  if setup.minimal then Context.minimal (recordRequest setup.tracing)
  else ((Sheet.context (access id)).withVariableCode setup.code setup.failing).traced
    (recordRequest setup.tracing)

/-- The context that a host is. -/
def hostContext (id : Nat) : WorkspaceM (Context WorkspaceM) := do
  return contextOf id ((← get).host id).setup

/-- Computes in a workspace with one host only, and gives the journal with the result. -/
def onHost {α : Type} (setup : HostSetup) (sheet : Sheet)
    (compute : Context WorkspaceM → WorkspaceM α) : α × Array Entry :=
  let (result, after) := (compute (contextOf 0 setup)).run (empty.addHost setup sheet)
  (result, after.journal)

end Workspace

end Formulary
