import Formulary.Proofs.Dictionary
import Formulary.Proofs.Sheet.Fresh
import Formulary.Proofs.Workspace.Delivery

/-!
# Formulas at a host

`Since w id w' seen`: from `w` to `w'` the sheet of one host has become what is seen of it, and the host has given
the notices that have been seen. A formula in the context of a host runs and compiles as in the sheet alone
(`contextOf_evaluatesAlike`, `contextOf_compilesAlike`), and what is seen there is all that has happened in the
workspace.
-/

namespace Formulary

/-- Functions stand under their names. -/
def Registry.Named (registry : Registry) : Prop := ∀ name f, registry.find? name = some f → f.name = name

theorem Registry.Named.register {registry : Registry} (h : registry.Named) (f : Function) :
    (registry.register f).Named := by
  intro name g hg
  rcases Dictionary.of_find?_insert hg with ⟨rfl, rfl⟩ | ⟨-, hbefore⟩
  · rfl
  · exact h name g hbefore

theorem Sheet.isAggregate_register (sheet : Sheet) (f : Function) (name : String) :
    (sheet.register f).isAggregate name = if name = f.name then f.aggregate else sheet.isAggregate name := by
  unfold isAggregate register Registry.register
  by_cases heq : name = f.name
  · rw [if_pos heq, heq, Dictionary.find?_insert_self]
    rfl
  · rw [if_neg heq, Dictionary.find?_insert_of_ne _ _ heq]

/-- The function that a call is of stands under its name. -/
theorem Sheet.find?_name_of_functionFor {sheet : Sheet} (h : sheet.functions.Named) {name : String}
    {count : Nat} {f : Function} (hf : sheet.functionFor name count = .ok f) :
    sheet.functions.find? f.name = some f := by
  have hfound := find?_of_functionFor hf
  rw [h name f hfound]
  exact hfound

/-- A host is no more than its sheet. -/
structure HostSetup.Plain (setup : HostSetup) : Prop where
  minimal : setup.minimal = false
  code : setup.code = .empty
  failing : setup.failing = []

/-- Whether formulas that hear the notice must be compiled again. -/
def Notice.outdatesCode : Notice → Bool
  | .changed event => event.outdatesCode
  | .counted _ _ => false

namespace Workspace

/-- What comes of a notice when a host gives it. -/
def heardOf (w : Workspace) (id : Nat) : Notice → List (String × ChangeEvent)
  | .changed event => w.heardFrom id event
  | .counted _ _ => []

structure Since (w : Workspace) (id : Nat) (w' : Workspace) (seen : Sheet × List Notice) : Prop where
  known : ∃ host, w.hosts.find? id = some host
  nextHost : w'.hosts.next = w.hosts.next
  host : ∀ other, w'.hosts.find? other =
    (w.hosts.find? other).map fun host => if other = id then { host with sheet := seen.1 } else host
  nextFormula : w'.formulas.next = w.formulas.next
  formula : ∀ other, w'.formulas.find? other = (w.formulas.find? other).map fun f =>
    { f with outdated := f.outdated ||
      (seen.2.any Notice.outdatesCode && (w.host id).channel.values.contains (.formula other)) }
  tells : Tells w w' (seen.2.flatMap (w.heardOf id))

namespace Since

variable {w w' : Workspace} {id : Nat} {sheet : Sheet} {notices : List Notice}

theorem refl {host : Host} (h : w.hosts.find? id = some host) : Since w id w (host.sheet, []) where
  known := ⟨host, h⟩
  nextHost := rfl
  host other := by
    by_cases heq : other = id
    · rw [heq, h]
      simp
    · cases w.hosts.find? other <;> simp [heq]
  nextFormula := rfl
  formula other := by cases w.formulas.find? other <;> simp
  tells := .refl w

variable (h : Since w id w' (sheet, notices))

include h

theorem sheet_eq : (w'.host id).sheet = sheet := by
  obtain ⟨host, hhost⟩ := h.known
  have hfound := h.host id
  rw [hhost, Option.map_some, if_pos rfl] at hfound
  rw [host_of_find? hfound]

theorem channel_host (other : Nat) : (w'.host other).channel = (w.host other).channel := by
  rw [Workspace.host, Workspace.host, h.host]
  cases w.hosts.find? other with
  | none => rfl
  | some host => by_cases heq : other = id <;> simp [heq]

theorem channel_formula (other : Nat) : (w'.formula other).channel = (w.formula other).channel := by
  rw [Workspace.formula, Workspace.formula, h.formula]
  cases w.formulas.find? other <;> rfl

theorem heardFrom_eq (event : ChangeEvent) : w'.heardFrom id event = w.heardFrom id event := by
  have hthrough : w'.heardThrough event = w.heardThrough event := by
    funext listener
    cases listener with
    | outside => rfl
    | formula other => simp only [heardThrough, h.channel_formula]
  rw [heardFrom, heardFrom, h.channel_host, hthrough]

theorem record {entry : Entry} (hentry : entry.delivery? = none) :
    Since w id (w'.record entry) (sheet, notices) := by
  refine { h with tells := ?_ }
  have htells := h.tells.trans (.record w' entry)
  rwa [hentry, Option.toList_none, List.append_nil] at htells

theorem update (change : Sheet → Sheet) : Since w id
    (w'.updateHost id fun host => { host with sheet := change host.sheet }) (change sheet, notices) := by
  refine { h with host := fun other => ?_ }
  rw [find?_updateHost, h.host, Option.map_map]
  by_cases heq : other = id
  · obtain ⟨host, hhost⟩ := h.known
    simp [heq, hhost]
  · simp only [if_neg heq]
    rfl

theorem publish (event : ChangeEvent) :
    Since w id (w'.publish id event) (sheet, notices ++ [.changed event]) := by
  have hpublish := w'.publish_notifies id event
  constructor
  case known => exact h.known
  case nextHost => rw [hpublish.hosts, h.nextHost]
  case host =>
    intro other
    rw [hpublish.hosts, h.host]
  case nextFormula => exact hpublish.next.trans h.nextFormula
  case formula =>
    intro other
    rw [hpublish.find?, h.formula, Option.map_map, h.channel_host]
    congr 1
    funext f
    simp [Notice.outdatesCode, Bool.and_or_distrib_right, Bool.or_assoc]
  case tells =>
    rw [List.flatMap_append, List.flatMap_singleton]
    rw [h.heardFrom_eq] at hpublish
    exact h.tells.trans hpublish.tells

theorem notice (note : Notice) : Since w id (w'.notice id note) (sheet, notices ++ [note]) := by
  cases note with
  | changed event => exact h.publish event
  | counted functionName calls =>
    have hrecord : Since w id (w'.notice id (.counted functionName calls)) (sheet, notices) := h.record rfl
    exact { hrecord with
      formula := fun other => by simpa [Notice.outdatesCode] using hrecord.formula other
      tells := by simpa [heardOf] using hrecord.tells }

end Since

/-! ## The context of a host -/

/-- The same since, and which functions are aggregate ones has not changed. -/
def Within (w : Workspace) (id : Nat) (w' : Workspace) (seen : Sheet × List Notice) : Prop :=
  Since w id w' seen ∧ seen.1.functions.Named ∧ seen.1.isAggregate = (w.host id).sheet.isAggregate

section Context

variable {w : Workspace} {id : Nat}

theorem read_alike : Alike (Within w id) (access id).read SheetAccess.heard.read :=
  fun _ _ h => ⟨h.1.sheet_eq, h⟩

theorem announce_alike (note : Notice) :
    Alike (Within w id) ((access id).announce note) (SheetAccess.heard.announce note) :=
  fun _ _ h => ⟨rfl, h.1.notice note, h.2⟩

/-- A change that leaves the functions alone. -/
theorem update_alike {change : Sheet → Sheet} (hchange : ∀ sheet, (change sheet).functions = sheet.functions) :
    Alike (Within w id) ((access id).update change) (SheetAccess.heard.update change) := by
  rintro w' ⟨sheet, notices⟩ ⟨hsince, hnamed, haggregate⟩
  refine ⟨rfl, hsince.update change, ?_, ?_⟩
  · show (change sheet).functions.Named
    rw [hchange]
    exact hnamed
  · show (change sheet).isAggregate = _
    rw [← haggregate]
    funext name
    rw [Sheet.isAggregate, hchange]
    rfl

theorem setVariable_alike (name : String) (value : Value) :
    Alike (Within w id) ((access id).setVariable name value) (SheetAccess.heard.setVariable name value) := by
  have hupdate : Alike (Within w id) ((access id).update (·.setVariable name value))
      (SheetAccess.heard.update (·.setVariable name value)) := update_alike fun _ => rfl
  exact read_alike.bind fun _ => hupdate.bind fun _ => announce_alike _

/-- A function may be put in its own place if the compiler sees no difference. -/
theorem register_within {w' : Workspace} {sheet : Sheet} {notices : List Notice} {f g : Function}
    (h : Within w id w' (sheet, notices)) (hf : sheet.functions.find? f.name = some f) (hname : g.name = f.name)
    (haggregate : g.aggregate = f.aggregate) :
    Within w id (((access id).update (·.register g)).run w').2 (sheet.register g, notices) := by
  obtain ⟨hsince, hnamed, hsame⟩ := h
  refine ⟨hsince.update (·.register g), Registry.Named.register hnamed g, ?_⟩
  show (sheet.register g).isAggregate = _
  rw [← hsame]
  funext name
  rw [Sheet.isAggregate_register]
  split
  · next heq =>
    rw [haggregate, Sheet.isAggregate, heq, hname, hf]
    rfl
  · rfl

/-- The body of a function of the sheet. -/
theorem callBody_alike (f : Function) (args : List Value) {w' : Workspace} {sheet : Sheet}
    {notices : List Notice} (h : Within w id w' (sheet, notices))
    (hf : sheet.functions.find? f.name = some f) :
    (((access id).callBody f args).runIn w').1 =
        ((SheetAccess.heard.callBody f args).runIn (sheet, notices)).1 ∧
      Within w id (((access id).callBody f args).runIn w').2
        ((SheetAccess.heard.callBody f args).runIn (sheet, notices)).2 := by
  unfold SheetAccess.callBody
  cases f.body with
  | result run => exact Answer.alike_ofExcept _ _ _ h
  | setting run =>
    exact ((Answer.alike_lift read_alike).bind fun _ =>
      SheetAccess.setAndAnswer_alike setVariable_alike _) _ _ h
  | counter calls =>
    have hregistered := register_within h hf (g := { f with body := .counter (calls + 1) }) rfl rfl
    dsimp only
    generalize Value.number (.ofNat (calls + 1)) = value
    exact Answer.alike_lift ((announce_alike (.counted f.name (calls + 1))).bind fun _ => alike_pure value) _ _
      hregistered

theorem call_alike (name : String) (args : List Value) :
    Answer.Alike (Within w id) ((Sheet.context (access id)).call name args)
      ((Sheet.context .heard).call name args) := by
  rintro w' ⟨sheet, notices⟩ h
  have hcall : ((Sheet.context (access id)).call name args).runIn w' =
      (Answer.ofExcept (sheet.functionFor name args.length) >>= fun f =>
        (access id).callBody f args).runIn w' := by
    rw [← h.1.sheet_eq]
    rfl
  have hcall' : ((Sheet.context .heard).call name args).runIn (sheet, notices) =
      (Answer.ofExcept (sheet.functionFor name args.length) >>= fun f =>
        SheetAccess.heard.callBody f args).runIn (sheet, notices) := rfl
  rw [hcall, hcall']
  cases hf : sheet.functionFor name args.length with
  | error error => exact ⟨rfl, h⟩
  | ok f => exact callBody_alike f args h (Sheet.find?_name_of_functionFor h.2.1 hf)

theorem context_evaluatesAlike :
    (Sheet.context (access id)).EvaluatesAlike (Within w id) (Sheet.context .heard) where
  lookup _ _ := (Answer.alike_lift read_alike).bind fun _ => Answer.alike_ofExcept _
  lookupScoped _ _ _ := (Answer.alike_lift read_alike).bind fun _ => Answer.alike_ofExcept _
  call := call_alike

/-- In compilation: no notices, and only the scope has changed. -/
def Compiling (w : Workspace) (id : Nat) (w' : Workspace) (sheet : Sheet) : Prop :=
  Since w id w' (sheet, []) ∧ sheet.variables = (w.host id).sheet.variables ∧
    sheet.functions = (w.host id).sheet.functions

theorem readOwn_alike : Alike (Compiling w id) (access id).read SheetAccess.own.read :=
  fun _ _ h => ⟨h.1.sheet_eq, h⟩

theorem updateScope_alike (change : Scope → Scope) :
    Alike (Compiling w id) ((access id).updateScope change) (SheetAccess.own.updateScope change) :=
  fun _ _ h => ⟨rfl, h.1.update fun sheet => { sheet with scope := change sheet.scope }, h.2⟩

theorem context_compilesAlike :
    (Sheet.context (access id)).CompilesAlike (Compiling w id) (Sheet.context .own) where
  variableCode _ _ := Answer.alike_pure _
  callCode _ _ _ := Answer.alike_lift (readOwn_alike.bind fun _ =>
    (updateScope_alike _).bind fun _ => alike_pure _)
  isAggregate _ := readOwn_alike.bind fun _ => alike_pure _
  beginFrame _ := updateScope_alike _
  endFrame _ := updateScope_alike _
  openIndices := readOwn_alike.bind fun _ => alike_pure _
  beginCompile := updateScope_alike _
  endCompile := updateScope_alike _
  settleCompile := updateScope_alike _
  hasAggregates := readOwn_alike.bind fun _ => alike_pure _
  load _ := Answer.alike_ofExcept _

theorem Since.recordRequest {w' : Workspace} {seen : Sheet × List Notice} (h : Since w id w' seen)
    (tracing : Tracing) (request : Request) : Since w id ((recordRequest tracing request).run w').2 seen := by
  cases tracing with
  | silent => exact h
  | traced label => exact h.record rfl

theorem contextOf_eq {setup : HostSetup} (h : setup.Plain) : contextOf id setup =
    (Sheet.context (access id)).traced (recordRequest setup.tracing) := by
  obtain ⟨hminimal, hcode, hfailing⟩ := h
  unfold contextOf
  rw [hminimal, hcode, hfailing]
  rfl

/-- **Evaluation at a host.** -/
theorem contextOf_evaluatesAlike {setup : HostSetup} (h : setup.Plain) :
    (contextOf id setup).EvaluatesAlike (Within w id) (Sheet.context .heard) := by
  rw [contextOf_eq h]
  exact context_evaluatesAlike.traced fun request _ _ h => ⟨h.1.recordRequest setup.tracing request, h.2⟩

/-- **Compilation at a host.** -/
theorem contextOf_compilesAlike {setup : HostSetup} (h : setup.Plain) :
    (contextOf id setup).CompilesAlike (Compiling w id) (Sheet.context .own) := by
  rw [contextOf_eq h]
  exact context_compilesAlike.traced fun request _ _ h => ⟨h.1.recordRequest setup.tracing request, h.2⟩

end Context

end Workspace

end Formulary
