import Formulary.Proofs.Workspace.Connected
import Formulary.Proofs.Workspace.Hosts
import Formulary.Workspace.Formula

/-!
# What formulas keep

A formula keeps the tree of its source, and the compiled form of the tree for the host that it is attached to.
`Sound` says that what counts of this is what would be found afresh. A host that changes what the compiler
sees also publishes it, which outdates the compiled forms of all who are attached (`Since.sound`).
-/

namespace Formulary

/-- What counts of the kept tree and the kept compiled form is what is found afresh. -/
structure Formula.Fresh (f : Formula) (sheet : Sheet) : Prop where
  tree : ∀ found, f.tree = some found → found = parse f.source
  compiled : ∀ found, f.compiled = some found → f.outdated = false → found = sheet.compileSource f.source

/-- What is not kept cannot be out of date. -/
theorem Formula.fresh_of_none {f : Formula} (htree : f.tree = none) (hcompiled : f.compiled = none)
    (sheet : Sheet) : f.Fresh sheet where
  tree found hfound := absurd (htree.symm.trans hfound).symm (Option.some_ne_none found)
  compiled found hfound _ := absurd (hcompiled.symm.trans hfound).symm (Option.some_ne_none found)

theorem Sheet.compileSource_congr {sheet sheet' : Sheet} (h : sheet.isAggregate = sheet'.isAggregate)
    (source : String) : sheet.compileSource source = sheet'.compileSource source := by
  unfold compileSource
  split
  · rfl
  · rw [compile_congr h]
  · rfl

/-- All but the scopes is the same. -/
def Sheet.Agrees (sheet sheet' : Sheet) : Prop :=
  sheet.variables = sheet'.variables ∧ sheet.functions = sheet'.functions

theorem Sheet.Agrees.trans {sheet sheet' sheet'' : Sheet} (h : sheet.Agrees sheet')
    (h' : sheet'.Agrees sheet'') : sheet.Agrees sheet'' := ⟨h.1.trans h'.1, h.2.trans h'.2⟩

theorem Sheet.Agrees.isAggregate {sheet sheet' : Sheet} (h : sheet.Agrees sheet') :
    sheet.isAggregate = sheet'.isAggregate := by
  funext name
  rw [Sheet.isAggregate, h.2]
  rfl

namespace Workspace

/-- The sheet of a formula's host, or the one that its host will have. -/
def sheetOf (w : Workspace) (f : Formula) : Sheet :=
  match f.attachment with
  | some attachment => (w.host attachment.host).sheet
  | none => .empty

/-- A formula's host, or the one that it will have. -/
def hostOf (w : Workspace) (f : Formula) : Nat :=
  match f.attachment with
  | some attachment => attachment.host
  | none => w.hosts.next

structure Sound (w : Workspace) : Prop where
  plain : ∀ id host, w.hosts.find? id = some host → host.setup.Plain ∧ host.sheet.functions.Named
  fresh : ∀ id f, w.formulas.find? id = some f → f.Fresh (w.sheetOf f)
  /-- The counter of aggregate arguments does not overflow. -/
  length : ∀ id f, w.formulas.find? id = some f → f.source.length ≤ 2 ^ 64

namespace Sound

variable {w w' : Workspace} (h : w.Sound)

include h

theorem congr (hhosts : w'.hosts = w.hosts) (hformulas : w'.formulas = w.formulas) : w'.Sound := by
  have hsheet : ∀ f, w'.sheetOf f = w.sheetOf f := by
    intro f
    unfold sheetOf host
    rw [hhosts]
  constructor
  case plain =>
    rw [hhosts]
    exact h.plain
  case fresh =>
    intro id f hf
    rw [hformulas] at hf
    rw [hsheet]
    exact h.fresh id f hf
  case length =>
    rw [hformulas]
    exact h.length

/-- A formula changes, but not its host. -/
theorem updateFormula (id : Nat) {change : Formula → Formula}
    (hfresh : ∀ f, w.formulas.find? id = some f → (change f).Fresh (w.sheetOf (change f)))
    (hlength : ∀ f, w.formulas.find? id = some f → (change f).source.length ≤ 2 ^ 64) :
    (w.updateFormula id change).Sound := by
  constructor
  case plain => exact h.plain
  case fresh =>
    intro other f hf
    rw [find?_updateFormula, Option.map_eq_some_iff] at hf
    obtain ⟨before, hbefore, rfl⟩ := hf
    split
    · next heq => exact hfresh before (heq ▸ hbefore)
    · exact h.fresh other before hbefore
  case length =>
    intro other f hf
    rw [find?_updateFormula, Option.map_eq_some_iff] at hf
    obtain ⟨before, hbefore, rfl⟩ := hf
    split
    · next heq => exact hlength before (heq ▸ hbefore)
    · exact h.length other before hbefore

end Sound

/-! ## Changes of connections -/

/-- The hosts have the sheets that they had. -/
def SameSheets (w w' : Workspace) : Prop := ∀ id, (w'.hosts.find? id).map (fun host => (host.setup, host.sheet)) =
  (w.hosts.find? id).map fun host => (host.setup, host.sheet)

namespace SameSheets

variable {w w' w'' : Workspace}

theorem refl (w : Workspace) : SameSheets w w := fun _ => rfl

theorem trans (h : SameSheets w w') (h' : SameSheets w' w'') : SameSheets w w'' :=
  fun id => (h' id).trans (h id)

theorem updateHost (w : Workspace) (id : Nat) {change : Host → Host}
    (hchange : ∀ host, (change host).setup = host.setup ∧ (change host).sheet = host.sheet) :
    SameSheets w (w.updateHost id change) := by
  intro other
  rw [find?_updateHost, Option.map_map]
  congr 1
  funext host
  simp only [Function.comp_apply]
  split
  · rw [(hchange host).1, (hchange host).2]
  · rfl

theorem exists_host (h : SameSheets w w') {id : Nat} {host : Host} (hhost : w.hosts.find? id = some host) :
    ∃ host', w'.hosts.find? id = some host' ∧ host'.setup = host.setup ∧ host'.sheet = host.sheet := by
  have hdata := h id
  rw [hhost, Option.map_some, Option.map_eq_some_iff] at hdata
  obtain ⟨host', hhost', heq⟩ := hdata
  exact ⟨host', hhost', congrArg Prod.fst heq, congrArg Prod.snd heq⟩

theorem symm (h : SameSheets w w') : SameSheets w' w := fun id => (h id).symm

theorem sheet_host (h : SameSheets w w') (id : Nat) : (w'.host id).sheet = (w.host id).sheet := by
  have hdata := congrArg (Option.map Prod.snd) (h id)
  rw [Option.map_map, Option.map_map] at hdata
  unfold host
  cases hhost : w.hosts.find? id <;> cases hhost' : w'.hosts.find? id <;>
    simp_all

theorem sheetOf (h : SameSheets w w') {f f' : Formula} (hattachment : f'.attachment = f.attachment) :
    w'.sheetOf f' = w.sheetOf f := by
  unfold Workspace.sheetOf
  rw [hattachment]
  cases f.attachment with
  | none => rfl
  | some attachment => exact h.sheet_host attachment.host

theorem detach (w : Workspace) (id : Nat) : SameSheets w (w.detach id) := by
  unfold Workspace.detach
  split
  · exact .refl w
  · exact .updateHost w _ fun _ => ⟨rfl, rfl⟩

theorem attach (w : Workspace) (id hostId : Nat) : SameSheets w (w.attach id hostId) :=
  (SameSheets.detach w id).trans (.updateHost (w.detach id) hostId fun _ => ⟨rfl, rfl⟩)

end SameSheets

theorem Sound.of_sameSheets {w w' : Workspace} (h : w.Sound) (hsheets : SameSheets w w')
    (hformulas : ∀ id f', w'.formulas.find? id = some f' → ∃ f, w.formulas.find? id = some f ∧
      f'.source = f.source ∧ f'.tree = f.tree ∧ (f'.compiled = none ∨
        f'.compiled = f.compiled ∧ f'.outdated = f.outdated ∧ w'.sheetOf f' = w.sheetOf f)) :
    w'.Sound := by
  constructor
  case plain =>
    intro id host' hhost'
    obtain ⟨host, hhost, hsetup, hsheet⟩ := hsheets.symm.exists_host hhost'
    rw [← hsetup, ← hsheet]
    exact h.plain id host hhost
  case fresh =>
    intro id f' hf'
    obtain ⟨f, hf, hsource, htree, hcompiled⟩ := hformulas id f' hf'
    constructor
    · rw [htree, hsource]
      exact (h.fresh id f hf).tree
    · rcases hcompiled with hnone | ⟨hcompiled, houtdated, hsheet⟩
      · rw [hnone]
        exact fun _ hfound => absurd hfound.symm (Option.some_ne_none _)
      · rw [hcompiled, houtdated, hsheet, hsource]
        exact (h.fresh id f hf).compiled
  case length =>
    intro id f' hf'
    obtain ⟨f, hf, hsource, -⟩ := hformulas id f' hf'
    rw [hsource]
    exact h.length id f hf

/-- A host comes into the workspace. -/
theorem Sound.addHost {w : Workspace} (h : w.Sound) {subscriptions : Dictionary Subscription} {ledger : Ledger}
    (hconnected : w.Connected subscriptions ledger) {setup : HostSetup} {sheet : Sheet} (hsetup : setup.Plain)
    (hsheet : sheet.functions.Named) : (w.addHost setup sheet).Sound := by
  constructor
  case plain =>
    intro id host hhost
    rw [find?_addHost, Option.or_eq_some_iff] at hhost
    rcases hhost with hhost | ⟨-, hhost⟩
    · exact h.plain id host hhost
    · split at hhost
      · rw [← Option.some.inj hhost]
        exact ⟨hsetup, hsheet⟩
      · exact absurd hhost.symm (Option.some_ne_none _)
  case fresh =>
    intro id f hf
    have hsame : (w.addHost setup sheet).sheetOf f = w.sheetOf f := by
      unfold sheetOf
      cases hattachment : f.attachment with
      | none => rfl
      | some attachment =>
        obtain ⟨host, hhost, -⟩ := hconnected.exists_attached hf hattachment
        have hhost' : (w.addHost setup sheet).hosts.find? attachment.host = some host := by
          rw [find?_addHost, hhost]
          rfl
        dsimp only
        rw [host_of_find? hhost, host_of_find? hhost']
    rw [hsame]
    exact h.fresh id f hf
  case length => exact h.length

/-! ## Changes at a host -/

namespace Since

variable {w w' : Workspace} {id : Nat} {sheet : Sheet} {notices : List Notice}
  (h : Since w id w' (sheet, notices))

include h

theorem connected {subscriptions : Dictionary Subscription} {ledger : Ledger}
    (hw : w.Connected subscriptions ledger) : w'.Connected subscriptions ledger := by
  refine hw.of_find? (fun other => ?_) h.formula (fun _ _ => rfl) (fun _ _ => rfl) h.nextHost h.nextFormula
  rw [h.host, Option.map_map]
  congr 1
  funext host
  simp only [Function.comp_apply]
  split <;> rfl

theorem sheet_of_ne {other : Nat} (hne : other ≠ id) : (w'.host other).sheet = (w.host other).sheet := by
  rw [Workspace.host, Workspace.host, h.host]
  simp only [if_neg hne]
  cases w.hosts.find? other <;> rfl

/-- **Changes.** Whatever the compiler may notice of a change has been published. -/
theorem sound (hw : w.Sound) {subscriptions : Dictionary Subscription} {ledger : Ledger}
    (hconnected : w.Connected subscriptions ledger) (hnamed : sheet.functions.Named)
    (hchange : sheet.isAggregate = (w.host id).sheet.isAggregate ∨ notices.any Notice.outdatesCode = true) :
    w'.Sound := by
  constructor
  case plain =>
    intro other host hhost
    rw [h.host, Option.map_eq_some_iff] at hhost
    obtain ⟨before, hbefore, rfl⟩ := hhost
    obtain ⟨hplain, hbeforeNamed⟩ := hw.plain other before hbefore
    split
    · exact ⟨hplain, hnamed⟩
    · exact ⟨hplain, hbeforeNamed⟩
  case fresh =>
    intro other f hf
    rw [h.formula, Option.map_eq_some_iff] at hf
    obtain ⟨before, hbefore, rfl⟩ := hf
    obtain ⟨htree, hcompiled⟩ := hw.fresh other before hbefore
    refine ⟨htree, fun found hfound hcounts => ?_⟩
    obtain ⟨hbeforeCounts, hunmarked⟩ := Bool.or_eq_false_iff.1 hcounts
    rw [hcompiled found hfound hbeforeCounts]
    refine Sheet.compileSource_congr ?_ _
    unfold sheetOf
    cases hattachment : before.attachment with
    | none => rfl
    | some attachment =>
      dsimp only
      by_cases heq : attachment.host = id
      · rw [heq, h.sheet_eq]
        refine (hchange.resolve_right fun houtdates => ?_).symm
        -- who is attached to the host has heard of the change
        obtain ⟨host, hhost, hlistens⟩ := hconnected.exists_attached hbefore hattachment
        rw [heq] at hhost
        rw [houtdates, host_of_find? hhost, Bool.true_and] at hunmarked
        exact absurd (List.contains_iff_mem.2 hlistens) (by rw [hunmarked]; exact Bool.false_ne_true)
      · rw [h.sheet_of_ne heq]
  case length =>
    intro other f hf
    rw [h.formula, Option.map_eq_some_iff] at hf
    obtain ⟨before, hbefore, rfl⟩ := hf
    exact hw.length other before hbefore

end Since

/-! ## Reading a formula -/

/-- A formula that has got a host listens to it. -/
def settled (ledger : Ledger) (w w' : Workspace) (id : Nat) : Ledger :=
  match (w.formula id).attachment, (w'.formula id).attachment with
  | none, some attachment => ledger.listen (.host attachment.host) (.formula id)
  | _, _ => ledger

theorem settled_of_attachment (ledger : Ledger) {w w' : Workspace} {id : Nat}
    (h : (w'.formula id).attachment = (w.formula id).attachment) : settled ledger w w' id = ledger := by
  unfold settled
  rw [h]
  cases (w.formula id).attachment <;> rfl

/-- A formula may have kept what it found and got a host, and nothing else has happened. -/
structure Settles (w : Workspace) (id : Nat) (w' : Workspace) : Prop where
  sound : w'.Sound
  connected : ∀ {subscriptions ledger}, w.Connected subscriptions ledger →
    w'.Connected subscriptions (settled ledger w w' id)
  formula : ∃ f, w'.formulas.find? id = some f ∧ f.source = (w.formula id).source
  kept : ∀ attachment, (w.formula id).attachment = some attachment →
    (w'.formula id).attachment = some attachment
  host : w'.hostOf (w'.formula id) = w.hostOf (w.formula id)
  sheet : (w'.sheetOf (w'.formula id)).Agrees (w.sheetOf (w.formula id))
  hosts : ∀ other host, w.hosts.find? other = some host →
    ∃ host', w'.hosts.find? other = some host' ∧ host'.sheet.Agrees host.sheet
  sheets : ∀ other, (w'.host other).sheet.Agrees (w.host other).sheet
  nextHost : w.hosts.next ≤ w'.hosts.next
  formulas : ∀ other, (w'.formulas.find? other).isSome = (w.formulas.find? other).isSome
  tells : Tells w w' []

namespace Settles

variable {w w' w'' : Workspace} {id : Nat}

theorem trans (h : Settles w id w') (h' : Settles w' id w'') : Settles w id w'' where
  sound := h'.sound
  connected {subscriptions ledger} hw := by
    have hboth := h'.connected (h.connected hw)
    have hsettled : settled (settled ledger w w' id) w' w'' id = settled ledger w w'' id := by
      have hkept := h.kept
      have hkept' := h'.kept
      unfold settled
      cases hbefore : (w.formula id).attachment with
      | some attachment => rw [hkept attachment hbefore]
      | none =>
        cases hmiddle : (w'.formula id).attachment with
        | none => rfl
        | some attachment => rw [hkept' attachment hmiddle]
    rwa [hsettled] at hboth
  formula := by
    obtain ⟨f, hf, hsource⟩ := h.formula
    obtain ⟨f', hf', hsource'⟩ := h'.formula
    rw [formula_of_find? hf] at hsource'
    exact ⟨f', hf', hsource'.trans hsource⟩
  kept attachment hattachment := h'.kept attachment (h.kept attachment hattachment)
  host := h'.host.trans h.host
  sheet := h'.sheet.trans h.sheet
  hosts other host hhost := by
    obtain ⟨host', hhost', hagrees⟩ := h.hosts other host hhost
    obtain ⟨host'', hhost'', hagrees'⟩ := h'.hosts other host' hhost'
    exact ⟨host'', hhost'', hagrees'.trans hagrees⟩
  sheets other := (h'.sheets other).trans (h.sheets other)
  nextHost := Nat.le_trans h.nextHost h'.nextHost
  formulas other := (h'.formulas other).trans (h.formulas other)
  tells := h.tells.trans h'.tells

/-- What changes are neither the connections nor the sheets, as far as formulas see them. -/
theorem of_attachment_eq {f f' : Formula} (hsound : w'.Sound)
    (hconnected : ∀ {subscriptions ledger}, w.Connected subscriptions ledger → w'.Connected subscriptions ledger)
    (hf : w.formulas.find? id = some f) (hf' : w'.formulas.find? id = some f') (hsource : f'.source = f.source)
    (hattachment : f'.attachment = f.attachment)
    (hsheets : ∀ other, (w'.host other).sheet.Agrees (w.host other).sheet)
    (hhosts : ∀ other, (w'.hosts.find? other).isSome = (w.hosts.find? other).isSome)
    (hnextHost : w'.hosts.next = w.hosts.next)
    (hformulas : ∀ other, (w'.formulas.find? other).isSome = (w.formulas.find? other).isSome)
    (htells : Tells w w' []) : Settles w id w' := by
  have hkept : (w'.formula id).attachment = (w.formula id).attachment := by
    rw [formula_of_find? hf', formula_of_find? hf, hattachment]
  constructor
  case sound => exact hsound
  case connected =>
    intro subscriptions ledger hw
    rw [settled_of_attachment ledger hkept]
    exact hconnected hw
  case formula => exact ⟨f', hf', by rw [hsource, formula_of_find? hf]⟩
  case kept =>
    rw [hkept]
    exact fun _ h => h
  case host =>
    unfold hostOf
    rw [hkept, hnextHost]
  case sheet =>
    unfold sheetOf
    rw [hkept]
    cases (w.formula id).attachment with
    | none => exact ⟨rfl, rfl⟩
    | some attachment => exact hsheets attachment.host
  case hosts =>
    intro other host hhost
    obtain ⟨host', hhost'⟩ := Option.isSome_iff_exists.1 ((hhosts other).trans (by rw [hhost]; rfl))
    refine ⟨host', hhost', ?_⟩
    rw [← host_of_find? hhost', ← host_of_find? hhost]
    exact hsheets other
  case sheets => exact hsheets
  case nextHost => exact Nat.le_of_eq hnextHost.symm
  case formulas => exact hformulas
  case tells => exact htells

/-- What is kept of a formula changes. -/
theorem updateFormula (hw : w.Sound) {f : Formula} (hf : w.formulas.find? id = some f) {change : Formula → Formula}
    (hsource : ∀ f, (change f).source = f.source) (hchannel : ∀ f, (change f).channel = f.channel)
    (hattachment : ∀ f, (change f).attachment = f.attachment)
    (hfresh : (change f).Fresh (w.sheetOf f)) : Settles w id (w.updateFormula id change) := by
  have hfind : (w.updateFormula id change).formulas.find? id = some (change f) := by
    rw [find?_updateFormula, hf, Option.map_some, if_pos rfl]
  have hsound : (w.updateFormula id change).Sound := by
    apply hw.updateFormula id
    · intro f' hf'
      rw [← Option.some.inj (hf.symm.trans hf'), sheetOf, hattachment]
      exact hfresh
    · intro f' hf'
      rw [hsource]
      exact hw.length id f' hf'
  refine .of_attachment_eq hsound (·.updateFormula id hchannel hattachment) hf hfind (hsource f) (hattachment f)
    (fun _ => ⟨rfl, rfl⟩) (fun _ => rfl) rfl (fun other => ?_) (.of_journal_eq rfl)
  rw [find?_updateFormula, Option.isSome_map]

theorem of_eq (hw : w.Sound) {f : Formula} (hf : w.formulas.find? id = some f) (hhosts : w'.hosts = w.hosts)
    (hformulas : w'.formulas = w.formulas) (htells : Tells w w' []) : Settles w id w' := by
  have hconnected : ∀ {subscriptions ledger}, w.Connected subscriptions ledger →
      w'.Connected subscriptions ledger := by
    intro subscriptions ledger hconnected
    apply hconnected.congr
    · funext source
      cases source <;> simp only [channel?, hhosts, hformulas]
    · funext listener
      cases listener <;> simp only [held?, hformulas]
    · rw [hhosts]
    · rw [hformulas]
  have hsheets : ∀ other, (w'.host other).sheet.Agrees (w.host other).sheet := by
    intro other
    unfold Workspace.host
    rw [hhosts]
    exact ⟨rfl, rfl⟩
  exact .of_attachment_eq (hw.congr hhosts hformulas) hconnected hf (hformulas ▸ hf) rfl rfl hsheets
    (fun _ => by rw [hhosts]) (by rw [hhosts]) (fun _ => by rw [hformulas]) htells

theorem refl (hw : w.Sound) {f : Formula} (hf : w.formulas.find? id = some f) : Settles w id w :=
  .of_eq hw hf rfl rfl (.refl w)

theorem record (hw : w.Sound) {f : Formula} (hf : w.formulas.find? id = some f) {entry : Entry}
    (hentry : entry.delivery? = none) : Settles w id (w.record entry) := by
  have htells := Tells.record w entry
  rw [hentry] at htells
  exact .of_eq hw hf rfl rfl htells

end Settles

/-! ### The tree -/

theorem runIn_readSource (source : String) (w : Workspace) : (readSource source).runIn w =
    (Formula.parse source, if isBlankText source then w else w.record (.parsed source)) := by
  unfold readSource Formula.parse
  cases isBlankText source with
  | true => rfl
  | false =>
    rw [if_neg Bool.false_ne_true, if_neg Bool.false_ne_true, if_neg Bool.false_ne_true]
    rw [Answer.runIn_bind_ok (Answer.runIn_lift _ w)]
    cases Expr.ofText? source <;> rfl

/-- **Trees.** The tree of a formula is that of its source. -/
theorem runIn_tree {w : Workspace} (hw : w.Sound) {id : Nat} {f : Formula}
    (hf : w.formulas.find? id = some f) :
    ∃ w', (tree id).runIn w = (Formula.parse f.source, w') ∧ Settles w id w' := by
  have hrun : (tree id).runIn w = (w.formula id).tree.elim
      (((readSource (w.formula id).source).runIn w).1,
        ((readSource (w.formula id).source).runIn w).2.updateFormula id
          ({ · with tree := some ((readSource (w.formula id).source).runIn w).1 }))
      fun found => (found, w) := by
    unfold tree
    rw [Answer.runIn_mk]
    simp only [StateT.run_bind, StateT.run_get, pure_bind]
    cases (w.formula id).tree <;> rfl
  rw [formula_of_find? hf] at hrun
  cases htree : f.tree with
  | some found =>
    rw [htree] at hrun
    obtain rfl := (hw.fresh id f hf).tree found htree
    exact ⟨w, hrun, .refl hw hf⟩
  | none =>
    rw [htree, runIn_readSource] at hrun
    have hread : Settles w id (if isBlankText f.source then w else w.record (.parsed f.source)) := by
      split
      · exact .refl hw hf
      · exact .record hw hf rfl
    have hf' : (if isBlankText f.source then w else w.record (.parsed f.source)).formulas.find? id = some f := by
      split <;> exact hf
    refine ⟨_, hrun, hread.trans (.updateFormula hread.sound hf' ?_ ?_ ?_ ?_)⟩
    · exact fun _ => rfl
    · exact fun _ => rfl
    · exact fun _ => rfl
    · exact ⟨fun found hfound => (Option.some.inj hfound).symm, (hread.sound.fresh id f hf').compiled⟩

theorem runIn_references {w : Workspace} (hw : w.Sound) {id : Nat} {f : Formula}
    (hf : w.formulas.find? id = some f) : ∃ w', (references id).runIn w = (Formula.refersTo f.source, w') ∧
    Settles w id w' := by
  obtain ⟨w', htree, hsettles⟩ := runIn_tree hw hf
  refine ⟨w', ?_, hsettles⟩
  unfold references Formula.refersTo
  cases hparse : Formula.parse f.source with
  | error error =>
    rw [hparse] at htree
    exact Answer.runIn_bind_error htree
  | ok found =>
    rw [hparse] at htree
    rw [Answer.runIn_bind_ok htree]
    cases found <;> rfl

/-! ### The host -/

/-- Functions stand under their names where there are none. -/
theorem named_empty : Sheet.empty.functions.Named := fun _ _ hf => absurd hf.symm (Option.some_ne_none _)

section NewHost

variable {w : Workspace} {subscriptions : Dictionary Subscription} {ledger : Ledger}
  (hconnected : w.Connected subscriptions ledger) {id : Nat} {f : Formula}
  (hattachment : f.attachment = none)

include hconnected hattachment

/-- A formula without a host finds in a new one what it has found without. -/
theorem sheetOf_attach_new (subscription : Nat) : ((w.addHost .plain .empty).attach id w.hosts.next).sheetOf
    { f with attachment := some ⟨w.hosts.next, subscription⟩ } = w.sheetOf f := by
  have hhost : (w.addHost .plain .empty).hosts.find? w.hosts.next = some ⟨.plain, .empty, .empty⟩ := by
    rw [find?_addHost, hconnected.find?_nextHost, if_pos rfl]
    rfl
  have hsheets := SameSheets.attach (w.addHost .plain .empty) id w.hosts.next
  rw [sheetOf, sheetOf, hattachment]
  dsimp only
  rw [hsheets.sheet_host, host_of_find? hhost]

variable (hw : w.Sound) (hf : w.formulas.find? id = some f)

include hw hf

theorem Sound.attach_new : ((w.addHost .plain .empty).attach id w.hosts.next).Sound := by
  have hadded : (w.addHost .plain .empty).Sound := hw.addHost hconnected ⟨rfl, rfl, rfl⟩ named_empty
  have hsheets := SameSheets.attach (w.addHost .plain .empty) id w.hosts.next
  -- the formula itself has changed hosts, all others keep the sheets that they had
  refine hadded.of_sameSheets hsheets fun other f' hf' => ?_
  obtain ⟨subscription, hother⟩ := find?_attach (w.addHost .plain .empty) id w.hosts.next other
  rw [hother, Option.map_eq_some_iff] at hf'
  obtain ⟨before, hbefore, rfl⟩ := hf'
  refine ⟨before, hbefore, ?_⟩
  split
  · next heq =>
    obtain rfl := Option.some.inj (hf.symm.trans (heq ▸ hbefore))
    refine ⟨rfl, rfl, .inr ⟨rfl, rfl, ?_⟩⟩
    rw [sheetOf_attach_new hconnected hattachment, sheetOf, sheetOf, hattachment]
  · exact ⟨rfl, rfl, .inr ⟨rfl, rfl, hsheets.sheetOf rfl⟩⟩

theorem Settles.of_attach_new : Settles w id ((w.addHost .plain .empty).attach id w.hosts.next) := by
  have hsheets := SameSheets.attach (w.addHost .plain .empty) id w.hosts.next
  have hfind := find?_attach (w.addHost .plain .empty) id w.hosts.next
  obtain ⟨subscription, hself⟩ := hfind id
  rw [show (w.addHost .plain .empty).formulas.find? id = some f from hf, Option.map_some, if_pos rfl] at hself
  constructor
  case sound => exact Sound.attach_new hconnected hattachment hw hf
  case connected =>
    intro subscriptions ledger hconnected
    have hattached := (hconnected.addHost .plain .empty).attach hf (Nat.lt_succ_self w.hosts.next)
    have hsettled : settled ledger w ((w.addHost .plain .empty).attach id w.hosts.next) id =
        ledger.listen (.host w.hosts.next) (.formula id) := by
      unfold settled
      rw [formula_of_find? hself, formula_of_find? hf, hattachment]
    rw [hsettled]
    exact hattached
  case formula => exact ⟨_, hself, by rw [formula_of_find? hf]⟩
  case kept =>
    intro attachment hbefore
    rw [formula_of_find? hf, hattachment] at hbefore
    exact absurd hbefore.symm (Option.some_ne_none _)
  case host => rw [formula_of_find? hself, formula_of_find? hf, hostOf, hostOf, hattachment]
  case sheet =>
    rw [formula_of_find? hself, formula_of_find? hf, sheetOf_attach_new hconnected hattachment]
    exact ⟨rfl, rfl⟩
  case hosts =>
    intro other host hhost
    have hhost' : (w.addHost .plain .empty).hosts.find? other = some host :=
      Table.find?_insert_of_some hhost _
    obtain ⟨host', hfound, -, hdata⟩ := hsheets.exists_host hhost'
    exact ⟨host', hfound, by rw [hdata]; exact ⟨rfl, rfl⟩⟩
  case sheets =>
    intro other
    rw [hsheets.sheet_host, Workspace.host, Workspace.host, find?_addHost]
    by_cases heq : other = w.hosts.next
    · -- an empty sheet stands for a host that is not there
      rw [heq, hconnected.find?_nextHost, if_pos rfl]
      exact ⟨rfl, rfl⟩
    · rw [if_neg heq, Option.or_none]
      exact ⟨rfl, rfl⟩
  case nextHost =>
    rw [nextHost_attach]
    exact Nat.le_succ _
  case formulas =>
    intro other
    obtain ⟨subscription', hother⟩ := hfind other
    rw [hother, Option.isSome_map]
    rfl
  case tells => exact .of_journal_eq (journal_attach _ id _)

end NewHost

/-- A formula without a host gets an empty one. -/
theorem runIn_ensureHost {w : Workspace} (hw : w.Sound) {subscriptions : Dictionary Subscription}
    {ledger : Ledger} (hconnected : w.Connected subscriptions ledger) {id : Nat} {f : Formula}
    (hf : w.formulas.find? id = some f) : ∃ w', (ensureHost id).run w = (w.hostOf f, w') ∧ Settles w id w' ∧
      ∃ attachment, (w'.formula id).attachment = some attachment ∧ attachment.host = w.hostOf f := by
  have hrun := w.run_ensureHost id
  rw [formula_of_find? hf] at hrun
  cases hattachment : f.attachment with
  | some attachment =>
    rw [hattachment] at hrun
    refine ⟨w, ?_, .refl hw hf, attachment, ?_, ?_⟩
    · rw [hrun, hostOf, hattachment]
    · rw [formula_of_find? hf, hattachment]
    · rw [hostOf, hattachment]
  | none =>
    rw [hattachment] at hrun
    obtain ⟨subscription, hfind⟩ := find?_attach (w.addHost .plain .empty) id w.hosts.next id
    have hf' : ((w.addHost .plain .empty).attach id w.hosts.next).formulas.find? id =
        some { f with attachment := some ⟨w.hosts.next, subscription⟩ } := by
      rw [hfind, show (w.addHost .plain .empty).formulas.find? id = some f from hf, Option.map_some, if_pos rfl]
    have hhostOf : w.hostOf f = w.hosts.next := by rw [hostOf, hattachment]
    refine ⟨_, by rw [hrun, hhostOf], .of_attach_new hconnected hattachment hw hf, ⟨w.hosts.next, subscription⟩,
      by rw [formula_of_find? hf'], hhostOf.symm⟩

/-! ### The compiled form -/

/-- A compilation changes nothing but the scope of the sheet. -/
theorem Settles.of_since {w w' : Workspace} {hostId : Nat} {sheet : Sheet} (h : Compiling w hostId w' sheet)
    (hw : w.Sound) {subscriptions : Dictionary Subscription} {ledger : Ledger}
    (hconnected : w.Connected subscriptions ledger) {id : Nat} {f : Formula}
    (hf : w.formulas.find? id = some f) : Settles w id w' := by
  obtain ⟨hsince, hvariables, hfunctions⟩ := h
  obtain ⟨host, hhost⟩ := hsince.known
  have hsame : ∀ other, (w'.host other).sheet.Agrees (w.host other).sheet := by
    intro other
    by_cases heq : other = hostId
    · rw [heq, hsince.sheet_eq]
      exact ⟨hvariables, hfunctions⟩
    · rw [hsince.sheet_of_ne heq]
      exact ⟨rfl, rfl⟩
  have hfind : w'.formulas.find? id = some f := by
    rw [hsince.formula, hf]
    simp
  have hsound : w'.Sound := by
    refine hsince.sound hw hconnected ?_ (.inl ?_)
    · rw [hfunctions, host_of_find? hhost]
      exact (hw.plain hostId host hhost).2
    · funext name
      rw [Sheet.isAggregate, hfunctions]
      rfl
  refine .of_attachment_eq hsound hsince.connected hf hfind rfl rfl hsame (fun other => ?_) hsince.nextHost
    (fun other => ?_) hsince.tells
  · rw [hsince.host, Option.isSome_map]
  · rw [hsince.formula, Option.isSome_map]

/-- Who asks for the compiled form has an outdated one forgotten. -/
theorem settles_dropOutdated {w : Workspace} (hw : w.Sound) {id : Nat} {f : Formula}
    (hf : w.formulas.find? id = some f) : Settles w id (w.dropOutdated id) ∧ ∃ f',
    (w.dropOutdated id).formulas.find? id = some f' ∧ f'.source = f.source ∧ f'.outdated = false ∧
      (w.dropOutdated id).sheetOf f' = w.sheetOf f := by
  have hfresh := hw.fresh id f hf
  constructor
  · refine .updateFormula hw hf (fun f => ?_) (fun f => ?_) (fun f => ?_) ?_
    · split <;> rfl
    · split <;> rfl
    · split <;> rfl
    · split
      · exact ⟨hfresh.tree, fun _ hfound => absurd hfound.symm (Option.some_ne_none _)⟩
      · exact hfresh
  · have hfind := find?_updateFormula w id
      (fun f => if f.outdated then { f with compiled := none, outdated := false } else f) id
    rw [hf, Option.map_some, if_pos rfl] at hfind
    refine ⟨_, hfind, ?_, ?_, ?_⟩
    · split <;> rfl
    · split
      · rfl
      · next hcounts => exact eq_false_of_ne_true hcounts
    · cases f.outdated <;> rfl

section Compile

variable {w : Workspace} (hw : w.Sound) {subscriptions : Dictionary Subscription} {ledger : Ledger}
  (hconnected : w.Connected subscriptions ledger) {id : Nat} {f : Formula}
  (hf : w.formulas.find? id = some f)

include hw hconnected hf

/-- The context of a formula is that of its host. -/
theorem runIn_formulaContext : ∃ w' host, (formulaContext id).run w = (contextOf (w.hostOf f) host.setup, w') ∧
    Settles w id w' ∧ w'.hosts.find? (w.hostOf f) = some host ∧ host.sheet.Agrees (w.sheetOf f) := by
  obtain ⟨w', hrun, hsettles, attachment, hattachment, hhostOf⟩ := runIn_ensureHost hw hconnected hf
  obtain ⟨f', hf', -⟩ := hsettles.formula
  rw [formula_of_find? hf'] at hattachment
  obtain ⟨host, hhost, -⟩ := (hsettles.connected hconnected).exists_attached hf' hattachment
  have hagrees := hsettles.sheet
  rw [formula_of_find? hf', formula_of_find? hf, sheetOf, hattachment] at hagrees
  dsimp only at hagrees
  rw [host_of_find? hhost] at hagrees
  rw [hhostOf] at hhost
  refine ⟨w', host, ?_, hsettles, hhost, hagrees⟩
  rw [formulaContext, StateT.run_bind, hrun, ← host_of_find? hhost]
  rfl

theorem runIn_compile : ∃ w', (compile id).runIn w = ((w.sheetOf f).compileSource f.source, w') ∧
    Settles w id w' := by
  obtain ⟨w₁, htree, hsettles₁⟩ := runIn_tree hw hf
  unfold compile Sheet.compileSource
  cases hparse : Formula.parse f.source with
  | error error =>
    rw [hparse] at htree
    exact ⟨w₁, Answer.runIn_bind_error htree, hsettles₁⟩
  | ok found =>
    rw [hparse] at htree
    rw [Answer.runIn_bind_ok htree]
    cases found with
    | none => exact ⟨w₁, rfl, hsettles₁⟩
    | some expr =>
      obtain ⟨f₁, hf₁, -⟩ := hsettles₁.formula
      have hconnected₁ := hsettles₁.connected hconnected
      obtain ⟨w₂, host, hcontext, hsettles₂, hhost, hagrees⟩ :=
        runIn_formulaContext hsettles₁.sound hconnected₁ hf₁
      obtain ⟨f₂, hf₂, -⟩ := hsettles₂.formula
      have hplain := (hsettles₂.sound.plain _ host hhost).1
      obtain ⟨hform, hcompiling⟩ := Compiled.ofExpr_alike (contextOf_compilesAlike hplain) expr w₂ host.sheet
        ⟨.refl hhost, by rw [host_of_find? hhost], by rw [host_of_find? hhost]⟩
      have hsettles₃ := Settles.of_since hcompiling hsettles₂.sound (hsettles₂.connected hconnected₁) hf₂
      have hsheet : host.sheet.compile expr = (w.sheetOf f).compile expr := by
        refine Sheet.compile_congr (hagrees.trans ?_).isAggregate expr
        rw [← formula_of_find? hf₁, ← formula_of_find? hf]
        exact hsettles₁.sheet
      refine ⟨_, ?_, (hsettles₁.trans hsettles₂).trans hsettles₃⟩
      dsimp only
      rw [Answer.runIn_bind_ok (Answer.runIn_lift _ w₁), hcontext, Answer.runIn_map, hform]
      rw [show ((Compiled.ofExpr (Sheet.context .own) expr).runIn host.sheet).1 = _ from hsheet]

/-- **Compiled forms.** The compiled form of a formula is that of its source, in the sheet of its host as it is. -/
theorem runIn_compiled : ∃ w', (compiled id).runIn w = ((w.sheetOf f).compileSource f.source, w') ∧
    Settles w id w' := by
  obtain ⟨hsettles₁, f₁, hf₁, hsource, hcounts, hsheet⟩ := settles_dropOutdated hw hf
  have hrun : (compiled id).runIn w = ((w.dropOutdated id).formula id).compiled.elim
      (((compile id).runIn (w.dropOutdated id)).1,
        ((compile id).runIn (w.dropOutdated id)).2.updateFormula id
          ({ · with compiled := some ((compile id).runIn (w.dropOutdated id)).1 }))
      fun found => (found, w.dropOutdated id) := by
    unfold compiled
    rw [Answer.runIn_mk]
    simp only [StateT.run_bind, StateT.run_get, StateT.run_modify, pure_bind]
    cases ((w.dropOutdated id).formula id).compiled <;> rfl
  -- a form that is left after this is not outdated, so it is what would be compiled
  rw [formula_of_find? hf₁] at hrun
  cases hcompiled : f₁.compiled with
  | some found =>
    rw [hcompiled, (hsettles₁.sound.fresh id f₁ hf₁).compiled found hcompiled hcounts, hsheet, hsource] at hrun
    exact ⟨_, hrun, hsettles₁⟩
  | none =>
    obtain ⟨w₂, hcompile, hsettles₂⟩ :=
      runIn_compile hsettles₁.sound (hsettles₁.connected hconnected) hf₁
    obtain ⟨f₂, hf₂, hsource₂⟩ := hsettles₂.formula
    rw [hcompiled, hcompile, hsheet, hsource] at hrun
    refine ⟨_, hrun, (hsettles₁.trans hsettles₂).trans (.updateFormula hsettles₂.sound hf₂ ?_ ?_ ?_ ?_)⟩
    · exact fun _ => rfl
    · exact fun _ => rfl
    · exact fun _ => rfl
    · refine ⟨(hsettles₂.sound.fresh id f₂ hf₂).tree, fun found hfound _ => ?_⟩
      have hagrees := hsettles₂.sheet
      rw [formula_of_find? hf₁, formula_of_find? hf₂, hsheet] at hagrees
      rw [formula_of_find? hf₁, hsource] at hsource₂
      rw [← Option.some.inj hfound]
      show _ = (w₂.sheetOf f₂).compileSource f₂.source
      rw [hsource₂, Sheet.compileSource_congr hagrees.isAggregate]

theorem run_hasAggregates : ∃ w', (hasAggregates id).run w = ((w.sheetOf f).aggregatesInSource f.source, w') ∧
    Settles w id w' := by
  obtain ⟨w', hcompiled, hsettles⟩ := runIn_compiled hw hconnected hf
  refine ⟨w', ?_, hsettles⟩
  have hcompiled : (compiled id).run.run w = _ := hcompiled
  rw [hasAggregates, StateT.run_bind, hcompiled, Sheet.aggregatesInSource]
  cases (w.sheetOf f).compileSource f.source with
  | error error => rfl
  | ok found => cases found <;> rfl

end Compile

end Workspace

end Formulary
