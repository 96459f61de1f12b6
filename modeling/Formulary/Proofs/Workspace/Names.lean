import Formulary.Proofs.Dictionary
import Formulary.Proofs.Workspace.Changes

/-!
# Names in a session

What the names of hosts and of formulas stand for is there, and two names stand for two formulas
(`Session.Named`). Commands that make, drop or change something keep it so.
-/

namespace Formulary

namespace Workspace

variable (w : Workspace) (source : String) (strategy : Strategy) (hostId : Option Nat)

theorem nextHost_addFormula : (w.addFormula source strategy hostId).hosts.next = w.hosts.next := by
  cases hostId with
  | none => rfl
  | some hostId => exact nextHost_setHost _ w.formulas.next (some hostId)

theorem isSome_addFormula (other : Nat) :
    ((w.addFormula source strategy hostId).formulas.find? other).isSome ↔
      (w.formulas.find? other).isSome ∨ other = w.formulas.next := by
  have hinsert : ((w.formulas.insert (.ofSource source strategy)).find? other).isSome ↔
      (w.formulas.find? other).isSome ∨ other = w.formulas.next := by
    rw [Table.find?_insert]
    by_cases hother : other = w.formulas.next <;> simp [hother]
  cases hostId with
  | none => exact hinsert
  | some hostId =>
    unfold addFormula
    rwa [isSome_setHost]

/-- The new formula has its source, and all others have theirs. -/
theorem sources_addFormula (hnumbered : w.formulas.Numbered) (id : Nat) :
    ((w.addFormula source strategy hostId).formulas.find? id).map Formula.source =
      if id = w.formulas.next then some source else (w.formulas.find? id).map Formula.source := by
  have hinserted : ((w.formulas.insert (.ofSource source strategy)).find? id).map Formula.source =
      if id = w.formulas.next then some source else (w.formulas.find? id).map Formula.source := by
    split
    · next heq =>
      rw [heq, Table.find?_insert_next hnumbered]
      rfl
    · next hne => rw [Table.find?_insert_of_ne hne]
  cases hostId with
  | none => exact hinserted
  | some hostId => exact (sources_setHost _ w.formulas.next (some hostId) id).trans hinserted

end Workspace

namespace Session

open Workspace

/-! ## What goes leaves names alone -/

theorem hosts_dropSubscription (s : Session) (name : String) : (s.dropSubscription name).hosts = s.hosts := by
  unfold Session.dropSubscription
  split <;> rfl

theorem formulas_dropSubscription (s : Session) (name : String) :
    (s.dropSubscription name).formulas = s.formulas := by
  unfold Session.dropSubscription
  split <;> rfl

theorem hosts_dropFormula (s : Session) (name : String) : (s.dropFormula name).hosts = s.hosts := by
  unfold Session.dropFormula
  split <;> rfl

/-! ## Names -/

/-- Names stand for what there is, and two names for two formulas. -/
structure Named (s : Session) : Prop where
  host_lt : ∀ name id, s.hosts.find? name = some id → id < s.workspace.hosts.next
  formula : ∀ name id, s.formulas.find? name = some id → (s.workspace.formulas.find? id).isSome
  distinct : ∀ name name' id, s.formulas.find? name = some id → s.formulas.find? name' = some id → name = name'

namespace Named

variable {s : Session} (h : s.Named)

include h

theorem exists_formula {name : String} {id : Nat} (hid : s.formulas.find? name = some id) :
    ∃ f, s.workspace.formulas.find? id = some f := Option.isSome_iff_exists.1 (h.formula name id hid)

/-- What has a name has a channel. -/
theorem exists_channel {subscriptions : Dictionary Subscription} {ledger : Ledger}
    (hconnected : s.workspace.Connected subscriptions ledger) {name : SourceName} {source : Source}
    (hsource : s.findSource? name = some source) : ∃ channel, s.workspace.channel? source = some channel := by
  unfold findSource? at hsource
  cases name with
  | host name =>
    obtain ⟨id, hid, rfl⟩ := Option.map_eq_some_iff.1 hsource
    obtain ⟨channel, hchannel, -⟩ := hconnected.exists_channel (h.host_lt name id hid)
    exact ⟨channel, hchannel⟩
  | formula name =>
    obtain ⟨id, hid, rfl⟩ := Option.map_eq_some_iff.1 hsource
    obtain ⟨f, hf⟩ := h.exists_formula hid
    exact ⟨f.channel.outside, by simp [channel?, hf]⟩

/-- What has a name is still there. -/
theorem move {s' : Session} (hhosts : s'.hosts = s.hosts) (hformulas : s'.formulas = s.formulas)
    (hnext : s.workspace.hosts.next ≤ s'.workspace.hosts.next)
    (hkept : ∀ id, (s.workspace.formulas.find? id).isSome → (s'.workspace.formulas.find? id).isSome) :
    s'.Named where
  host_lt name id hid := Nat.lt_of_lt_of_le (h.host_lt name id (hhosts ▸ hid)) hnext
  formula name id hid := hkept id (h.formula name id (hformulas ▸ hid))
  distinct := hformulas ▸ h.distinct

theorem makeHost (name : String) (setup : HostSetup) (sheet : Sheet) : (s.makeHost name setup sheet).Named where
  host_lt other id hid := by
    rcases Dictionary.of_find?_insert hid with ⟨-, rfl⟩ | ⟨-, hbefore⟩
    · exact Nat.lt_succ_self _
    · exact Nat.lt_succ_of_lt (h.host_lt other id hbefore)
  formula := h.formula
  distinct := h.distinct

theorem dropHost (name : String) : Named { s with hosts := s.hosts.erase name } where
  host_lt other id hid := h.host_lt other id (Dictionary.of_find?_erase hid).2
  formula := h.formula
  distinct := h.distinct

theorem number_ne {name other : String} {id number : Nat} (hname : s.formulas.find? name = some id)
    (hnumber : s.formulas.find? other = some number) (hne : other ≠ name) : number ≠ id := by
  rintro rfl
  exact hne (h.distinct other name number hnumber hname)

/-- A name that is left when another one is dropped stands for another formula. -/
theorem of_find?_erase {name other : String} {id number : Nat} (hname : s.formulas.find? name = some id)
    (hnumber : (s.formulas.erase name).find? other = some number) :
    s.formulas.find? other = some number ∧ number ≠ id := by
  obtain ⟨hne, hbefore⟩ := Dictionary.of_find?_erase hnumber
  exact ⟨hbefore, h.number_ne hname hbefore hne⟩

theorem dropFormula (name : String) : (s.dropFormula name).Named := by
  unfold Session.dropFormula
  cases hname : s.formulas.find? name with
  | none => exact h
  | some id =>
    constructor
    case host_lt =>
      intro other number hnumber
      exact Nat.lt_of_lt_of_eq (h.host_lt other number hnumber) (nextHost_detach s.workspace id).symm
    case formula =>
      intro other number hnumber
      obtain ⟨hbefore, hne⟩ := h.of_find?_erase hname hnumber
      show ((s.workspace.dropFormula id).formulas.find? number).isSome
      rw [find?_dropFormula, if_neg hne]
      exact h.formula other number hbefore
    case distinct =>
      intro other other' number hnumber hnumber'
      exact h.distinct other other' number (h.of_find?_erase hname hnumber).1 (h.of_find?_erase hname hnumber').1

omit h in
/-- The names that are left stand for what they stood for. -/
theorem find?_dropFormula_formulas (s : Session) (name : String) {other : String} {id : Nat}
    (hid : (s.dropFormula name).formulas.find? other = some id) : s.formulas.find? other = some id := by
  unfold Session.dropFormula at hid
  split at hid
  · exact hid
  · exact (Dictionary.of_find?_erase hid).2

omit h in
theorem find?_dropFormula_of_ne (s : Session) {name other : String} (hne : other ≠ name) :
    (s.dropFormula name).formulas.find? other = s.formulas.find? other := by
  unfold Session.dropFormula
  split
  · rfl
  · exact Dictionary.find?_erase_of_ne s.formulas hne

omit h in
/-- What is left is not what the name stood for. -/
theorem of_isSome_dropFormula {name : String} {id : Nat}
    (hid : ((s.dropFormula name).workspace.formulas.find? id).isSome) :
    (s.workspace.formulas.find? id).isSome ∧ s.formulas.find? name ≠ some id := by
  unfold Session.dropFormula at hid
  split at hid
  · next hnone => exact ⟨hid, fun hname => Option.some_ne_none _ (hname.symm.trans hnone)⟩
  · next old hold =>
    have hid : ((s.workspace.dropFormula old).formulas.find? id).isSome := hid
    rw [find?_dropFormula] at hid
    split at hid
    · exact absurd hid Bool.false_ne_true
    · next hne => exact ⟨hid, fun hname => hne (Option.some.inj (hname.symm.trans hold))⟩

omit h in
/-- What the name does not stand for is left. -/
theorem formula_dropFormula (s : Session) {name : String} {id : Nat} (hname : s.formulas.find? name ≠ some id) :
    (s.dropFormula name).workspace.formulas.find? id = s.workspace.formulas.find? id := by
  unfold Session.dropFormula
  split
  · rfl
  · next old hold =>
    have hne : id ≠ old := fun heq => hname (heq ▸ hold)
    show (s.workspace.dropFormula old).formulas.find? id = _
    rw [find?_dropFormula, if_neg hne]

/-- A number that no name stands for gets a name. -/
theorem nameFormula (name : String) {id : Nat} (hid : (s.workspace.formulas.find? id).isSome)
    (hunnamed : ∀ other, s.formulas.find? other ≠ some id) :
    Named { s with formulas := s.formulas.insert name id } where
  host_lt := h.host_lt
  formula other number hnumber := by
    rcases Dictionary.of_find?_insert hnumber with ⟨-, rfl⟩ | ⟨-, hbefore⟩
    · exact hid
    · exact h.formula other number hbefore
  distinct other other' number hnumber hnumber' := by
    rcases Dictionary.of_find?_insert hnumber with ⟨rfl, rfl⟩ | ⟨-, hbefore⟩ <;>
      rcases Dictionary.of_find?_insert hnumber' with ⟨rfl, hsame⟩ | ⟨-, hbefore'⟩
    · rfl
    · exact absurd hbefore' (hunnamed other')
    · exact absurd (hsame ▸ hbefore) (hunnamed other)
    · exact h.distinct other other' number hbefore hbefore'

theorem addFormula (source : String) (strategy : Strategy) (hostId : Option Nat) :
    Named { s with workspace := s.workspace.addFormula source strategy hostId } :=
  h.move rfl rfl (Nat.le_of_eq (nextHost_addFormula s.workspace source strategy hostId).symm) fun id hid =>
    (isSome_addFormula s.workspace source strategy hostId id).2 (.inl hid)

/-- No name stands for the formula that comes next. -/
theorem find?_ne_next (hnumbered : s.workspace.formulas.Numbered) (name : String) :
    s.formulas.find? name ≠ some s.workspace.formulas.next := by
  intro hname
  obtain ⟨f, hf⟩ := Option.isSome_iff_exists.1 (h.formula name _ hname)
  exact Nat.lt_irrefl _ (Table.lt_next hnumbered hf)

/-- A formula comes under a name, and an older one of that name goes. -/
theorem makeFormula (hnumbered : s.workspace.formulas.Numbered) (name source : String) (strategy : Strategy)
    (hostId : Option Nat) : (s.makeFormula name source strategy hostId).Named := by
  have hmade := h.addFormula source strategy hostId
  have hnew : ((s.workspace.addFormula source strategy hostId).formulas.find? s.workspace.formulas.next).isSome :=
    (isSome_addFormula s.workspace source strategy hostId _).2 (.inr rfl)
  have hunnamed := h.find?_ne_next hnumbered
  rw [← formula_dropFormula { s with workspace := s.workspace.addFormula source strategy hostId } (hunnamed name)]
    at hnew
  refine (hmade.dropFormula name).nameFormula name hnew ?_
  exact fun other hother => hunnamed other (find?_dropFormula_formulas
    { s with workspace := s.workspace.addFormula source strategy hostId } name hother)

end Named

end Session

end Formulary
