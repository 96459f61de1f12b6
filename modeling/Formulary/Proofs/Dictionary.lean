import Formulary.Dictionary
import Mathlib.Data.List.Nodup
import Mathlib.Logic.Function.Basic

/-!
# What stands in a dictionary

Where an entry that is found after a change comes from, and dictionaries in which a name has one entry.
-/

namespace Formulary

namespace Dictionary

variable {α : Type} {d : Dictionary α} {name other : String} {value found : α}

theorem of_find?_erase (h : (d.erase name).find? other = some found) :
    other ≠ name ∧ d.find? other = some found := by
  by_cases heq : other = name
  · rw [heq, find?_erase_self] at h
    exact absurd h.symm (Option.some_ne_none _)
  · rw [find?_erase_of_ne _ heq] at h
    exact ⟨heq, h⟩

theorem of_find?_insert (h : (d.insert name value).find? other = some found) :
    (other = name ∧ found = value) ∨ (other ≠ name ∧ d.find? other = some found) := by
  by_cases heq : other = name
  · rw [heq, find?_insert_self] at h
    exact .inl ⟨heq, (Option.some.inj h).symm⟩
  · rw [find?_insert_of_ne _ _ heq] at h
    exact .inr ⟨heq, h⟩

theorem find?_erase (d : Dictionary α) (name : String) :
    (d.erase name).find? = Function.update d.find? name none := by
  funext other
  by_cases heq : other = name
  · rw [heq, find?_erase_self, Function.update_self]
  · rw [find?_erase_of_ne d heq, Function.update_of_ne heq]

theorem find?_insert (d : Dictionary α) (name : String) (value : α) :
    (d.insert name value).find? = Function.update d.find? name (some value) := by
  funext other
  by_cases heq : other = name
  · rw [heq, find?_insert_self, Function.update_self]
  · rw [find?_insert_of_ne d value heq, Function.update_of_ne heq]

theorem contains_erase (d : Dictionary α) (name : String) :
    (d.erase name).contains = Function.update d.contains name false := by
  funext other
  rw [contains, find?_erase]
  exact Function.apply_update (fun _ => Option.isSome) d.find? name none other

theorem contains_insert (d : Dictionary α) (name : String) (value : α) :
    (d.insert name value).contains = Function.update d.contains name true := by
  funext other
  rw [contains, find?_insert]
  exact Function.apply_update (fun _ => Option.isSome) d.find? name (some value) other

/-! ## One entry a name -/

def Distinct (d : Dictionary α) : Prop := (d.entries.map Prod.fst).Nodup

theorem distinct_empty : (empty : Dictionary α).Distinct := List.nodup_nil

theorem Distinct.erase (h : d.Distinct) (name : String) : (d.erase name).Distinct :=
  List.Nodup.sublist (List.filter_sublist.map _) h

theorem Distinct.insert (h : d.Distinct) (name : String) (value : α) : (d.insert name value).Distinct := by
  refine List.nodup_cons.2 ⟨fun hmem => ?_, h.erase name⟩
  obtain ⟨entry, hentry, hname⟩ := List.mem_map.1 hmem
  have hne := (List.mem_filter.1 hentry).2
  exact absurd hname (bne_iff_ne.1 hne)

theorem mem_entries_of_find? (h : d.find? name = some value) : (name, value) ∈ d.entries := by
  obtain ⟨front, back, hentries, -⟩ := List.lookup_eq_some_iff.1 h
  rw [hentries]
  exact List.mem_append_right front List.mem_cons_self

theorem Distinct.mem_entries_iff (h : d.Distinct) : (name, value) ∈ d.entries ↔ d.find? name = some value := by
  refine ⟨fun hmem => ?_, mem_entries_of_find?⟩
  cases hfind : d.find? name with
  | none =>
    have hne := List.lookup_eq_none_iff.1 hfind _ hmem
    exact absurd rfl (bne_iff_ne.1 hne)
  | some found =>
    have hfound := mem_entries_of_find? hfind
    have hsame := List.inj_on_of_nodup_map h hfound hmem rfl
    rw [(Prod.mk.inj hsame).2]

end Dictionary

end Formulary
