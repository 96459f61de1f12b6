import Formulary.Table
import Mathlib.Data.List.Nodup

/-!
# What stands in a table

What is found under each number after a change, and the tables whose numbers stay below the next one.
-/

namespace Formulary

namespace Table

variable {α : Type}

/-- Nothing stands under the numbers that are still to be handed out. -/
def Numbered (t : Table α) : Prop := ∀ id, t.next ≤ id → t.find? id = none

theorem lt_next {t : Table α} (h : t.Numbered) {id : Nat} {value : α} (hvalue : t.find? id = some value) :
    id < t.next := by
  by_contra hge
  rw [h id (Nat.le_of_not_lt hge)] at hvalue
  exact nomatch hvalue

theorem find?_insert (t : Table α) (value : α) (id : Nat) :
    (t.insert value).find? id = (t.find? id).or (if id = t.next then some value else none) := by
  unfold find? insert
  rw [List.lookup_append]
  congr 1
  by_cases h : id = t.next
  · simp [h]
  · have hne : (id == t.next) = false := by simpa using h
    simp [h, List.lookup_cons, hne]

theorem find?_insert_of_some {t : Table α} {id : Nat} {old : α} (h : t.find? id = some old) (value : α) :
    (t.insert value).find? id = some old := by
  rw [find?_insert, h]
  rfl

theorem find?_insert_of_ne {t : Table α} {id : Nat} (h : id ≠ t.next) (value : α) :
    (t.insert value).find? id = t.find? id := by
  rw [find?_insert, if_neg h, Option.or_none]

theorem find?_insert_next {t : Table α} (h : t.Numbered) (value : α) :
    (t.insert value).find? t.next = some value := by
  rw [find?_insert, if_pos rfl, h _ (Nat.le_refl _)]
  rfl

theorem find?_erase_self (t : Table α) (id : Nat) : (t.erase id).find? id = none := by
  unfold find? erase
  refine List.lookup_eq_none_iff.2 fun entry hentry => ?_
  have hne := (List.mem_filter.1 hentry).2
  simpa using Ne.symm (by simpa using hne : entry.1 ≠ id)

theorem find?_erase_of_ne (t : Table α) {id other : Nat} (h : other ≠ id) :
    (t.erase id).find? other = t.find? other := by
  unfold find? erase
  induction t.entries with
  | nil => rfl
  | cons entry rest ih =>
    rw [List.filter_cons]
    by_cases hkey : entry.1 = id
    · have hne : (other == entry.1) = false := by simpa [hkey] using h
      rw [if_neg (by simp [hkey]), ih, List.lookup_cons, hne]
    · rw [if_pos (by simpa using hkey), List.lookup_cons, List.lookup_cons, ih]

theorem find?_modify (t : Table α) (id : Nat) (change : α → α) (other : Nat) :
    (t.modify id change).find? other =
      if other = id then (t.find? other).map change else t.find? other := by
  unfold find? modify
  induction t.entries with
  | nil => split <;> rfl
  | cons entry rest ih =>
    obtain ⟨key, value⟩ := entry
    rw [List.map_cons, List.lookup_cons]
    by_cases hkey : key = id
    · rw [if_pos hkey, List.lookup_cons]
      cases hother : other == key with
      | true => rw [if_pos ((eq_of_beq hother).trans hkey)]; rfl
      | false => exact ih
    · rw [if_neg hkey, List.lookup_cons]
      cases hother : other == key with
      | true => rw [if_neg fun h => hkey ((eq_of_beq hother).symm.trans h)]
      | false => exact ih

theorem modify_modify (t : Table α) (id : Nat) (change change' : α → α) :
    (t.modify id change).modify id change' = t.modify id fun value => change' (change value) := by
  unfold modify
  rw [List.map_map]
  congr 1
  refine List.map_congr_left fun entry _ => ?_
  by_cases hkey : entry.1 = id <;> simp [hkey]

theorem erase_insert_of_ne {t : Table α} {id : Nat} (h : id ≠ t.next) (value : α) :
    (t.insert value).erase id = (t.erase id).insert value := by
  simp [insert, erase, Ne.symm h]

/-- What is erased is one entry, if no two have its number. -/
theorem erase_eq_of_nodup {t : Table α} (hnodup : (t.entries.map Prod.fst).Nodup) {id : Nat} {value : α}
    (hmem : (id, value) ∈ t.entries) :
    ∃ front back, t.entries = front ++ (id, value) :: back ∧ t.erase id = ⟨t.next, front ++ back⟩ := by
  obtain ⟨front, back, hentries⟩ := List.append_of_mem hmem
  refine ⟨front, back, hentries, ?_⟩
  rw [hentries, List.map_append, List.map_cons, List.nodup_middle] at hnodup
  have hother : ∀ entry ∈ front ++ back, (entry.1 != id) = true := by
    intro entry hentry
    refine bne_iff_ne.2 fun heq => (List.nodup_cons.1 hnodup).1 ?_
    rw [← List.map_append]
    exact List.mem_map.2 ⟨entry, hentry, heq⟩
  have hkept := List.filter_eq_self.2 hother
  rw [List.filter_append] at hkept
  unfold erase
  rw [hentries, List.filter_append, List.filter_cons_of_neg (by simp), hkept]

/-! ## Numbers -/

theorem numbered_empty : (empty : Table α).Numbered := fun _ _ => rfl

theorem Numbered.insert {t : Table α} (h : t.Numbered) (value : α) : (t.insert value).Numbered := by
  intro id hid
  have hid : t.next + 1 ≤ id := hid
  rw [find?_insert_of_ne (by omega)]
  exact h id (by omega)

theorem Numbered.erase {t : Table α} (h : t.Numbered) (id : Nat) : (t.erase id).Numbered := by
  intro other hother
  by_cases heq : other = id
  · rw [heq, find?_erase_self]
  · rw [find?_erase_of_ne t heq]
    exact h other hother

end Table

end Formulary
