/-!
# Dictionaries

Values by name. An entry made later stands before those made earlier, and a name has one entry.
-/

namespace Formulary

structure Dictionary (α : Type) where
  entries : List (String × α)

namespace Dictionary

variable {α : Type}

def empty : Dictionary α := ⟨[]⟩

instance : Inhabited (Dictionary α) := ⟨empty⟩

def find? (d : Dictionary α) (name : String) : Option α := d.entries.lookup name

def contains (d : Dictionary α) (name : String) : Bool := (d.find? name).isSome

def erase (d : Dictionary α) (name : String) : Dictionary α :=
  ⟨d.entries.filter fun entry => entry.1 != name⟩

/-- Replaces the entry of the name, if there is one. -/
def insert (d : Dictionary α) (name : String) (value : α) : Dictionary α :=
  ⟨(name, value) :: (d.erase name).entries⟩

/-- The entries of a list, a later one replacing an earlier one of the same name. -/
def ofList (entries : List (String × α)) : Dictionary α :=
  entries.foldl (fun d entry => d.insert entry.1 entry.2) empty

theorem lookup_filter_ne (entries : List (String × α)) (name other : String) :
    (entries.filter fun entry => entry.1 != name).lookup other
      = if other = name then none else entries.lookup other := by
  induction entries with
  | nil => simp
  | cons entry rest ih =>
    obtain ⟨key, value⟩ := entry
    rw [List.filter_cons]
    by_cases hk : key = name
    · rw [if_neg (by simp [hk]), ih]
      by_cases ho : other = name
      · simp [ho]
      · have : (other == key) = false := by simpa [hk] using ho
        simp [ho, List.lookup_cons, this]
    · rw [if_pos (by simpa using hk), List.lookup_cons, List.lookup_cons, ih]
      cases h : other == key with
      | false => rfl
      | true =>
        have : other ≠ name := by rw [eq_of_beq h]; exact hk
        simp [this]

theorem find?_erase_self (d : Dictionary α) (name : String) : (d.erase name).find? name = none := by
  simp [find?, erase, lookup_filter_ne]

theorem find?_erase_of_ne (d : Dictionary α) {name other : String} (h : other ≠ name) :
    (d.erase name).find? other = d.find? other := by
  simp [find?, erase, lookup_filter_ne, h]

theorem find?_insert_self (d : Dictionary α) (name : String) (value : α) :
    (d.insert name value).find? name = some value := by
  simp [find?, insert]

theorem find?_insert_of_ne (d : Dictionary α) {name other : String} (value : α) (h : other ≠ name) :
    (d.insert name value).find? other = d.find? other := by
  have h' : (other == name) = false := by simpa using h
  simp [find?, insert, erase, List.lookup_cons, lookup_filter_ne, h, h']

end Dictionary

end Formulary
