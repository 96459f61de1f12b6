/-!
# Tables

Values under numbers that the table hands out. A number is never handed out twice, and the entries stand
in the order in which they were made.
-/

namespace Formulary

structure Table (α : Type) where
  /-- The number of the next entry. -/
  next : Nat
  entries : List (Nat × α)

namespace Table

variable {α : Type}

def empty : Table α := ⟨0, []⟩

instance : Inhabited (Table α) := ⟨empty⟩

/-- Makes an entry after all others, under the number `next`. -/
def insert (t : Table α) (value : α) : Table α := ⟨t.next + 1, t.entries ++ [(t.next, value)]⟩

def erase (t : Table α) (id : Nat) : Table α := ⟨t.next, t.entries.filter fun entry => entry.1 != id⟩

def find? (t : Table α) (id : Nat) : Option α := t.entries.lookup id

/-- Changes the value under a number, if there is one. -/
def modify (t : Table α) (id : Nat) (change : α → α) : Table α :=
  ⟨t.next, t.entries.map fun entry => if entry.1 = id then (entry.1, change entry.2) else entry⟩

def size (t : Table α) : Nat := t.entries.length

def values (t : Table α) : List α := t.entries.map Prod.snd

theorem values_insert (t : Table α) (value : α) : (t.insert value).values = t.values ++ [value] := by
  simp [values, insert]

end Table

end Formulary
