import Formulary.Context

/-!
# Aggregate scopes

While code is generated, each argument of an aggregate call opens a scope under an index of its own, and a
variable carries the indices of the scopes around it. Indices count up from 0 in each compilation.
-/

namespace Formulary

structure Scope where
  /-- The open frames from the inside out, each with its index if its call is an aggregate one. -/
  frames : List (Option Nat)
  nextIndex : Nat
  /-- An aggregate call has been compiled since the compilation began. -/
  pending : Bool
  /-- The last complete compilation met an aggregate call. -/
  hasAggregates : Bool
deriving DecidableEq, Repr

namespace Scope

def initial : Scope := ⟨[], 0, false, false⟩

instance : Inhabited Scope := ⟨initial⟩

/-- The indices of the scopes around the current place, from the outside in. -/
def indices (scope : Scope) : List Nat := (scope.frames.filterMap id).reverse

/-- Makes ready for a compilation. -/
def begin (scope : Scope) : Scope :=
  { scope with frames := [], nextIndex := 0, pending := false }

def openFrame (scope : Scope) (aggregate : Bool) : Scope :=
  if aggregate then
    { scope with frames := some scope.nextIndex :: scope.frames, nextIndex := scope.nextIndex + 1 }
  else { scope with frames := none :: scope.frames }

/-- Closes the innermost frame, if one is open. -/
def closeFrame (scope : Scope) : Scope := { scope with frames := scope.frames.tail }

/-- Notes the call of a function. -/
def noteCall (scope : Scope) (aggregate : Bool) : Scope :=
  { scope with pending := scope.pending || aggregate }

def closeAll (scope : Scope) : Scope := { scope with frames := [] }

def complete (scope : Scope) : Scope := { scope with hasAggregates := scope.pending }

end Scope

end Formulary
