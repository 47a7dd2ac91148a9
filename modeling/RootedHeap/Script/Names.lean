/-! # Name tables

A table of named things, kept in the order of the names' code points.
-/

namespace RootedHeap.Script

/-- Named things, ascending by name. -/
abbrev Names (α : Type) := List (String × α)

namespace Names

variable {α : Type}

def find? (names : Names α) (name : String) : Option α := names.lookup name

/-- Bind `name`, in place of what it was bound to. -/
def bind (name : String) (a : α) : Names α → Names α
  | [] => [(name, a)]
  | (other, b) :: rest =>
    if name < other then (name, a) :: (other, b) :: rest
    else if name = other then (name, a) :: rest
    else (other, b) :: bind name a rest

def unbind (name : String) (names : Names α) : Names α := names.filter (·.1 ≠ name)

end Names

end RootedHeap.Script
