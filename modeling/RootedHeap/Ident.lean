/-! # Identities

Objects, slots and heaps are numbered in creation order over a whole world, and never renumbered.
Roots are numbered per heap from `1`; two heaps may well use one number for different roots.
-/

namespace RootedHeap

/-- A managed object, by its position in the world. -/
abbrev ObjId := Nat

/-- A root of one heap. `0` is never issued. -/
abbrev RootId := Nat

/-- An owning slot (a field or a list), inside a managed value or detached. -/
abbrev SlotId := Nat

/-- A heap, by its position in the world. -/
abbrev HeapId := Nat

end RootedHeap
