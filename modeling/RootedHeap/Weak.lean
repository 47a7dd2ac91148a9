import RootedHeap.Handle

/-! # Weak references

A weak reference neither owns nor roots its target. It keeps the allocation, so that it can tell
whether the target is still live.
-/

namespace RootedHeap

/-- A weak reference, possibly to nothing. -/
structure WeakRef where
  target : Option ObjId
  deriving DecidableEq, Repr

namespace WeakRef

/-- A reference to nothing; it never upgrades. -/
def empty : WeakRef := ⟨none⟩

/-- A weak reference to the handle's object. -/
def ofHandle (a : Handle) : Op WeakRef := do
  modify (·.retainWeak a.obj)
  pure ⟨some a.obj⟩

/-- A second reference to the same target. -/
def clone (x : WeakRef) : Op WeakRef := do
  match x.target with
  | none => pure ()
  | some o => modify (·.retainWeak o)
  pure x

/-- Give the reference up. -/
def drop (x : WeakRef) : Op Unit := settle (x.target.toList.map .dropWeak)

/-- Root `o`, unless it was collected. -/
def claim (h : HeapId) (o : ObjId) : Locked (Option Handle) := do
  if ← Locked.look (·.isLive o) then some <$> Locked.newHandle h o else pure none

/-- A new handle to the target, unless it was collected or its heap is gone. -/
def upgrade (x : WeakRef) : Op (Option Handle) := fun w =>
  match x.target with
  | none => .ok none w
  | some o =>
    match w.objects[o]? with
    | none => .ok none w
    | some ob =>
      if w.heapExists ob.heap then
        match run ob.heap (claim ob.heap o) (w.enter ob.heap) with
        | .ok (some a) w => .ok (some a) w
        | .ok none w => .ok none (w.leave ob.heap)
        | .error fault w => .error fault (w.leave ob.heap)
      else .ok none w

/-- Whether the reference points at the handle's object. -/
def pointsTo (x : WeakRef) (a : Handle) : Bool := x.target = some a.obj

/-- The reference as debug output; `name` shows objects. -/
def debug (name : ObjId → String) (x : WeakRef) : String :=
  match x.target with
  | some o => "GcWeak(" ++ name o ++ ")"
  | none => "GcWeak(null)"

end WeakRef

end RootedHeap
