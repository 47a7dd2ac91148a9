import RootedHeap.Fault

/-! # Root registry

The active roots of one heap, each with the object its handle points at. Numbers are issued in
order and never again, so the next number alone tells a root released earlier from one that was
never issued.
-/

namespace RootedHeap

/-- The active roots of a heap. -/
structure Registry where
  /-- The number the next root gets. -/
  next : RootId
  /-- The active roots with their targets, the latest first. -/
  active : List (RootId × ObjId)
  deriving DecidableEq, Repr

namespace Registry

/-- No root was issued; `0` never will be. -/
def empty : Registry := ⟨1, []⟩

/-- The object an active root points at. -/
def target? (g : Registry) (r : RootId) : Option ObjId := g.active.lookup r

/-- How many roots are active. -/
def size (g : Registry) : Nat := g.active.length

/-- Issue a root for `target`. -/
def acquire (g : Registry) (target : ObjId) : RootId × Registry :=
  (g.next, ⟨g.next + 1, (g.next, target) :: g.active⟩)

/-- Why `r` is not active. -/
def missing (g : Registry) (r : RootId) : Violation :=
  if r ≠ 0 ∧ r < g.next then .doubleRootRelease r else .unknownRoot r

/-- Withdraw `r`, telling its target. -/
def release (g : Registry) (r : RootId) : Except Violation (ObjId × Registry) :=
  match g.target? r with
  | some target => .ok (target, { g with active := g.active.filter (·.1 ≠ r) })
  | none => .error (g.missing r)

/-- Point `r` at `target` instead, telling its former target. -/
def retarget (g : Registry) (r : RootId) (target : ObjId) :
    Except Violation (ObjId × Registry) :=
  match g.target? r with
  | some old =>
    .ok (old, { g with active := g.active.map fun e => if e.1 = r then (r, target) else e })
  | none => .error (g.missing r)

end Registry

end RootedHeap
